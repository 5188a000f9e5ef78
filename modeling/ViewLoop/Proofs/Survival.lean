import ViewLoop.Proofs.Agreement

/-!
# What survives a rendering

Which identities alignment hands on, place by place. The node that it puts in a place has the key of
the fresh node there, or else the identity of the node that the fresh one is recognised in, and its
handlers have those of that node for the same events. All other identities are new, and as many
numbers of nodes are drawn as there are places without a key where nothing is recognised
(`Alignment.survival`).
-/

namespace ViewLoop

open IdSupply

namespace Alignment

open Node

variable {P : Type} {p f c a n fresh : Node P} {o : Option (Node P)} {i : Nat} {path : List Nat}

/-! ### Recognition below a candidate -/

/-- The fresh node in the place is recognised in the previous node `a`, below the candidate for the
root. -/
def RecognisedFrom (o : Option (Node P)) (f : Node P) (path : List Nat) (a : Node P) : Prop :=
  ∃ p, o = some p ∧ Recognised p f path a

theorem recognisedFrom_some_iff : RecognisedFrom (some p) f path a ↔ Recognised p f path a := by
  simp [RecognisedFrom]

theorem recognisedFrom_nil_iff : RecognisedFrom o f [] a ↔ recognise o f = some a := by
  rw [recognise_eq_some_iff]
  constructor
  · rintro ⟨p, hp, h⟩
    cases h with
    | root same => exact ⟨hp, same⟩
  · rintro ⟨hp, same⟩
    exact ⟨a, hp, .root same⟩

theorem recognisedFrom_cons_iff (hc : f.children[i]? = some c) :
    RecognisedFrom o f (i :: path) a ↔ RecognisedFrom
      ((recognise o f).bind fun p => partner? p.children f.children i c) c path a := by
  constructor
  · rintro ⟨p, rfl, h⟩
    cases h with
    | child same hc' hq under =>
      obtain rfl := Option.some.inj (hc.symm.trans hc')
      exact ⟨_, by rw [recognise_of_matches same]; exact hq, under⟩
  · rintro ⟨q, hq, h⟩
    obtain ⟨p, hp, hpartner⟩ := Option.bind_eq_some_iff.mp hq
    obtain ⟨rfl, same⟩ := recognise_eq_some_iff.mp hp
    exact ⟨p, rfl, .child same hc hpartner h⟩

/-! ### Nodes in their places -/

/-- In every place stands what alignment makes of the fresh node there, with the candidate that the
place gives it. -/
theorem nodeAt?_node (o : Option (Node P)) (s : State) (hf : fresh.nodeAt? path = some f) :
    ∃ q r, s.supply.Before r.supply ∧ (node o s fresh).1.nodeAt? path = some (node q r f).1
      ∧ ∀ a, recognise q f = some a ↔ RecognisedFrom o fresh path a := by
  induction path generalizing fresh o s with
  | nil =>
    obtain rfl := Option.some.inj hf
    exact ⟨o, s, .refl _, rfl, fun a => recognisedFrom_nil_iff.symm⟩
  | cons i path ih =>
    obtain ⟨c, hc, hf⟩ := nodeAt?_cons.mp hf
    obtain ⟨-, hchild⟩ := getElem?_children_node o s fresh
    obtain ⟨r₁, hr₁, ht⟩ := hchild i c hc
    obtain ⟨q, r, hr, hn, hrec⟩ := ih _ r₁ hf
    refine ⟨q, r, hr₁.trans hr, nodeAt?_cons.mpr ⟨_, ht, hn⟩, fun a => ?_⟩
    rw [hrec, recognisedFrom_cons_iff hc]

theorem isSome_nodeAt?_node (o : Option (Node P)) (s : State) (fresh : Node P) (path : List Nat) :
    ((node o s fresh).1.nodeAt? path).isSome = (fresh.nodeAt? path).isSome := by
  induction path generalizing fresh o s with
  | nil => rfl
  | cons i path ih =>
    obtain ⟨hlen, hchild⟩ := getElem?_children_node o s fresh
    rw [nodeAt?, nodeAt?]
    cases hc : fresh.children[i]? with
    | none =>
      have hnone : (node o s fresh).1.children[i]? = none := by
        rw [List.getElem?_eq_none_iff] at hc ⊢
        omega
      rw [hnone]
    | some c =>
      obtain ⟨r, -, ht⟩ := hchild i c hc
      rw [ht]
      exact ih _ r c

/-! ### How many numbers are drawn -/

/-- The fresh node in the place has no key and is not recognised. -/
def Unrecognised (o : Option (Node P)) (f : Node P) (path : List Nat) : Prop :=
  (∃ n, f.nodeAt? path = some n ∧ n.id.isKeyed = false) ∧ ∀ a, ¬RecognisedFrom o f path a

theorem unrecognised_nil_iff :
    Unrecognised o f [] ↔ f.id.isKeyed = false ∧ recognise o f = none := by
  simp [Unrecognised, nodeAt?, recognisedFrom_nil_iff, Option.eq_none_iff_forall_ne_some]

theorem unrecognised_cons_iff : Unrecognised o f (i :: path) ↔ ∃ c, f.children[i]? = some c
    ∧ Unrecognised ((recognise o f).bind fun p => partner? p.children f.children i c) c path := by
  constructor
  · rintro ⟨⟨n, hn, hk⟩, hno⟩
    obtain ⟨c, hc, hn⟩ := nodeAt?_cons.mp hn
    exact ⟨c, hc, ⟨n, hn, hk⟩, fun a h => hno a ((recognisedFrom_cons_iff hc).mpr h)⟩
  · rintro ⟨c, hc, ⟨n, hn, hk⟩, hno⟩
    refine ⟨⟨n, nodeAt?_cons.mpr ⟨c, hc, hn⟩, hk⟩, fun a h => ?_⟩
    exact hno a ((recognisedFrom_cons_iff hc).mp h)

/-- As many numbers of nodes are drawn as there are places where nothing is recognised. -/
def Draws (o : Option (Node P)) (s : IdSupply) (f _ : Node P) (s' : IdSupply) : Prop :=
  ∃ places : List (List Nat), places.Nodup ∧ (∀ path, path ∈ places ↔ Unrecognised o f path)
    ∧ s'.nodes = s.nodes + places.length

theorem nodes_identify (owner : NodeId) (previous as : List (Attribute P)) (supply : IdSupply) :
    (identify owner previous supply as).2.nodes = supply.nodes := by
  induction as generalizing supply with
  | nil => rfl
  | cons a as ih =>
    cases a with
    | plain name value => exact ih supply
    | handler h =>
      have hown : (handlerIdFor previous h.event supply).2.nodes = supply.nodes := by
        unfold handlerIdFor
        split <;> rfl
      exact (ih _).trans hown

theorem draws_own (o : Option (Node P)) (s : State) (f : Node P) :
    ∃ own : List (List Nat), own.Nodup ∧ (∀ path, path ∈ own ↔ path = [] ∧ Unrecognised o f [])
      ∧ (idFor (recognise o f) f.id s).2.supply.nodes = s.supply.nodes + own.length := by
  rcases idFor_cases o f s with ⟨hk, h⟩ | ⟨-, q, hr, h⟩ | ⟨hk, hr, h⟩
  · exact ⟨[], List.nodup_nil, by simp [unrecognised_nil_iff, hk], by simp [h]⟩
  · exact ⟨[], List.nodup_nil, by simp [unrecognised_nil_iff, hr], by simp [h]⟩
  · exact ⟨[[]], List.nodup_singleton _, by simp [unrecognised_nil_iff, hk, hr],
      by simp [h, IdSupply.mintNode]⟩

/-- What siblings draw, counted in places whose first step is the position of the sibling. -/
theorem Threaded.draws {os : List (Option (Node P))} {cs ts : List (Node P)} {s s' : IdSupply}
    (h : Threaded Draws os s cs ts s') (start : Nat) :
    ∃ places : List (List Nat), places.Nodup
      ∧ (∀ path, path ∈ places ↔ ∃ i c q rest, path = (start + i) :: rest ∧ cs[i]? = some c
        ∧ os[i]? = some q ∧ Unrecognised q c rest)
      ∧ s'.nodes = s.nodes + places.length := by
  induction h generalizing start with
  | nil => exact ⟨[], List.nodup_nil, by simp, by simp⟩
  | @cons o os s s₁ s' c t cs ts first _ ih =>
    obtain ⟨own, hown, hmemOwn, hfirst⟩ := first
    obtain ⟨places, hplaces, hmem, hrest⟩ := ih (start + 1)
    refine ⟨own.map (start :: ·) ++ places, ?_, fun path => ?_, ?_⟩
    · refine List.nodup_append.mpr ⟨hown.map fun _ _ h => (List.cons.inj h).2, hplaces, ?_⟩
      rintro x hx y hy rfl
      obtain ⟨rest, -, rfl⟩ := List.mem_map.mp hx
      obtain ⟨i, _, _, _, hpath, -⟩ := (hmem _).mp hy
      have hstart := (List.cons.inj hpath).1
      omega
    · rw [List.mem_append, List.mem_map, hmem]
      constructor
      · rintro (⟨rest, hm, rfl⟩ | ⟨i, d, q, rest, rfl, hd, hq, hun⟩)
        · exact ⟨0, c, o, rest, rfl, rfl, rfl, (hmemOwn rest).mp hm⟩
        · exact ⟨i + 1, d, q, rest, by simp [Nat.add_assoc, Nat.add_comm 1], hd, hq, hun⟩
      · rintro ⟨i, d, q, rest, rfl, hd, hq, hun⟩
        cases i with
        | zero =>
          obtain rfl := Option.some.inj hd
          obtain rfl := Option.some.inj hq
          exact Or.inl ⟨rest, (hmemOwn rest).mpr hun, rfl⟩
        | succ i =>
          exact Or.inr ⟨i, d, q, rest, by simp [Nat.add_assoc, Nat.add_comm 1], hd, hq, hun⟩
    · rw [hrest, hfirst, List.length_append, List.length_map, Nat.add_assoc]

theorem draws_node (o : Option (Node P)) (s : State) (fresh : Node P) :
    Draws o s.supply fresh (node o s fresh).1 (node o s fresh).2.supply := by
  refine node_induct (R := Draws) ?_ ?_ o s fresh
  · intro o s i u
    obtain ⟨own, hnodup, hmem, hlen⟩ := draws_own o s (.text i u)
    refine ⟨own, hnodup, fun path => ?_, hlen⟩
    rw [hmem]
    cases path with
    | nil => simp
    | cons k path => simp [unrecognised_cons_iff, Node.children]
  · rintro o s i tag as cs ts s' r own kept rfl rfl rfl hbelow
    obtain ⟨own, hown, hmemOwn, hlenOwn⟩ := draws_own o s (.element i tag as cs)
    obtain ⟨places, hplaces, hmem, hlen⟩ := hbelow.draws 0
    refine ⟨own ++ places, ?_, fun path => ?_, ?_⟩
    · refine List.nodup_append.mpr ⟨hown, hplaces, ?_⟩
      rintro x hx y hy rfl
      obtain ⟨rfl, -⟩ := (hmemOwn _).mp hx
      obtain ⟨_, _, _, _, hpath, -⟩ := (hmem _).mp hy
      exact List.cons_ne_nil _ _ hpath.symm
    · rw [List.mem_append, hmemOwn, hmem]
      cases path with
      | nil => simp
      | cons k path =>
        rw [unrecognised_cons_iff]
        constructor
        · rintro (⟨hpath, -⟩ | ⟨i, c, q, rest, hpath, hc, hq, hun⟩)
          · exact absurd hpath (List.cons_ne_nil _ _)
          · obtain ⟨rfl, rfl⟩ := List.cons.inj hpath
            rw [Nat.zero_add]
            rw [candidates_getElem? hc] at hq
            obtain rfl := Option.some.inj hq
            exact ⟨c, hc, hun⟩
        · rintro ⟨c, hc, hun⟩
          exact Or.inr ⟨k, c, _, path, by rw [Nat.zero_add], hc, candidates_getElem? hc, hun⟩
    · have hkept := nodes_identify (idFor (recognise o (.element i tag as cs)) i s).1
        (((recognise o (.element i tag as cs)).map Node.attributes).getD []) (dropRepeated [] as).1
        (idFor (recognise o (.element i tag as cs)) i s).2.supply
      rw [hlen, List.length_append, ← Nat.add_assoc]
      exact congrArg (· + places.length) (hkept.trans hlenOwn)

/-! ### What stands in a place -/

theorem id_node_of_recognised {q : Option (Node P)} (r : State) (h : recognise q f = some a) :
    (node q r f).1.id = a.id := by
  rw [id_node, h]
  exact congrArg Prod.fst (idFor_of_recognised r h)

theorem minted_id_node {q : Option (Node P)} (r : State) (hk : f.id.isKeyed = false)
    (h : recognise q f = none) :
    Minted r.supply r.supply.mintNode.2 (.node (node q r f).1.id) := by
  rw [id_node, h, idFor, if_neg (by simp [hk])]
  exact minted_mintNode r.supply

/-- A handler has the identity of the one for its event on the element that was recognised. -/
theorem handler_id_eq {q : Option (Node P)} {r : State} {h j : Handler P}
    (ha : recognise q f = some a) (he : (Attribute.events a.attributes).Nodup)
    (hh : .handler h ∈ (node q r f).1.attributes) (hj : .handler j ∈ a.attributes)
    (hev : j.event = h.event) : h.id = j.id := by
  obtain ⟨r', -, hattributes⟩ := attributes_node q r f
  rw [ha] at hattributes
  rw [hattributes] at hh
  exact id_eq_of_mem_identify hh (hev ▸ handlerId?_of_mem he hj)

theorem minted_handler_id {q : Option (Node P)} {r : State} {h : Handler P}
    (hh : .handler h ∈ (node q r f).1.attributes)
    (hno : ∀ a j, recognise q f = some a → .handler j ∈ a.attributes → j.event ≠ h.event) :
    ∃ s s', r.supply.Before s ∧ Minted s s' (.handler h.id) := by
  obtain ⟨r', hle, hattributes⟩ := attributes_node q r f
  rw [hattributes] at hh
  rcases (identified_of_mem _ _ _ _).2 h hh with hold | hm
  · obtain ⟨j, hj, hev, -⟩ := exists_of_handlerId? hold
    cases ha : recognise q f with
    | none =>
      rw [ha] at hj
      exact absurd hj List.not_mem_nil
    | some a =>
      rw [ha] at hj
      exact absurd hev (hno a j ha hj)
  · exact ⟨r'.supply, _, hle, hm⟩

/-- Which identities alignment hands on. The aligned tree has the places of the fresh one. A node
with a key keeps it. A node without one has the identity of the previous node that is recognised in
its place, and a new one if there is none. A handler has the identity of the one that the recognised
element has for its event, and a new one if there is none. New identities are drawn by this
alignment and occur nowhere in the previous tree, and the numbers drawn for nodes are as many as the
places without a key where nothing is recognised. -/
theorem survival {supply : IdSupply} {prev : Node P} (hp : WellFormed supply prev)
    (hf : fresh.DistinctKeys) :
    let next := run (some prev) fresh supply
    (∀ path, (next.1.nodeAt? path).isSome = (fresh.nodeAt? path).isSome)
    ∧ (∀ path f n, fresh.nodeAt? path = some f → next.1.nodeAt? path = some n →
        (f.id.isKeyed = true → n.id = f.id)
        ∧ (f.id.isKeyed = false → (∀ a, Recognised prev fresh path a → n.id = a.id)
          ∧ ((∀ a, ¬Recognised prev fresh path a) →
            Minted supply next.2.supply (.node n.id) ∧ n.id ∉ prev.ids))
        ∧ ∀ h, .handler h ∈ n.attributes →
          (∀ a j, Recognised prev fresh path a → .handler j ∈ a.attributes → j.event = h.event →
            h.id = j.id)
          ∧ ((∀ a j, Recognised prev fresh path a → .handler j ∈ a.attributes →
              j.event ≠ h.event) →
            Minted supply next.2.supply (.handler h.id) ∧ ∀ k ∈ prev.handlers, k.2.id ≠ h.id))
    ∧ ∃ places : List (List Nat), places.Nodup
      ∧ (∀ path, path ∈ places ↔ (∃ f, fresh.nodeAt? path = some f ∧ f.id.isKeyed = false)
        ∧ ∀ a, ¬Recognised prev fresh path a)
      ∧ next.2.supply.nodes = supply.nodes + places.length := by
  intro next
  have hnext : WellFormed next.2.supply next.1 := hp.next hf
  refine ⟨isSome_nodeAt?_node (some prev) { supply := supply } fresh, ?_, ?_⟩
  · intro path f n hfresh hn
    obtain ⟨q, r, hle, hn', hrec⟩ := nodeAt?_node (some prev) { supply := supply } hfresh
    obtain rfl := Option.some.inj (hn.symm.trans hn')
    have hmem : (node q r f).1 ∈ next.1.subtrees := mem_subtrees_of_nodeAt? hn
    have hrec : ∀ a, recognise q f = some a ↔ Recognised prev fresh path a := fun a =>
      (hrec a).trans recognisedFrom_some_iff
    refine ⟨(key_node q r f).2, fun hk => ⟨fun a ha => ?_, fun hno => ?_⟩, fun h hh => ⟨?_, ?_⟩⟩
    · exact id_node_of_recognised r ((hrec a).mpr ha)
    · have hnone : recognise q f = none :=
        Option.eq_none_iff_forall_ne_some.mpr fun a ha => hno a ((hrec a).mp ha)
      have hbelow := hnext.below _ (node_mem_marks_iff.mpr (mem_ids_iff.mpr ⟨_, hmem, rfl⟩))
      have hminted := (minted_id_node r hk hnone).of_below hle hbelow
      exact ⟨hminted, fun hold => hminted.not_below (hp.below _ (node_mem_marks_iff.mpr hold))⟩
    · intro a j ha hj hev
      obtain ⟨_, _, hstays⟩ := ha.stays { supply := supply }
      exact handler_id_eq ((hrec a).mpr ha) (hp.events a hstays.mem_old) hh hj hev
    · intro hno
      obtain ⟨s, s', hs, hm⟩ := minted_handler_id hh fun a j ha => hno a j ((hrec a).mp ha)
      have hk := mem_handlers_iff.mpr ⟨_, hmem, rfl, hh⟩
      have hbelow := hnext.below _ (handler_mem_marks_iff.mpr ⟨rfl, _, hk, rfl⟩)
      have hminted := hm.of_below (hle.trans hs) hbelow
      refine ⟨hminted, fun k hk he => hminted.not_below (hp.below _ ?_)⟩
      exact handler_mem_marks_iff.mpr ⟨rfl, k, hk, he⟩
  · obtain ⟨places, hnodup, hmem, hlen⟩ := draws_node (some prev) { supply := supply } fresh
    refine ⟨places, hnodup, fun path => ?_, hlen⟩
    simp only [hmem, Unrecognised, recognisedFrom_some_iff]

/-- A text is recognised by its rank among the children without a key, past a section that stands
where an element of another tag stood. The section and the text in it are new, and so is the second
handler of the item that moves. -/
theorem survival_of_mixed_children :
    let first : Node Nat := .element .unassigned "main" []
      [.element (.keyed "a") "li" [.handler ⟨"click", ⟨0⟩, 5⟩] [], .text .unassigned "x",
        .element .unassigned "div" [] [.text .unassigned "y"], .text .unassigned "z"]
    let second : Node Nat := .element .unassigned "main" []
      [.text .unassigned "x", .element .unassigned "section" [] [.text .unassigned "y"],
        .element (.keyed "a") "li" [.handler ⟨"input", ⟨0⟩, 6⟩, .handler ⟨"click", ⟨0⟩, 5⟩] [],
        .text .unassigned "w"]
    let r := run none first {}
    let next := run (some r.1) second r.2.supply
    let last : Node Nat := .text (.generated 5) "w"
    let inner : Node Nat := .text (.generated 7) "y"
    let input : Handler Nat := ⟨"input", ⟨2⟩, 6⟩
    (WellFormed r.2.supply r.1 ∧ second.DistinctKeys)
      ∧ (next.1.nodeAt? [3] = some last
        ∧ ∀ a, Recognised r.1 second [3] a → last.id = a.id)
      ∧ (next.1.nodeAt? [1, 0] = some inner ∧ (∀ a, ¬Recognised r.1 second [1, 0] a)
        ∧ Minted r.2.supply next.2.supply (.node inner.id) ∧ inner.id ∉ r.1.ids)
      ∧ (next.1.nodeAt? [2]
          = some (.element (.keyed "a") "li" [.handler input, .handler ⟨"click", ⟨1⟩, 5⟩] [])
        ∧ Minted r.2.supply next.2.supply (.handler input.id)
        ∧ ∀ k ∈ r.1.handlers, k.2.id ≠ input.id)
      ∧ ∃ places : List (List Nat), places.Nodup ∧ [1] ∈ places ∧ [1, 0] ∈ places
        ∧ next.2.supply.nodes = r.2.supply.nodes + places.length := by
  intro first second r next last inner input
  have hfirst : first.DistinctKeys := by decide
  have hf : second.DistinctKeys := by decide
  have hnone : ∀ p ∈ (none : Option (Node Nat)), WellFormed {} p := nofun
  have hp : WellFormed r.2.supply r.1 := wellFormed_run hnone hfirst
  obtain ⟨-, hplaces, places, hnodup, hmem, hlen⟩ := survival hp hf
  have hsection : ∀ path a, ¬Recognised r.1 second (1 :: path) a := by
    intro path a h
    obtain ⟨q, hq, hunder⟩ := (recognisedFrom_cons_iff rfl).mp (recognisedFrom_some_iff.mpr h)
    obtain rfl : .element (.generated 3) "div" [] [.text (.generated 4) "y"] = q :=
      Option.some.inj hq
    cases hunder with
    | root same => exact absurd same (by decide)
    | child same => exact absurd same (by decide)
  have hitem : ∀ a j, Recognised r.1 second [2] a → .handler j ∈ a.attributes →
      j.event ≠ "input" := by
    intro a j h hj
    have hrec := (recognisedFrom_cons_iff rfl).mp (recognisedFrom_some_iff.mpr h)
    obtain rfl : .element (.keyed "a") "li" [.handler ⟨"click", ⟨1⟩, 5⟩] [] = a :=
      Option.some.inj (recognisedFrom_nil_iff.mp hrec)
    obtain rfl := Attribute.handler.inj (List.mem_singleton.mp hj)
    decide
  have hlast := hplaces [3] (.text .unassigned "w") last rfl rfl
  have hinner := hplaces [1, 0] (.text .unassigned "y") inner rfl rfl
  have hli := hplaces [2] _ (.element (.keyed "a") "li"
    [.handler input, .handler ⟨"click", ⟨1⟩, 5⟩] []) rfl rfl
  refine ⟨⟨hp, hf⟩, ⟨rfl, (hlast.2.1 rfl).1⟩,
    ⟨rfl, hsection [0], (hinner.2.1 rfl).2 (hsection [0])⟩,
    ⟨rfl, (hli.2.2 input List.mem_cons_self).2 hitem⟩, places, hnodup, ?_, ?_, hlen⟩
  · exact (hmem [1]).mpr ⟨⟨_, rfl, rfl⟩, hsection []⟩
  · exact (hmem [1, 0]).mpr ⟨⟨_, rfl, rfl⟩, hsection [0]⟩

end Alignment

end ViewLoop
