import ViewLoop.Proofs.Rerendering

/-!
# Alignment as a relabelling

Alignment keeps what a fresh tree says and gives it identities, whatever the trees are: what it
makes of a fresh tree is that tree relabelled (`Node.Relabels`), without the handlers for events that
the element listens for already (`Attribute.withoutRepeats`). And it asks a fresh tree for its keys
only: trees that are the same but for numbers from elsewhere (`Node.bare`) are aligned in the same
way (`Alignment.changes_identities_only`).
-/

namespace ViewLoop

variable {P : Type}

/-! ### Relabelled trees -/

namespace Attribute

/-- A handler for an event that one of the earlier attributes listens for. -/
def repeats (earlier : List (Attribute P)) : Attribute P → Bool
  | plain _ _ => false
  | handler h => h.event ∈ events earlier

/-- The attributes of an element but for the handlers whose event occurs before them. -/
def withoutRepeats (as : List (Attribute P)) : List (Attribute P) :=
  (as.zipIdx.filter fun p => !p.1.repeats (as.take p.2)).map Prod.fst

/-- The second attribute is the first one as it stands on the given element: the identity attribute
shows the element, and a handler has an identity. -/
inductive Relabels (owner : NodeId) : Attribute P → Attribute P → Prop
  | identity (value : String) : Relabels owner (plain identityName value) (identity owner)
  | plain {name : String} (value : String) (h : name ≠ identityName) :
      Relabels owner (plain name value) (plain name value)
  | handler (h : Handler P) (id : HandlerId) :
      Relabels owner (handler h) (handler { h with id := id })

end Attribute

namespace Node

/-- The second tree is the first one with other identities: it has the same kinds, tags, texts and
keys in the same places, and the same attributes but for repeated handlers. -/
inductive Relabels : Node P → Node P → Prop
  | text {i j : NodeId} (s : String) (key : i.isKeyed = true → j = i) :
      Relabels (text i s) (text j s)
  | element {i j : NodeId} {as bs : List (Attribute P)} {cs ds : List (Node P)} (tag : String)
      (key : i.isKeyed = true → j = i)
      (attributes : List.Forall₂ (Attribute.Relabels j) (Attribute.withoutRepeats as) bs)
      (children : List.Forall₂ Relabels cs ds) :
      Relabels (element i tag as cs) (element j tag bs ds)

end Node

/-- An identity as far as a view can choose it. -/
def NodeId.chosen : NodeId → NodeId
  | keyed key => keyed key
  | _ => unassigned

namespace Node

mutual

/-- What a fresh tree says: the numbers of nodes and handlers, and the values of identity
attributes, are left out. -/
def bare : Node P → Node P
  | element i tag as cs => element i.chosen tag (as.map Attribute.bare) (bareForest cs)
  | text i s => text i.chosen s

def bareForest : List (Node P) → List (Node P)
  | [] => []
  | c :: cs => c.bare :: bareForest cs

end

end Node

namespace Alignment

open Node

variable {P : Type}

/-! ### Attributes -/

theorem mem_events_concat {before : List (Attribute P)} {h : Handler P} {e : String} :
    e ∈ Attribute.events (before ++ [.handler h]) ↔ e = h.event ∨ e ∈ Attribute.events before := by
  simp [Attribute.events, Attribute.handler?, or_comm]

/-- Alignment leaves out the handlers whose event occurs before them. The events seen are those of
the attributes that were passed. -/
theorem dropRepeated_eq {seen : List String} (before : List (Attribute P))
    (hseen : ∀ e, e ∈ seen ↔ e ∈ Attribute.events before) (as : List (Attribute P)) :
    (dropRepeated seen as).1 = ((as.zipIdx before.length).filter fun p =>
      !p.1.repeats ((before ++ as).take p.2)).map Prod.fst := by
  induction as generalizing seen before with
  | nil => rfl
  | cons a as ih =>
    have hsplit : before ++ a :: as = (before ++ [a]) ++ as := by simp
    have hlength : before.length + 1 = (before ++ [a]).length := by simp
    have htake : ((before ++ [a]) ++ as).take before.length = before := by simp
    rw [List.zipIdx_cons, List.filter_cons, hsplit, hlength, htake]
    cases a with
    | plain name value =>
      have hnext : ∀ e, e ∈ seen ↔ e ∈ Attribute.events (before ++ [.plain name value]) := by
        simpa [Attribute.events, Attribute.handler?] using hseen
      rw [dropRepeated, ih _ hnext]
      rfl
    | handler h =>
      have hrepeats : Attribute.repeats before (.handler h) = decide (h.event ∈ seen) := by
        simp only [Attribute.repeats, hseen]
      rw [dropRepeated, hrepeats]
      by_cases hin : h.event ∈ seen
      · have hnext : ∀ e, e ∈ seen ↔ e ∈ Attribute.events (before ++ [.handler h]) := by
          intro e
          rw [mem_events_concat, ← hseen e]
          exact ⟨Or.inr, fun h => h.elim (fun h => h ▸ hin) id⟩
        simp only [hin, if_true, decide_true, Bool.not_true, Bool.false_eq_true, if_false,
          ih _ hnext]
      · have hnext : ∀ e, e ∈ h.event :: seen ↔ e ∈ Attribute.events (before ++ [.handler h]) := by
          intro e
          rw [mem_events_concat, ← hseen e, List.mem_cons]
        simp only [hin, if_false, decide_false, Bool.not_false, if_true, List.map_cons, ih _ hnext]

theorem relabels_identify (owner : NodeId) (previous : List (Attribute P)) (supply : IdSupply)
    (as : List (Attribute P)) :
    List.Forall₂ (Attribute.Relabels owner) as (identify owner previous supply as).1 := by
  induction as generalizing supply with
  | nil => exact .nil
  | cons a as ih =>
    cases a with
    | plain name value =>
      rw [identify_plain]
      refine .cons ?_ (ih supply)
      split
      · rename_i h
        subst h
        exact .identity value
      · rename_i h
        exact .plain value h
    | handler h =>
      rw [identify]
      exact .cons (.handler h _) (ih _)

theorem relabels_attributes (owner : NodeId) (previous fresh : List (Attribute P)) (s : State) :
    List.Forall₂ (Attribute.Relabels owner) (Attribute.withoutRepeats fresh)
      (attributes owner previous fresh s).1 := by
  have hkept : (dropRepeated [] fresh).1 = Attribute.withoutRepeats fresh :=
    dropRepeated_eq [] (fun _ => Iff.rfl) fresh
  rw [← hkept]
  exact relabels_identify _ _ _ _

theorem dropRepeated_bare (seen : List String) (as : List (Attribute P)) :
    dropRepeated seen (as.map Attribute.bare)
      = ((dropRepeated seen as).1.map Attribute.bare, (dropRepeated seen as).2) := by
  induction as generalizing seen with
  | nil => rfl
  | cons a as ih =>
    cases a with
    | plain name value => simp only [List.map_cons, Attribute.bare, dropRepeated, ih]
    | handler h =>
      simp only [List.map_cons, Attribute.bare, dropRepeated, ih]
      split <;> rfl

theorem identify_bare (owner : NodeId) (previous : List (Attribute P)) (supply : IdSupply)
    (as : List (Attribute P)) :
    identify owner previous supply (as.map Attribute.bare) = identify owner previous supply as := by
  induction as generalizing supply with
  | nil => rfl
  | cons a as ih =>
    cases a with
    | plain name value =>
      simp only [List.map_cons, Attribute.bare, identify, ih]
      by_cases h : name = Attribute.identityName
      · simp only [h, if_true]
      · simp only [h, if_false]
    | handler h => simp only [List.map_cons, Attribute.bare, identify, ih]

theorem attributes_bare (owner : NodeId) (previous fresh : List (Attribute P)) (s : State) :
    attributes owner previous (fresh.map Attribute.bare) s = attributes owner previous fresh s := by
  simp only [attributes, dropRepeated_bare, identify_bare]

/-! ### What is made of a fresh tree -/

theorem Made.id_eq {f t : Node P} (h : Made f t) (hk : f.id.isKeyed = true) : t.id = f.id := by
  have hid := h.matches.2
  rwa [if_pos hk] at hid

theorem Made.relabels {f t : Node P} (h : Made f t) : f.Relabels t := by
  induction f generalizing t with
  | text i s =>
    have hid := h.id_eq
    obtain ⟨o, r, rfl⟩ := h
    exact .text s hid
  | element i tag as cs ih =>
    have hid := h.id_eq
    obtain ⟨j, before, s, ts, rfl, hts⟩ := h.element
    refine .element tag hid (relabels_attributes j before as s) ?_
    exact (forall₂_mem hts).imp fun c t hct => ih c hct.1 hct.2.2

/-! ### Identities are assigned -/

theorem Siblings.mem_all (siblings : Siblings P) (h : siblings.unkeyed ⊆ siblings.all)
    {cs : List (Node P)} {p : Node P} (hp : some p ∈ siblings.candidates cs) :
    p ∈ siblings.all := by
  induction cs generalizing siblings with
  | nil => exact absurd hp List.not_mem_nil
  | cons c cs ih =>
    rw [candidates, List.mem_cons, candidate] at hp
    split at hp
    · rcases hp with hp | hp
      · exact List.mem_of_find?_eq_some hp.symm
      · exact ih siblings h hp
    · rcases hp with hp | hp
      · exact h (List.mem_of_mem_head? hp.symm)
      · exact ih { siblings with unkeyed := siblings.unkeyed.tail }
          (fun q hq => h (List.mem_of_mem_tail hq)) hp

/-- Candidates are children of the node that was recognised, also if its children share keys. -/
theorem exists_of_mem_candidates {r : Option (Node P)} {cs : List (Node P)} {p : Node P}
    (hp : some p ∈ candidates (r.map Siblings.below) cs) : ∃ q, r = some q ∧ p ∈ q.children := by
  cases r with
  | none =>
    obtain ⟨c, -, hc⟩ := List.mem_map.mp hp
    cases hc
  | some q =>
    have hsub : (Siblings.below q).unkeyed ⊆ (Siblings.below q).all := List.filter_subset_self _
    exact ⟨q, rfl, Siblings.mem_all (Siblings.below q) hsub hp⟩

theorem assigned_idFor (o : Option (Node P)) (s : State) (fresh : Node P)
    (ho : ∀ p ∈ o, p.id.isAssigned = true) :
    (idFor (recognise o fresh) fresh.id s).1.isAssigned = true := by
  rcases idFor_cases o fresh s with ⟨hk, h⟩ | ⟨-, p, hr, h⟩ | ⟨-, -, h⟩
  · rw [h]
    exact NodeId.isAssigned_of_isKeyed hk
  · rw [h]
    exact ho p (recognised_same hr).1
  · rw [h]
    rfl

/-- Every identity of an aligned tree is assigned if those of the tree before it are. -/
theorem assigned_node (o : Option (Node P)) (s : State) (fresh : Node P)
    (ho : ∀ p ∈ o, ∀ x ∈ p.ids, x.isAssigned = true) :
    ∀ x ∈ (node o s fresh).1.ids, x.isAssigned = true := by
  refine node_induct_before (R := fun o _ _ t _ => (∀ p ∈ o, ∀ x ∈ p.ids, x.isAssigned = true) →
    ∀ x ∈ t.ids, x.isAssigned = true) ?_ ?_ o s fresh ho
  · intro o s i u ho x hx
    rw [ids_text, List.mem_singleton] at hx
    rw [hx]
    exact assigned_idFor o s (.text i u) fun p hp => ho p hp p.id p.id_mem_ids
  · rintro o s i tag fresh cs ts s' r own kept hr rfl - - hbelow ho x hx
    rw [ids_element, List.mem_cons] at hx
    rcases hx with rfl | hx
    · rw [← hr]
      exact assigned_idFor o s (.element i tag fresh cs) fun p hp => ho p hp p.id p.id_mem_ids
    · obtain ⟨t, ht, hxt⟩ := List.mem_flatMap.mp hx
      obtain ⟨c, hc, _, _, _, _, -, h⟩ := hbelow t ht
      refine h (fun p hp y hy => ?_) x hxt
      obtain rfl : c = some p := hp
      obtain ⟨q, rfl, hpq⟩ := exists_of_mem_candidates hc
      have hp := mem_subtrees_of_mem_children (self_mem_subtrees q) hpq
      exact ho q (recognised_same hr).1 y (ids_subset_of_mem hp hy)

/-! ### What is asked of a fresh tree -/

theorem isKeyed_chosen (i : NodeId) : i.chosen.isKeyed = i.isKeyed := by
  cases i <;> rfl

theorem chosen_of_isKeyed {i : NodeId} (h : i.isKeyed = true) : i.chosen = i := by
  cases i with
  | keyed key => rfl
  | _ => cases h

theorem id_bare (n : Node P) : n.bare.id = n.id.chosen := by
  cases n <;> rfl

theorem tag?_bare (n : Node P) : n.bare.tag? = n.tag? := by
  cases n <;> rfl

theorem matches_bare_iff {p f : Node P} : Matches p f.bare ↔ Matches p f := by
  unfold Matches SameShape
  rw [tag?_bare, id_bare, isKeyed_chosen]
  by_cases hk : f.id.isKeyed = true
  · rw [chosen_of_isKeyed hk]
  · simp only [hk, if_false, Bool.false_eq_true]

theorem recognise_bare (o : Option (Node P)) (fresh : Node P) :
    recognise o fresh.bare = recognise o fresh := by
  simp only [recognise, matches_bare_iff]

theorem idFor_chosen (r : Option (Node P)) (i : NodeId) (s : State) :
    idFor r i.chosen s = idFor r i s := by
  unfold idFor
  rw [isKeyed_chosen]
  split
  · rename_i hk
    rw [chosen_of_isKeyed hk]
  · rfl

theorem candidate_chosen (siblings : Siblings P) (i : NodeId) :
    siblings.candidate i.chosen = siblings.candidate i := by
  rw [Siblings.candidate, Siblings.candidate, isKeyed_chosen]
  split
  · rename_i hk
    rw [chosen_of_isKeyed hk]
  · rfl

/-- A warning depends on the keys that were seen, and on no other identity. -/
theorem warnRepeatedKey_chosen {seen seen' : List NodeId}
    (h : ∀ x : NodeId, x.isKeyed = true → (x ∈ seen ↔ x ∈ seen')) (i : NodeId) (s : State) :
    warnRepeatedKey seen i.chosen s = warnRepeatedKey seen' i s := by
  rw [warnRepeatedKey, warnRepeatedKey, isKeyed_chosen]
  by_cases hk : i.isKeyed = true
  · rw [chosen_of_isKeyed hk]
    simp only [hk, true_and, h i hk]
  · simp only [hk, Bool.false_eq_true, false_and, if_false]

theorem forest_bare {cs : List (Node P)} (ih : ∀ c ∈ cs, ∀ o s, node o s c.bare = node o s c)
    (siblings : Option (Siblings P)) {seen seen' : List NodeId}
    (hseen : ∀ x : NodeId, x.isKeyed = true → (x ∈ seen ↔ x ∈ seen')) (s : State) :
    forest siblings seen s (bareForest cs) = forest siblings seen' s cs := by
  -- the identities seen differ between the two runs, so they are generalised to any with equal keys
  induction cs generalizing siblings seen seen' s with
  | nil => rfl
  | cons c cs ihcs =>
    have hfirst := ih c List.mem_cons_self
    have hrest := ihcs fun d hd => ih d (List.mem_cons_of_mem _ hd)
    cases siblings with
    | none => simp only [bareForest, forest, hfirst, hrest none hseen]
    | some siblings =>
      have hnext : ∀ x : NodeId, x.isKeyed = true →
          (x ∈ c.id.chosen :: seen ↔ x ∈ c.id :: seen') := by
        intro x hx
        rw [List.mem_cons, List.mem_cons, hseen x hx]
        refine or_congr_left ⟨fun h => ?_, fun h => ?_⟩
        · rw [h, isKeyed_chosen] at hx
          rw [h, chosen_of_isKeyed hx]
        · rw [← h, chosen_of_isKeyed hx]
      simp only [bareForest, forest, id_bare, candidate_chosen, warnRepeatedKey_chosen hseen,
        hfirst, hrest _ hnext]

/-- A fresh tree is aligned by what it says. -/
theorem node_bare (o : Option (Node P)) (s : State) (fresh : Node P) :
    node o s fresh.bare = node o s fresh := by
  induction fresh generalizing o s with
  | text i u =>
    have hr : recognise o (.text i.chosen u) = recognise o (.text i u) :=
      recognise_bare o (.text i u)
    rw [bare, node, node, hr, idFor_chosen]
  | element i tag as cs ih =>
    have hr : recognise o (.element i.chosen tag (as.map Attribute.bare) (bareForest cs))
        = recognise o (.element i tag as cs) := recognise_bare o (.element i tag as cs)
    have hforest := forest_bare ih
    simp only [bare, node, hr, idFor_chosen, attributes_bare,
      hforest _ (fun _ _ => Iff.rfl : ∀ x : NodeId, x.isKeyed = true → (x ∈ [] ↔ x ∈ []))]

/-- Alignment gives a fresh tree identities and changes nothing else, whatever the previous tree and
the fresh one are. Every identity of the result is assigned if those of the previous tree are. Fresh
trees that say the same give the same tree, the same supply after it and the same warnings. -/
theorem changes_identities_only (previous : Option (Node P)) (fresh : Node P) (supply : IdSupply) :
    fresh.Relabels (run previous fresh supply).1
      ∧ ((∀ p ∈ previous, ∀ x ∈ p.ids, x.isAssigned = true) →
        ∀ x ∈ (run previous fresh supply).1.ids, x.isAssigned = true)
      ∧ ∀ other : Node P, other.bare = fresh.bare →
        run previous other supply = run previous fresh supply := by
  refine ⟨Made.relabels ⟨previous, _, rfl⟩, assigned_node previous _ fresh, ?_⟩
  intro other h
  rw [run, run, ← node_bare, h, node_bare]

/-- A tree that no view should give: two siblings with one key, which both take the identities of
the same previous node, and two handlers for one event. Numbers left over from elsewhere do not
matter. -/
theorem changes_identities_only_of_shared_key :
    let previous : Node Nat := .element (.generated 4) "ul" []
      [.element (.keyed "a") "li" [.handler ⟨"click", ⟨3⟩, 5⟩] [], .text (.generated 4) "x"]
    let fresh : Node Nat := .element .unassigned "ul" [.plain "class" "menu"]
      [.element (.keyed "a") "li" [.plain "id" "?", .handler ⟨"click", ⟨0⟩, 6⟩] [],
        .element (.keyed "a") "li" [.handler ⟨"click", ⟨0⟩, 7⟩, .handler ⟨"click", ⟨0⟩, 8⟩] [],
        .text .unassigned "y", .text .unassigned "z"]
    let stale : Node Nat := .element (.generated 9) "ul" [.plain "class" "menu"]
      [.element (.keyed "a") "li" [.plain "id" "?", .handler ⟨"click", ⟨2⟩, 6⟩] [],
        .element (.keyed "a") "li" [.handler ⟨"click", ⟨8⟩, 7⟩, .handler ⟨"click", ⟨8⟩, 8⟩] [],
        .text (.generated 1) "y", .text (.generated 1) "z"]
    let r := run (some previous) fresh { nodes := 6, handlers := 3 }
    (∀ p ∈ some previous, ∀ x ∈ p.ids, x.isAssigned = true) ∧ stale.bare = fresh.bare
      ∧ r.1 = .element (.generated 4) "ul" [.plain "class" "menu"]
        [.element (.keyed "a") "li" [.plain "id" "a", .handler ⟨"click", ⟨3⟩, 6⟩] [],
          .element (.keyed "a") "li" [.handler ⟨"click", ⟨3⟩, 7⟩] [],
          .text (.generated 4) "y", .text (.generated 7) "z"]
      ∧ fresh.Relabels r.1 ∧ (∀ x ∈ r.1.ids, x.isAssigned = true)
      ∧ run (some previous) stale { nodes := 6, handlers := 3 } = r := by
  intro previous fresh stale r
  have hprevious : ∀ p ∈ some previous, ∀ x ∈ p.ids, x.isAssigned = true := by decide
  have hbare : stale.bare = fresh.bare := by decide
  obtain ⟨hrelabels, hassigned, hsame⟩ :=
    changes_identities_only (some previous) fresh { nodes := 6, handlers := 3 }
  exact ⟨hprevious, hbare, by decide, hrelabels, hassigned hprevious, hsame stale hbare⟩

end Alignment

end ViewLoop
