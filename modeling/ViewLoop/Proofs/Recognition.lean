import ViewLoop.Proofs.Aligned
import ViewLoop.Proofs.Staying

/-!
# Recognised nodes

Which previous node each node of a fresh tree is recognised in, said without the steps of alignment:
place by place from the root down, with siblings compared by key, or by their rank among the
unkeyed ones (`Alignment.Recognised`). What is recognised is what stays: the node that alignment
puts in a place is one that a previous node stays as iff the fresh node in that place was recognised
in it (`Alignment.recognised_iff`).
-/

namespace ViewLoop

namespace Node

variable {P : Type}

/-- The node that is reached by going to the children in the given positions. -/
def nodeAt? : Node P → List Nat → Option (Node P)
  | n, [] => some n
  | n, i :: path => n.children[i]?.bind fun c => c.nodeAt? path

theorem nodeAt?_cons {n m : Node P} {i : Nat} {path : List Nat} :
    n.nodeAt? (i :: path) = some m ↔ ∃ c, n.children[i]? = some c ∧ c.nodeAt? path = some m :=
  Option.bind_eq_some_iff

theorem mem_subtrees_of_nodeAt? {n m : Node P} {path : List Nat} (h : n.nodeAt? path = some m) :
    m ∈ n.subtrees := by
  induction path generalizing n with
  | nil =>
    obtain rfl := Option.some.inj h
    exact self_mem_subtrees n
  | cons i path ih =>
    obtain ⟨c, hc, hm⟩ := nodeAt?_cons.mp h
    have hchild := mem_subtrees_of_mem_children (self_mem_subtrees n) (List.mem_of_getElem? hc)
    exact mem_subtrees_trans hchild (ih hm)

end Node

namespace Alignment

open Node

variable {P : Type} {p f c o n : Node P} {i : Nat} {path : List Nat}

/-! ### Partners -/

/-- The previous child that the fresh child `c` in position `i` is compared with: the one of its
key, or the unkeyed one that has as many unkeyed siblings before it. -/
def partner? (previous fresh : List (Node P)) (i : Nat) (c : Node P) : Option (Node P) :=
  if c.id.isKeyed then previous.find? fun p => p.id = c.id
  else (previous.filter fun p => !p.id.isKeyed)[(fresh.take i).countP fun d => !d.id.isKeyed]?

theorem mem_of_partner? {previous fresh : List (Node P)}
    (h : partner? previous fresh i c = some p) : p ∈ previous := by
  unfold partner? at h
  split at h
  · exact List.mem_of_find?_eq_some h
  · exact (List.mem_filter.mp (List.mem_of_getElem? h)).1

theorem Siblings.candidates_getElem? {siblings : Siblings P} {cs : List (Node P)}
    (hc : cs[i]? = some c) : (siblings.candidates cs)[i]?
      = some (if c.id.isKeyed then siblings.all.find? fun p => p.id = c.id
        else siblings.unkeyed[(cs.take i).countP fun d => !d.id.isKeyed]?) := by
  induction cs generalizing siblings i with
  | nil => exact nomatch hc
  | cons d cs ih =>
    rw [candidates]
    cases i with
    | zero =>
      obtain rfl := Option.some.inj hc
      rw [List.getElem?_cons_zero, candidate, List.take_zero, List.countP_nil]
      split
      · rfl
      · rw [List.head?_eq_getElem?]
    | succ i =>
      rw [List.getElem?_cons_succ, ih hc, all_candidate, List.take_succ_cons]
      by_cases hd : d.id.isKeyed = true
      · rw [List.countP_cons_of_neg (by simpa using hd), candidate, if_pos hd]
      · rw [List.countP_cons_of_pos (by simpa using hd), candidate, if_neg hd, List.getElem?_tail]

theorem candidates_getElem? {r : Option (Node P)} {cs : List (Node P)} (hc : cs[i]? = some c) :
    (candidates (r.map Siblings.below) cs)[i]?
      = some (r.bind fun p => partner? p.children cs i c) := by
  cases r with
  | none => exact (List.getElem?_map ..).trans (congrArg (Option.map fun _ => none) hc)
  | some p => exact Siblings.candidates_getElem? hc

/-! ### Children in their places -/

theorem before_node (o : Option (Node P)) (s : State) (fresh : Node P) :
    s.supply.Before (node o s fresh).2.supply := by
  refine node_induct (R := fun _ s _ _ s' => s.Before s') ?_ ?_ o s fresh
  · exact fun o s i u => before_idFor o (.text i u) s
  · rintro o s i tag fresh cs ts s' r own kept rfl rfl rfl hbelow
    have hown := before_idFor o (.element i tag fresh cs) s
    exact (hown.trans (before_attributes _ _ _ _)).trans (hbelow.before fun _ _ _ _ _ h => h)

/-- The second node is what alignment makes of the first one, in some state with the supply. -/
def Aligns (o : Option (Node P)) (s : IdSupply) (c t : Node P) (s' : IdSupply) : Prop :=
  ∃ r : State, r.supply = s ∧ (node o r c).1 = t ∧ (node o r c).2.supply = s'

theorem threaded_aligns (siblings : Option (Siblings P)) (seen : List NodeId) (s : State)
    (cs : List (Node P)) :
    Threaded Aligns (candidates siblings cs) s.supply cs (forest siblings seen s cs).1
      (forest siblings seen s cs).2.supply :=
  threaded_forest (fun _ _ _ s => ⟨s, rfl, rfl, rfl⟩) siblings seen s

theorem Aligns.before {s s' : IdSupply} {t : Node P} {o : Option (Node P)}
    (h : Aligns o s c t s') : s.Before s' := by
  obtain ⟨r, rfl, -, rfl⟩ := h
  exact before_node o r c

theorem Threaded.length_eq {R : Option (Node P) → IdSupply → Node P → Node P → IdSupply → Prop}
    {os : List (Option (Node P))} {s s' : IdSupply} {cs ts : List (Node P)}
    (h : Threaded R os s cs ts s') : ts.length = cs.length := by
  induction h with
  | nil => rfl
  | cons first rest ih => rw [List.length_cons, List.length_cons, ih]

theorem Threaded.exists_of_getElem? {os : List (Option (Node P))} {s s' : IdSupply}
    {cs ts : List (Node P)} (h : Threaded Aligns os s cs ts s') {q : Option (Node P)}
    (hc : cs[i]? = some c) (hq : os[i]? = some q) :
    ∃ r : State, s.Before r.supply ∧ ts[i]? = some (node q r c).1 := by
  induction h generalizing i with
  | nil => exact nomatch hc
  | cons first rest ih =>
    cases i with
    | zero =>
      obtain rfl := Option.some.inj hc
      obtain rfl := Option.some.inj hq
      obtain ⟨r, rfl, rfl, -⟩ := first
      exact ⟨r, .refl _, rfl⟩
    | succ i =>
      obtain ⟨r, hr, ht⟩ := ih hc hq
      exact ⟨r, first.before.trans hr, ht⟩

theorem recognise_of_matches (h : Matches p f) : recognise (some p) f = some p :=
  recognise_eq_some_iff.mpr ⟨rfl, h⟩

/-- Each child is aligned with its partner, if the node was recognised, and with nothing below any
other node. -/
theorem getElem?_children_node (o : Option (Node P)) (s : State) (f : Node P) :
    (node o s f).1.children.length = f.children.length
      ∧ ∀ i c, f.children[i]? = some c → ∃ r : State, s.supply.Before r.supply
        ∧ (node o s f).1.children[i]?
          = some (node ((recognise o f).bind fun p => partner? p.children f.children i c) r c).1 := by
  cases f with
  | text j u => exact ⟨rfl, fun i c hc => nomatch hc⟩
  | element j tag as cs =>
    rw [node]
    have hthread := threaded_aligns ((recognise o (.element j tag as cs)).map Siblings.below) []
      (attributes (idFor (recognise o (.element j tag as cs)) j s).1
        (((recognise o (.element j tag as cs)).map Node.attributes).getD []) as
        (idFor (recognise o (.element j tag as cs)) j s).2).2 cs
    refine ⟨hthread.length_eq, fun i c hc => ?_⟩
    obtain ⟨r, hr, ht⟩ := hthread.exists_of_getElem? hc (candidates_getElem? hc)
    have hown := before_idFor o (.element j tag as cs) s
    exact ⟨r, (hown.trans (before_attributes _ _ _ _)).trans hr, ht⟩

/-- Below a node that was recognised, each child is aligned with its partner. -/
theorem children_node (h : Matches p f) (s : State) :
    (node (some p) s f).1.children.length = f.children.length
      ∧ ∀ i c, f.children[i]? = some c → ∃ r : State, s.supply.Before r.supply
        ∧ (node (some p) s f).1.children[i]?
          = some (node (partner? p.children f.children i c) r c).1 := by
  have hall := getElem?_children_node (some p) s f
  rwa [recognise_of_matches h] at hall

/-! ### Identities in their places -/

theorem id_node (o : Option (Node P)) (s : State) (f : Node P) :
    (node o s f).1.id = (idFor (recognise o f) f.id s).1 := by
  cases f <;> rfl

theorem sameShape_node (o : Option (Node P)) (s : State) (f : Node P) :
    (node o s f).1.SameShape f := by
  cases f <;> rfl

/-- An aligned node has a key if the fresh one has, and then the same. -/
theorem key_node (o : Option (Node P)) (s : State) (f : Node P) :
    (node o s f).1.id.isKeyed = f.id.isKeyed
      ∧ (f.id.isKeyed = true → (node o s f).1.id = f.id) := by
  rw [id_node]
  rcases idFor_cases o f s with ⟨-, h⟩ | ⟨hk, p, hr, h⟩ | ⟨hk, -, h⟩
  · rw [h]
    exact ⟨rfl, fun _ => rfl⟩
  · obtain ⟨-, -, hkey, hid⟩ := recognised_same hr
    rw [h]
    exact ⟨hkey, hid⟩
  · rw [h, hk]
    exact ⟨rfl, nofun⟩

theorem matches_node (o : Option (Node P)) (s : State) (f : Node P) : Matches (node o s f).1 f := by
  obtain ⟨hkey, hid⟩ := key_node o s f
  refine ⟨sameShape_node o s f, ?_⟩
  split
  · rename_i hk
    exact hid hk
  · rename_i hk
    simpa [hkey] using hk

theorem roots_of_matches (h : Matches p f) (s : State) :
    p.id = (node (some p) s f).1.id ∧ p.SameShape (node (some p) s f).1 := by
  have hr := recognise_of_matches h
  refine ⟨?_, h.1.trans (sameShape_node _ s f).symm⟩
  rw [id_node, hr, idFor_of_recognised s hr]

/-- An identity that was not drawn on the way is the key of the fresh node, or that of the node it
was recognised in. -/
theorem key_or_recognised {o : Option (Node P)} {s : State} {x : NodeId}
    (hb : s.supply.Below (.node x)) (hid : x = (node o s f).1.id) :
    (f.id.isKeyed = true ∧ x = f.id)
      ∨ (f.id.isKeyed = false ∧ ∃ q, o = some q ∧ Matches q f ∧ x = q.id) := by
  rw [id_node] at hid
  rcases idFor_cases o f s with ⟨hk, he⟩ | ⟨hk, q, hq, he⟩ | ⟨-, -, he⟩
  · rw [he] at hid
    exact Or.inl ⟨hk, hid⟩
  · rw [he] at hid
    obtain ⟨ho, hm⟩ := recognise_eq_some_iff.mp hq
    exact Or.inr ⟨hk, q, ho, hm, hid⟩
  · rw [he] at hid
    exact absurd (hid ▸ hb) (IdSupply.minted_mintNode s.supply).not_below

/-- A previous node whose identity is in its place, under its shape, was recognised there. -/
theorem matches_of_roots {s : State} (hb : s.supply.Below (.node p.id))
    (hid : p.id = (node (some p) s f).1.id) (hs : p.SameShape (node (some p) s f).1) :
    Matches p f := by
  have hshape := hs.trans (sameShape_node (some p) s f)
  rcases key_or_recognised hb hid with ⟨hk, he⟩ | ⟨-, q, hq, hm, -⟩
  · exact ⟨hshape, by rwa [if_pos hk]⟩
  · exact Option.some.inj hq ▸ hm

/-- The identities of a previous tree: distinct, and not drawn later than the supply. -/
structure Earlier (s : IdSupply) (p : Node P) : Prop where
  nodup : p.ids.Nodup
  below : ∀ x ∈ p.ids, s.Below (.node x)

theorem Earlier.of_mem {s s' : IdSupply} (h : Earlier s p) (ho : o ∈ p.subtrees)
    (hs : s.Before s') : Earlier s' o :=
  ⟨nodup_ids_of_mem h.nodup ho, fun x hx => (h.below x (ids_subset_of_mem ho hx)).mono hs⟩

theorem Earlier.below_id {s : IdSupply} (h : Earlier s p) : s.Below (.node p.id) :=
  h.below _ (mem_ids_iff.mpr ⟨p, p.self_mem_subtrees, rfl⟩)

/-- A child with the identity of a previous child is aligned with it: the previous child is the
partner of the fresh one in that place. -/
theorem partner_of_id_eq {s : State} {d : Node P} (hp : Earlier s.supply p) (h : Matches p f)
    (hd : (node (some p) s f).1.children[i]? = some d) (hc : c ∈ p.children) (hid : c.id = d.id) :
    ∃ g, f.children[i]? = some g ∧ partner? p.children f.children i g = some c
      ∧ ∃ r : State, s.supply.Before r.supply ∧ d = (node (some c) r g).1 := by
  obtain ⟨hlen, hall⟩ := children_node h s
  have hi : i < f.children.length := hlen ▸ (List.getElem?_eq_some_iff.mp hd).1
  have hg := List.getElem?_eq_getElem hi
  obtain ⟨r, hr, ht⟩ := hall i _ hg
  obtain rfl := Option.some.inj (hd.symm.trans ht)
  have hchildren := nodup_children hp.nodup
  have hb : r.supply.Below (.node c.id) :=
    (hp.of_mem (mem_subtrees_of_mem_children p.self_mem_subtrees hc) hr).below_id
  suffices hpartner : partner? p.children f.children i f.children[i] = some c from
    ⟨_, hg, hpartner, r, hr, by rw [hpartner]⟩
  rcases key_or_recognised hb hid with ⟨hk, he⟩ | ⟨-, q, hq, -, he⟩
  · rw [partner?, if_pos hk]
    exact (find?_id_eq_some_iff hchildren).mpr ⟨hc, he⟩
  · rw [hq, List.inj_on_of_nodup_map hchildren hc (mem_of_partner? hq) he]

/-! ### Recognition, place by place -/

/-- The fresh node in a place is recognised in the previous node `o`: the nodes above it are
recognised, and it matches its partner. -/
inductive Recognised : Node P → Node P → List Nat → Node P → Prop
  | root {p f : Node P} (same : Matches p f) : Recognised p f [] p
  | child {p f c q o : Node P} {i : Nat} {path : List Nat} (same : Matches p f)
      (hc : f.children[i]? = some c) (hq : partner? p.children f.children i c = some q)
      (under : Recognised q c path o) : Recognised p f (i :: path) o

theorem Recognised.stays (h : Recognised p f path o) (s : State) :
    ∃ n, (node (some p) s f).1.nodeAt? path = some n ∧ Stays p (node (some p) s f).1 o n := by
  induction h generalizing s with
  | root same =>
    obtain ⟨hid, hs⟩ := roots_of_matches same s
    exact ⟨_, rfl, .root hid hs⟩
  | child same hc hq under ih =>
    obtain ⟨r, -, hd⟩ := (children_node same s).2 _ _ hc
    rw [hq] at hd
    obtain ⟨n, hn, hstays⟩ := ih r
    refine ⟨n, nodeAt?_cons.mpr ⟨_, hd, hn⟩, ?_⟩
    exact .under (roots_of_matches same s) (mem_of_partner? hq) (List.mem_of_getElem? hd) hstays

theorem recognised_of_stays {s : State} (hp : Earlier s.supply p)
    (hnew : (node (some p) s f).1.ids.Nodup) (hn : (node (some p) s f).1.nodeAt? path = some n)
    (h : Stays p (node (some p) s f).1 o n) : Recognised p f path o := by
  -- The place and the couple are both followed from the root; as identities do not repeat, they take
  -- the same child.
  induction path generalizing p f s with
  | nil =>
    obtain rfl := Option.some.inj hn
    rcases h.root_or_below with ⟨rfl, -⟩ | ⟨c, hc, d, hd, hunder⟩
    · exact .root (matches_of_roots hp.below_id h.roots.1 h.roots.2)
    · exact absurd hunder.mem_new (not_mem_child_subtrees hnew hd)
  | cons i path ih =>
    obtain ⟨d, hd, hnd⟩ := nodeAt?_cons.mp hn
    have hdm := List.mem_of_getElem? hd
    have hmem := mem_subtrees_of_nodeAt? hnd
    have hsame := matches_of_roots hp.below_id h.roots.1 h.roots.2
    rcases h.root_or_below with ⟨-, rfl⟩ | ⟨c, hc, e, he, hunder⟩
    · exact absurd hmem (not_mem_child_subtrees hnew hdm)
    · obtain rfl := eq_of_mem_child_ids hnew hdm he (mem_ids_iff.mpr ⟨n, hmem, rfl⟩)
        (mem_ids_iff.mpr ⟨n, hunder.mem_new, rfl⟩)
      obtain ⟨g, hg, hq, r, hr, rfl⟩ := partner_of_id_eq hp hsame hd hc hunder.roots.1
      have hc' := hp.of_mem (mem_subtrees_of_mem_children p.self_mem_subtrees hc) hr
      have hnew' := nodup_ids_of_mem hnew
        (mem_subtrees_of_mem_children (self_mem_subtrees _) hdm)
      exact .child hsame hg hq (ih hc' hnew' hnd hunder)

theorem recognised_iff {s : State} (hp : Earlier s.supply p)
    (hnew : (node (some p) s f).1.ids.Nodup) :
    Recognised p f path o
      ↔ ∃ n, (node (some p) s f).1.nodeAt? path = some n ∧ Stays p (node (some p) s f).1 o n :=
  ⟨fun h => h.stays s, fun ⟨_, hn, h⟩ => recognised_of_stays hp hnew hn h⟩

theorem aligned_of_stays {s : State} (hp : Earlier s.supply p)
    (h : Stays p (node (some p) s f).1 o n) :
    ∃ (g : Node P) (r : State), s.supply.Before r.supply ∧ Matches o g
      ∧ n = (node (some o) r g).1 := by
  -- the supply has only grown by the time a child is aligned, so nothing drawn there is old
  induction h with
  | root id shape => exact ⟨f, s, .refl _, matches_of_roots hp.below_id id shape, rfl⟩
  | child above hc hd id shape ih =>
    obtain ⟨g, r, hr, hsame, rfl⟩ := ih
    obtain ⟨i, hi⟩ := List.mem_iff_getElem?.mp hd
    have ho := hp.of_mem above.mem_old hr
    obtain ⟨g', -, -, r', hr', rfl⟩ := partner_of_id_eq ho hsame hi hc id
    have hc' := ho.of_mem (mem_subtrees_of_mem_children (self_mem_subtrees _) hc) hr'
    exact ⟨g', r', hr.trans hr', matches_of_roots hc'.below_id id shape, rfl⟩

end Alignment

end ViewLoop
