import ViewLoop.Proofs.Staying
import ViewLoop.Proofs.UpdatePass

/-!
# What patches carry

A patch brings nodes in and takes nodes away (`Patch.brings`, `Patch.takes`). Counted with
repetitions, the patches of a difference bring in the nodes of the new tree that do not stay, and
take away those of the old tree that do not (`Difference.brings_patches`,
`Difference.mem_takes_patches_iff`); removals out of replaced trees take away what is replaced
anyway.
-/

namespace ViewLoop

variable {P : Type}

namespace Patch

/-- The identities of the nodes that a patch puts into a tree. -/
def brings (p : Patch P) : List NodeId := (p.entering.map Node.ids).getD []

/-- The identities of the nodes that a patch names as taken out of a tree. -/
def takes : Patch P → List NodeId
  | removeChild _ child => child.ids
  | replaceChild _ old _ => old.ids
  | removeText _ node => [node]
  | _ => []

theorem brings_addition (x : NodeId) (i : Nat) (c : Node P) : (addition x i c).brings = c.ids := by
  unfold addition
  split <;> rfl

theorem takes_addition (x : NodeId) (i : Nat) (c : Node P) : (addition x i c).takes = [] := by
  unfold addition
  split <;> rfl

theorem brings_removal (x : NodeId) (c : Node P) : (removal x c).brings = [] := by
  unfold removal
  split <;> rfl

theorem takes_removal (x : NodeId) (c : Node P) : (removal x c).takes = c.ids := by
  cases c <;> rfl

end Patch

namespace Node

variable {old new : Node P} {x : NodeId}

open scoped Classical in
/-- The identities of the new tree whose nodes were not there before. -/
noncomputable def unkept (old new : Node P) : List NodeId := new.ids.filter fun x => ¬Kept old new x

theorem mem_unkept_iff : x ∈ unkept old new ↔ x ∈ new.ids ∧ ¬Kept old new x := by
  classical
  rw [unkept, List.mem_filter]
  simp

theorem unkept_of_apart (h : ¬(old.id = new.id ∧ old.SameShape new)) :
    unkept old new = new.ids := by
  classical
  exact List.filter_eq_self.mpr fun _ _ => decide_eq_true fun hk => h hk.roots

theorem unkept_texts (i : NodeId) (s u : String) :
    unkept (text i s : Node P) (text i u) = [] := by
  refine List.eq_nil_iff_forall_not_mem.mpr fun x hx => ?_
  obtain ⟨hm, hno⟩ := mem_unkept_iff.mp hx
  obtain rfl := List.mem_singleton.mp hm
  exact hno (kept_root ⟨rfl, rfl⟩)

/-- New below an element that stays are the children without a partner, and what is new below the
others. -/
theorem unkept_inPlace {i : NodeId} {tag : String} {as bs : List (Attribute P)}
    {cs ds : List (Node P)} (ho : (element i tag as cs).ids.Nodup)
    (hn : (element i tag bs ds).ids.Nodup) :
    (unkept (element i tag as cs) (element i tag bs ds)).Perm
      ((Difference.couples cs ds).flatMap (fun q => unkept q.1 q.2)
        ++ (ds.filter fun d => d.id ∉ cs.map id).flatMap ids) := by
  classical
  have hroot : (element i tag as cs).id = (element i tag bs ds).id
      ∧ (element i tag as cs).SameShape (element i tag bs ds) := ⟨rfl, rfl⟩
  have hcs := nodup_children ho
  have hnew : unkept (element i tag as cs) (element i tag bs ds) = ds.flatMap fun d =>
      d.ids.filter fun x => ¬Kept (element i tag as cs) (element i tag bs ds) x := by
    have hk : Kept (element i tag as cs) (element i tag bs ds) i := kept_root hroot
    rw [unkept, ids_element, List.filter_cons_of_neg (by simpa using hk), List.filter_flatMap]
  -- below a child with a partner, what stays below the parents is what stays below the two
  have hcoupled : (ds.filter fun d => d.id ∈ cs.map id).flatMap (fun d =>
      d.ids.filter fun x => ¬Kept (element i tag as cs) (element i tag bs ds) x)
      = (Difference.couples cs ds).flatMap fun q => unkept q.1 q.2 := by
    rw [← Difference.map_snd_couples, List.flatMap_map]
    refine List.flatMap_congr fun q hq => ?_
    obtain ⟨hc, hd, hid⟩ := (Difference.mem_couples_iff hcs).mp hq
    rw [unkept]
    refine List.filter_congr fun x hx => ?_
    rw [kept_iff_of_mem_new hn hd hx hroot]
    simp only [decide_not, Bool.not_eq_eq_eq_not, Bool.not_not, decide_eq_decide]
    constructor
    · rintro ⟨c, hcm, hk⟩
      obtain rfl := List.inj_on_of_nodup_map hcs hcm hc (hk.roots.1.trans hid.symm)
      exact hk
    · exact fun hk => ⟨q.1, hc, hk⟩
  have harrived : (ds.filter fun d => d.id ∉ cs.map id).flatMap (fun d =>
      d.ids.filter fun x => ¬Kept (element i tag as cs) (element i tag bs ds) x)
      = (ds.filter fun d => d.id ∉ cs.map id).flatMap ids := by
    refine List.flatMap_congr fun d hd => List.filter_eq_self.mpr fun x hx => decide_eq_true ?_
    obtain ⟨hd, hno⟩ := List.mem_filter.mp hd
    rw [kept_iff_of_mem_new hn hd hx hroot]
    rintro ⟨c, hc, hk⟩
    exact of_decide_eq_true hno (List.mem_map.mpr ⟨c, hc, hk.roots.1⟩)
  rw [hnew, ← hcoupled, ← harrived, ← List.flatMap_append]
  refine List.Perm.flatMap_right _ ?_
  have hperm := List.filter_append_perm (fun d : Node P => decide (d.id ∈ cs.map id)) ds
  simpa only [decide_not] using hperm.symm

end Node

namespace Changes

def all (c : Changes P) : List (Patch P) := c.removals ++ c.replacements ++ c.updates

theorem all_append_perm (a b : Changes P) : (a ++ b).all.Perm (a.all ++ b.all) := by
  classical
  rw [List.perm_iff_count]
  intro p
  simp only [all, removals_append, replacements_append, updates_append, List.count_append]
  omega

theorem all_join_perm (l : List (Changes P)) : (join l).all.Perm (l.flatMap all) := by
  induction l with
  | nil => exact .refl _
  | cons c l ih =>
    rw [join_cons, List.flatMap_cons]
    exact (all_append_perm c _).trans (ih.append_left _)

end Changes

namespace Difference

variable {old new o n : Node P} {cs ds : List (Node P)}

/-- The children that come in are those of a new identity, each with its position. -/
theorem arrived_eq {seen : List NodeId} (hd : (ds.map Node.id).Nodup)
    (hs : ∀ d ∈ ds, d.id ∉ seen) (index : Nat) :
    arrived cs seen index ds
      = ((ds.zipIdx index).filter fun d => d.1.id ∉ cs.map Node.id).map Prod.swap := by
  induction ds generalizing seen index with
  | nil => rfl
  | cons d ds ih =>
    obtain ⟨hds, hd⟩ := List.nodup_cons.mp hd
    rw [arrived_cons (hs d List.mem_cons_self), List.zipIdx_cons]
    by_cases h : d.id ∈ cs.map Node.id
    · rw [if_pos h, List.filter_cons_of_neg (by simpa using h)]
      refine ih hd (fun e he hm => ?_) _
      rcases List.mem_cons.mp hm with hm | hm
      · exact hds (List.mem_map.mpr ⟨e, he, hm⟩)
      · exact hs e (List.mem_cons_of_mem _ he) hm
    · rw [if_neg h, List.filter_cons_of_pos (by simpa using h), List.map_cons]
      exact congrArg ((index, d) :: ·) (ih hd (fun e he => hs e (List.mem_cons_of_mem _ he)) _)

theorem map_snd_arrived {seen : List NodeId} (hd : (ds.map Node.id).Nodup)
    (hs : ∀ d ∈ ds, d.id ∉ seen) (index : Nat) :
    (arrived cs seen index ds).map Prod.snd = ds.filter fun d => d.id ∉ cs.map Node.id := by
  have hfst := List.filter_map (f := Prod.fst) (p := fun d : Node P => d.id ∉ cs.map Node.id)
    (l := ds.zipIdx index)
  rw [List.zipIdx_map_fst] at hfst
  rw [arrived_eq hd hs, List.map_map, hfst]
  rfl

/-- Who is the old and who the new one of a couple depends on the side only. -/
theorem map_swap_partners (cs ds : List (Node P)) :
    (partners cs ds).map Prod.swap = couples ds cs := by
  rw [partners, couples, List.map_filterMap]
  refine List.filterMap_congr fun c _ => ?_
  rw [Option.map_map]
  rfl

/-- Induction along the nodes that are compared: two texts, two nodes of one identity that do not
match, or two elements of one tag whose children are compared by identity. -/
theorem induct_of_id_eq {motive : Option NodeId → Node P → Node P → Prop}
    (texts : ∀ parent i s u, motive parent (.text i s) (.text i u))
    (apart : ∀ parent o n, ¬o.SameShape n → motive parent o n)
    (inPlace : ∀ parent i tag as bs cs ds,
      (∀ c ∈ cs, ∀ d ∈ ds, c.id = d.id → motive (some i) c d) →
      motive parent (.element i tag as cs) (.element i tag bs ds))
    (parent : Option NodeId) (hid : o.id = n.id) : motive parent o n := by
  induction o generalizing n parent with
  | text i s =>
    cases n with
    | text j u =>
      obtain rfl : i = j := hid
      exact texts parent i s u
    | element j other bs ds => exact apart _ _ _ (by simp [Node.SameShape, Node.tag?])
  | element i tag as cs ih =>
    by_cases hs : (Node.element i tag as cs).SameShape n
    · cases n with
      | text j u => exact absurd hs (by simp [Node.SameShape, Node.tag?])
      | element j other bs ds =>
        obtain rfl : i = j := hid
        obtain rfl : tag = other := Option.some.inj hs
        exact inPlace parent i tag as bs cs ds fun c hc d hd hcd => ih c hc (some i) hcd
    · exact apart _ _ _ hs

/-- The same for trees in which no identity occurs twice. -/
theorem couple_induct {motive : Option NodeId → Node P → Node P → Prop}
    (texts : ∀ parent i s u, motive parent (.text i s) (.text i u))
    (apart : ∀ parent o n, ¬o.SameShape n → motive parent o n)
    (inPlace : ∀ parent i tag as bs cs ds, (Node.element i tag as cs).ids.Nodup →
      (Node.element i tag bs ds).ids.Nodup →
      (∀ c ∈ cs, ∀ d ∈ ds, c.id = d.id → motive (some i) c d) →
      motive parent (.element i tag as cs) (.element i tag bs ds))
    (parent : Option NodeId) (hid : o.id = n.id) (ho : o.ids.Nodup) (hn : n.ids.Nodup) :
    motive parent o n := by
  refine induct_of_id_eq (motive := fun parent o n => o.ids.Nodup → n.ids.Nodup → motive parent o n)
    (fun parent i s u _ _ => texts parent i s u) (fun parent o n hs _ _ => apart parent o n hs) ?_
    parent hid ho hn
  intro parent i tag as bs cs ds ih ho hn
  refine inPlace parent i tag as bs cs ds ho hn fun c hc d hd hcd => ?_
  exact ih c hc d hd hcd (Node.nodup_ids_of_mem ho (Node.mem_subtrees_child i tag as hc))
    (Node.nodup_ids_of_mem hn (Node.mem_subtrees_child i tag bs hd))

/-! ### The patches of an element that stays -/

theorem all_node_inPlace [DecidableEq P] (parent : Option NodeId) (i j : NodeId) (tag : String)
    (as bs : List (Attribute P)) (cs : List (Node P)) {ds : List (Node P)}
    (hd : (ds.map Node.id).Nodup) :
    (node parent (.element i tag as cs) (.element j tag bs ds)).all.Perm
      (siblingRemovals i cs ds ++ attributePatches i as bs
        ++ (couples cs ds).flatMap (fun q => (node (some i) q.1 q.2).all)
        ++ (reordering i cs ds ++ siblingAdditions i cs ds)) := by
  rw [node_inPlace _ _ _ _ _ _ _ hd]
  refine (Changes.all_append_perm _ _).trans (List.Perm.append ?_ (.refl _))
  refine (Changes.all_append_perm _ _).trans (List.Perm.append (.of_eq ?_) ?_)
  · simp [Changes.all]
  · refine (Changes.all_join_perm _).trans (.of_eq ?_)
    rw [List.flatMap_map]

section Carried

variable [DecidableEq P]

omit [DecidableEq P] in
theorem firsts_subset (seen : List AttributeKey) (as : List (Attribute P)) :
    firsts seen as ⊆ as := by
  induction as generalizing seen with
  | nil => exact List.Subset.refl _
  | cons a as ih =>
    rw [firsts]
    split
    · exact List.Subset.trans (ih seen) (List.subset_cons_self a as)
    · exact List.cons_subset_cons a (ih _)

/-- The patches for attributes: of a key that goes, of a new key, and of a key with another
value. -/
theorem attributePatches_cases {x : NodeId} {as bs : List (Attribute P)} {p : Patch P}
    (hp : p ∈ attributePatches x as bs) :
    (∃ a ∈ as, p = .removeAttribute x a)
      ∨ (∃ a ∈ bs, withKey as a.key = none
        ∧ p = .addAttribute x (if a.isIdentity then .identity x else a))
      ∨ ∃ a ∈ bs, ∃ b, withKey as a.key = some b ∧ b ≠ a ∧ p = .updateAttribute x b a := by
  rw [attributePatches, List.mem_append, List.mem_map, List.mem_filterMap] at hp
  rcases hp with ⟨a, ha, rfl⟩ | ⟨a, ha, hp⟩
  · exact Or.inl ⟨a, firsts_subset [] as (List.mem_filter.mp ha).1, rfl⟩
  · have hmem := firsts_subset [] bs ha
    unfold attributePatch at hp
    split at hp
    · rename_i b hb
      split at hp
      · cases hp
      · rename_i hne
        exact Or.inr (Or.inr ⟨a, hmem, b, hb, fun e => hne (Or.inr e), (Option.some.inj hp).symm⟩)
    · rename_i hb
      exact Or.inr (Or.inl ⟨a, hmem, hb, (Option.some.inj hp).symm⟩)

theorem carried_attributePatches {x : NodeId} {as bs : List (Attribute P)} {p : Patch P}
    (hp : p ∈ attributePatches x as bs) : p.brings = [] ∧ p.takes = [] := by
  rcases attributePatches_cases hp with ⟨a, -, rfl⟩ | ⟨a, -, -, rfl⟩ | ⟨a, -, b, -, -, rfl⟩
  all_goals exact ⟨rfl, rfl⟩

omit [DecidableEq P] in
theorem carried_reordering {x : NodeId} {p : Patch P} (hp : p ∈ reordering x cs ds) :
    p.brings = [] ∧ p.takes = [] := by
  unfold reordering at hp
  dsimp only at hp
  split at hp
  · exact absurd hp List.not_mem_nil
  · obtain rfl := List.mem_singleton.mp hp
    exact ⟨rfl, rfl⟩

omit [DecidableEq P] in
theorem brings_siblingRemovals (x : NodeId) :
    (siblingRemovals x cs ds).flatMap Patch.brings = [] := by
  rw [siblingRemovals, List.flatMap_map]
  exact List.flatMap_eq_nil_iff.mpr fun c _ => Patch.brings_removal x c

omit [DecidableEq P] in
theorem takes_siblingRemovals (x : NodeId) (hc : (cs.map Node.id).Nodup) :
    (siblingRemovals x cs ds).flatMap Patch.takes
      = (cs.filter fun c => c.id ∉ ds.map Node.id).flatMap Node.ids := by
  rw [siblingRemovals, departed_eq ds hc fun _ _ => List.not_mem_nil, List.flatMap_map]
  exact List.flatMap_congr fun c _ => Patch.takes_removal x c

omit [DecidableEq P] in
theorem brings_siblingAdditions (x : NodeId) (hd : (ds.map Node.id).Nodup) :
    (siblingAdditions x cs ds).flatMap Patch.brings
      = (ds.filter fun d => d.id ∉ cs.map Node.id).flatMap Node.ids := by
  rw [siblingAdditions, List.flatMap_map, ← map_snd_arrived hd (fun _ _ => List.not_mem_nil) 0,
    List.flatMap_map]
  exact List.flatMap_congr fun c _ => Patch.brings_addition x c.1 c.2

omit [DecidableEq P] in
theorem takes_siblingAdditions (x : NodeId) :
    (siblingAdditions x cs ds).flatMap Patch.takes = [] := by
  rw [siblingAdditions, List.flatMap_map]
  exact List.flatMap_eq_nil_iff.mpr fun c _ => Patch.takes_addition x c.1 c.2

theorem carried_node (parent : Option NodeId) (hid : o.id = n.id) (ho : o.ids.Nodup)
    (hn : n.ids.Nodup) :
    ((node parent o n).all.flatMap Patch.brings).Perm (Node.unkept o n)
      ∧ ((node parent o n).all.flatMap Patch.takes).Perm (Node.unkept n o) := by
  refine couple_induct (motive := fun parent o n =>
    ((node parent o n).all.flatMap Patch.brings).Perm (Node.unkept o n)
      ∧ ((node parent o n).all.flatMap Patch.takes).Perm (Node.unkept n o))
    ?_ ?_ ?_ parent hid ho hn
  · intro parent i s u
    rw [node_texts, Node.unkept_texts, Node.unkept_texts]
    split <;> exact ⟨.refl _, .refl _⟩
  · intro parent o n hs
    rw [node_apart parent hs, Node.unkept_of_apart fun h => hs h.2,
      Node.unkept_of_apart fun h => hs (Eq.symm h.2)]
    exact ⟨.of_eq (List.append_nil _), .of_eq (List.append_nil _)⟩
  · intro parent i tag as bs cs ds ho hn ih
    have hcs : (cs.map Node.id).Nodup := Node.nodup_children ho
    have hds : (ds.map Node.id).Nodup := Node.nodup_children hn
    have hall := all_node_inPlace parent i i tag as bs cs hds
    have hcouples : ∀ q ∈ couples cs ds,
        ((node (some i) q.1 q.2).all.flatMap Patch.brings).Perm (Node.unkept q.1 q.2)
          ∧ ((node (some i) q.1 q.2).all.flatMap Patch.takes).Perm (Node.unkept q.2 q.1) := by
      intro q hq
      obtain ⟨hc, hd, hqid⟩ := (mem_couples_iff hcs).mp hq
      exact ih q.1 hc q.2 hd hqid
    have hstill : ∀ p ∈ attributePatches i as bs, p.brings = [] ∧ p.takes = [] :=
      fun p hp => carried_attributePatches hp
    have horder : ∀ p ∈ reordering i cs ds, p.brings = [] ∧ p.takes = [] :=
      fun p hp => carried_reordering hp
    constructor
    · refine (hall.flatMap_right _).trans (.trans ?_ (Node.unkept_inPlace ho hn).symm)
      simp only [List.flatMap_append, brings_siblingRemovals, brings_siblingAdditions i hds,
        List.flatMap_eq_nil_iff.mpr fun p hp => (hstill p hp).1,
        List.flatMap_eq_nil_iff.mpr fun p hp => (horder p hp).1, List.nil_append,
        List.flatMap_assoc]
      exact (List.Perm.flatMap_left _ fun q hq => (hcouples q hq).1).append_right _
    · refine (hall.flatMap_right _).trans (.trans ?_ (Node.unkept_inPlace hn ho).symm)
      simp only [List.flatMap_append, takes_siblingRemovals i hcs, takes_siblingAdditions,
        List.flatMap_eq_nil_iff.mpr fun p hp => (hstill p hp).2,
        List.flatMap_eq_nil_iff.mpr fun p hp => (horder p hp).2, List.append_nil,
        List.flatMap_assoc]
      refine List.perm_append_comm.trans (List.Perm.append_right _ ?_)
      -- the couples of the other direction are the same ones, in another order
      refine (List.Perm.flatMap_left _ fun q hq => (hcouples q hq).2).trans ?_
      rw [← map_swap_partners cs ds, List.flatMap_map]
      exact ((partners_perm_couples hcs hds).flatMap_right _).symm

/-! ### All patches of a difference -/

theorem carried_changes (ho : old.ids.Nodup) (hn : new.ids.Nodup) :
    ((changes old new).all.flatMap Patch.brings).Perm (Node.unkept old new)
      ∧ ((changes old new).all.flatMap Patch.takes).Perm (Node.unkept new old) := by
  rw [changes]
  split
  · rename_i hid
    exact carried_node none hid ho hn
  · rename_i hid
    rw [Node.unkept_of_apart fun h => hid h.1, Node.unkept_of_apart fun h => hid h.1.symm]
    exact ⟨.of_eq (List.append_nil _), .of_eq (List.append_nil _)⟩

omit [DecidableEq P] in
theorem exists_removal_of_mem_detached {live back : List NodeId} {p : Patch P}
    (h : p ∈ detached live back o) : ∃ m ∈ o.subtrees, ∃ c ∈ m.children,
      p = Patch.removal m.id c ∧ c.id ∈ live ∧ c.id ∉ back := by
  induction o with
  | text i s => exact absurd h List.not_mem_nil
  | element i tag as cs ih =>
    obtain ⟨c, hc, hgoes | hp⟩ := mem_detachedFrom h
    · exact ⟨_, Node.self_mem_subtrees _, c, hc, hgoes⟩
    · obtain ⟨m, hm, hrest⟩ := ih c hc hp
      exact ⟨m, Node.mem_subtrees_trans (Node.mem_subtrees_child i tag as hc) hm, hrest⟩

omit [DecidableEq P] in
/-- What a replacement needs before it: a node that is live afterwards, but not in the tree that
comes in, is removed from the children of its old parent. -/
theorem exists_of_mem_escapes {live : List NodeId} {p q : Patch P} (h : p ∈ escapes live q) :
    ∃ x c d, q = .replaceChild (some x) c d ∧ ∃ m ∈ c.subtrees, ∃ e ∈ m.children,
      p = Patch.removal m.id e ∧ e.id ∈ live ∧ e.id ∉ d.ids := by
  unfold escapes at h
  split at h
  · exact ⟨_, _, _, rfl, exists_removal_of_mem_detached h⟩
  · exact absurd h List.not_mem_nil

omit [DecidableEq P] in
theorem carried_of_mem_escapes {live : List NodeId} {p q : Patch P} (h : p ∈ escapes live q) :
    p.brings = [] ∧ p.takes ⊆ q.takes := by
  obtain ⟨x, c, d, rfl, m, hm, e, he, rfl, -⟩ := exists_of_mem_escapes h
  rw [Patch.brings_removal, Patch.takes_removal]
  exact ⟨rfl, Node.ids_subset_of_mem (Node.mem_subtrees_of_mem_children hm he)⟩

theorem patches_perm (old new : Node P) :
    (patches old new).Perm ((changes old new).all
      ++ (changes old new).replacements.flatMap (escapes new.ids)) := by
  classical
  rw [List.perm_iff_count]
  intro p
  simp only [patches, Changes.all, List.count_append]
  omega

theorem mem_patches_iff {p : Patch P} :
    p ∈ patches old new ↔ p ∈ (changes old new).all
      ∨ ∃ q ∈ (changes old new).replacements, p ∈ escapes new.ids q := by
  rw [(patches_perm old new).mem_iff, List.mem_append, List.mem_flatMap]

/-- The patches bring in what is new, and nothing of it twice. -/
theorem brings_patches (ho : old.ids.Nodup) (hn : new.ids.Nodup) :
    ((patches old new).flatMap Patch.brings).Perm (Node.unkept old new) := by
  have hescapes : ((changes old new).replacements.flatMap (escapes new.ids)).flatMap Patch.brings
      = [] := by
    refine List.flatMap_eq_nil_iff.mpr fun p hp => ?_
    obtain ⟨q, -, hpq⟩ := List.mem_flatMap.mp hp
    exact (carried_of_mem_escapes hpq).1
  refine ((patches_perm old new).flatMap_right _).trans ?_
  rw [List.flatMap_append, hescapes, List.append_nil]
  exact (carried_changes ho hn).1

theorem mem_takes_patches_iff (ho : old.ids.Nodup) (hn : new.ids.Nodup) {x : NodeId} :
    x ∈ (patches old new).flatMap Patch.takes ↔ x ∈ Node.unkept new old := by
  have hchanges := (carried_changes ho hn).2
  rw [((patches_perm old new).flatMap_right _).mem_iff, List.flatMap_append, List.mem_append,
    hchanges.mem_iff, or_iff_left_of_imp]
  -- what is removed out of a replaced tree goes with that tree, too
  intro hx
  obtain ⟨p, hp, hxp⟩ := List.mem_flatMap.mp hx
  obtain ⟨q, hq, hpq⟩ := List.mem_flatMap.mp hp
  refine hchanges.mem_iff.mp (List.mem_flatMap.mpr ⟨q, ?_, (carried_of_mem_escapes hpq).2 hxp⟩)
  exact List.mem_append_left _ (List.mem_append_right _ hq)

end Carried

end Difference

end ViewLoop
