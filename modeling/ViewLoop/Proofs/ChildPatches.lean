import ViewLoop.Proofs.Agreement

/-!
# Patches for the children of a node

What a difference does to the children of one node that stays, told from the two lists of children
alone: which are removed, which are replaced, whether the others are reordered, and which are added
and where (`Difference.filter_parent?_patches`). A removal under any other parent takes a node out
of a replaced tree that is needed elsewhere, and no other patch aims at a node that does not stay
(`Difference.child_patches`).
-/

namespace ViewLoop

variable {P : Type}

namespace Patch

/-- The node among whose children a patch removes, replaces, reorders or adds. -/
def parent? : Patch P → Option NodeId
  | addChild parent _ _ => some parent
  | removeChild parent _ => some parent
  | replaceChild parent _ _ => parent
  | reorderChildren parent _ => some parent
  | addText parent _ _ => some parent
  | removeText parent _ => some parent
  | updateAttribute .. => none
  | addAttribute .. => none
  | removeAttribute .. => none
  | updateText .. => none

@[simp] theorem parent?_removal (i : NodeId) (c : Node P) : (removal i c).parent? = some i := by
  unfold removal
  split <;> rfl

@[simp] theorem parent?_addition (i : NodeId) (index : Nat) (c : Node P) :
    (addition i index c).parent? = some i := by
  unfold addition
  split <;> rfl

theorem filter_parent?_eq {l : List (Patch P)} {i x : NodeId} (h : ∀ p ∈ l, p.parent? = some i) :
    l.filter (fun p => p.parent? = some x) = if i = x then l else [] := by
  split
  · rename_i hix
    exact List.filter_eq_self.mpr fun p hp => by simp [h p hp, hix]
  · rename_i hix
    exact List.filter_eq_nil_iff.mpr fun p hp => by simp [h p hp, hix]

theorem filter_parent?_eq_nil {l : List (Patch P)} {x : NodeId} (h : ∀ p ∈ l, p.parent? = none) :
    l.filter (fun p => p.parent? = some x) = [] :=
  List.filter_eq_nil_iff.mpr fun p hp => by simp [h p hp]

end Patch

namespace Changes

variable {x : NodeId} {a b c : Changes P}

/-- The changes among the children of one node. -/
def under (x : NodeId) (c : Changes P) : Changes P where
  removals := c.removals.filter fun p => p.parent? = some x
  replacements := c.replacements.filter fun p => p.parent? = some x
  updates := c.updates.filter fun p => p.parent? = some x

@[ext] theorem ext (hremovals : a.removals = b.removals)
    (hreplacements : a.replacements = b.replacements) (hupdates : a.updates = b.updates) :
    a = b := by
  cases a
  cases b
  simp_all

@[simp] theorem append_empty (c : Changes P) : c ++ {} = c := by
  ext1 <;> simp

@[simp] theorem empty_append (c : Changes P) : {} ++ c = c := rfl

theorem under_append (x : NodeId) (a b : Changes P) :
    (a ++ b).under x = a.under x ++ b.under x := by
  simp only [under, removals_append, replacements_append, updates_append, List.filter_append]
  rfl

theorem under_join (x : NodeId) (l : List (Changes P)) :
    (join l).under x = join (l.map (under x)) := by
  induction l with
  | nil => rfl
  | cons c l ih => rw [join_cons, under_append, ih, List.map_cons, join_cons]

theorem all_under (x : NodeId) (c : Changes P) :
    (c.under x).all = c.all.filter fun p => p.parent? = some x := by
  simp only [all, under, List.filter_append]

theorem join_map_eq_empty {α : Type} {f : α → Changes P} {l : List α} (h : ∀ q ∈ l, f q = {}) :
    join (l.map f) = {} := by
  induction l with
  | nil => rfl
  | cons q l ih =>
    rw [List.map_cons, join_cons, h q List.mem_cons_self, empty_append]
    exact ih fun r hr => h r (List.mem_cons_of_mem _ hr)

/-- Only one of the parts changes anything. -/
theorem join_map_eq {α : Type} {f : α → Changes P} {l : List α} (hl : l.Nodup) {q : α} (hq : q ∈ l)
    (h : ∀ r ∈ l, r ≠ q → f r = {}) : join (l.map f) = f q := by
  induction l with
  | nil => exact absurd hq List.not_mem_nil
  | cons r l ih =>
    obtain ⟨hr, hl⟩ := List.nodup_cons.mp hl
    rw [List.map_cons, join_cons]
    rcases List.mem_cons.mp hq with rfl | hq
    · have hrest : ∀ e ∈ l, f e = {} := fun e he =>
        h e (List.mem_cons_of_mem _ he) (ne_of_mem_of_not_mem he hr)
      rw [join_map_eq_empty hrest, append_empty]
    · rw [h r List.mem_cons_self fun e => hr (e ▸ hq), empty_append]
      exact ih hl hq fun e he => h e (List.mem_cons_of_mem _ he)

end Changes

namespace Difference

open Node (Stays)

variable {cs ds : List (Node P)} {i x : NodeId} {old new o n : Node P} {parent : Option NodeId}
  {p : Patch P}

/-! ### Two lists of children -/

theorem siblingRemovals_eq (i : NodeId) (hc : (cs.map Node.id).Nodup) (ds : List (Node P)) :
    siblingRemovals i cs ds
      = (cs.filter fun c => c.id ∉ ds.map Node.id).map (Patch.removal i) := by
  rw [siblingRemovals, departed_eq ds hc fun _ _ => List.not_mem_nil]

theorem siblingAdditions_eq (i : NodeId) (cs : List (Node P)) (hd : (ds.map Node.id).Nodup) :
    siblingAdditions i cs ds
      = (ds.zipIdx.filter fun d => d.1.id ∉ cs.map Node.id).map
        fun d => Patch.addition i d.2 d.1 := by
  rw [siblingAdditions, arrived_eq hd fun _ _ => List.not_mem_nil, List.map_map]
  rfl

theorem kept_eq_filter (cs : List (Node P)) (hd : (ds.map Node.id).Nodup) :
    kept cs [] ds = (ds.map Node.id).filter (· ∈ cs.map Node.id) := by
  rw [kept_eq hd fun _ _ => List.not_mem_nil, map_snd_couples, List.filter_map]
  rfl

/-- The children that stay ascend iff they stand in the order they had. -/
theorem ascending_kept_iff (hc : (cs.map Node.id).Nodup) (hd : (ds.map Node.id).Nodup) :
    ascending ((kept cs [] ds).map (position cs)) = true
      ↔ (cs.map Node.id).filter (· ∈ ds.map Node.id)
        = (ds.map Node.id).filter (· ∈ cs.map Node.id) := by
  constructor
  · intro h
    have hnew : kept cs [] ds = (couples cs ds).map fun q => q.2.id := by
      rw [kept_eq hd fun _ _ => List.not_mem_nil, List.map_map]
      rfl
    have hold : (cs.map Node.id).filter (· ∈ ds.map Node.id)
        = (partners cs ds).map fun q => q.1.id := by
      rw [List.filter_map, ← Function.comp_def, ← List.map_map, map_fst_partners]
      rfl
    rw [← kept_eq_filter cs hd, hnew, hold, ← couples_eq_partners hc hd h]
    exact List.map_congr_left fun q hq => ((mem_couples_iff hc).mp hq).2.2
  · intro h
    rw [ascending_iff, kept_eq_filter cs hd, ← h, List.pairwise_map]
    exact (pairwise_position hc).sublist List.filter_sublist

theorem reordering_eq (i : NodeId) (hc : (cs.map Node.id).Nodup) (hd : (ds.map Node.id).Nodup) :
    reordering i cs ds
      = if (cs.map Node.id).filter (· ∈ ds.map Node.id)
          = (ds.map Node.id).filter (· ∈ cs.map Node.id) then []
        else [.reorderChildren i ((ds.map Node.id).filter (· ∈ cs.map Node.id))] := by
  rw [← kept_eq_filter cs hd, reordering]
  refine if_congr ?_ rfl rfl
  rw [ascending_kept_iff hc hd, kept_eq_filter cs hd]

/-! ### Parents of patches -/

theorem parent?_siblingRemovals : ∀ p ∈ siblingRemovals i cs ds, p.parent? = some i := by
  intro p hp
  obtain ⟨c, -, rfl⟩ := List.mem_map.mp hp
  exact Patch.parent?_removal i c

theorem parent?_order : ∀ p ∈ reordering i cs ds ++ siblingAdditions i cs ds,
    p.parent? = some i := by
  intro p hp
  rcases List.mem_append.mp hp with hp | hp
  · unfold reordering at hp
    dsimp only at hp
    split at hp
    · exact absurd hp List.not_mem_nil
    · rw [List.mem_singleton.mp hp]
      rfl
  · obtain ⟨c, -, rfl⟩ := List.mem_map.mp hp
    exact Patch.parent?_addition i c.1 c.2

section Parents

variable [DecidableEq P]

theorem parent?_attributePatches {as bs : List (Attribute P)} :
    ∀ p ∈ attributePatches i as bs, p.parent? = none := by
  intro p hp
  rcases attributePatches_cases hp with ⟨a, -, rfl⟩ | ⟨a, -, -, rfl⟩ | ⟨a, -, b, -, -, rfl⟩
  all_goals rfl

/-- The changes among the children of a node, where an element that stays is or is not that
node. -/
theorem under_node_inPlace (parent : Option NodeId) (i x : NodeId) (tag : String)
    (as bs : List (Attribute P)) (cs : List (Node P)) (hd : (ds.map Node.id).Nodup) :
    (node parent (.element i tag as cs) (.element i tag bs ds)).under x
      = (if i = x then { removals := siblingRemovals i cs ds } else {})
        ++ Changes.join ((couples cs ds).map fun q => (node (some i) q.1 q.2).under x)
        ++ (if i = x then { updates := reordering i cs ds ++ siblingAdditions i cs ds }
          else {}) := by
  rw [node_inPlace parent i i tag as bs cs hd, Changes.under_append, Changes.under_append,
    Changes.under_join, List.map_map]
  have hown : Changes.under x
      { removals := siblingRemovals i cs ds, updates := attributePatches i as bs }
      = if i = x then { removals := siblingRemovals i cs ds } else {} := by
    rw [Changes.under, Patch.filter_parent?_eq parent?_siblingRemovals,
      Patch.filter_parent?_eq_nil parent?_attributePatches]
    split <;> rfl
  have horder : Changes.under x
      { updates := reordering i cs ds ++ siblingAdditions i cs ds }
      = if i = x then { updates := reordering i cs ds ++ siblingAdditions i cs ds } else {} := by
    rw [Changes.under, Patch.filter_parent?_eq parent?_order]
    split <;> rfl
  rw [hown, horder]
  rfl

/-- Nodes that stay change nothing among the children of a node that is not among them. -/
theorem under_node_eq_empty (hid : o.id = n.id) (ho : o.ids.Nodup) (hn : n.ids.Nodup)
    (hx : x ∉ o.ids) (h : o.SameShape n ∨ parent ≠ some x) : (node parent o n).under x = {} := by
  refine couple_induct (motive := fun parent o n => x ∉ o.ids → o.SameShape n ∨ parent ≠ some x →
    (node parent o n).under x = {}) ?_ ?_ ?_ parent hid ho hn hx h
  · intro parent i s u _ _
    rw [node_texts]
    split <;> rfl
  · intro parent o n hs _ h
    have hparent := h.resolve_left hs
    rw [node_apart parent hs]
    simp [Changes.under, Changes.replacement, Patch.parent?, hparent]
  · intro parent i tag as bs cs ds ho hn ih hx _
    rw [Node.ids_element] at hx
    have hix : i ≠ x := fun e => hx (e ▸ List.mem_cons_self)
    have hds : (ds.map Node.id).Nodup := Node.nodup_children hn
    rw [under_node_inPlace parent i x tag as bs cs hds, if_neg hix, if_neg hix]
    rw [Changes.append_empty, Changes.empty_append]
    refine Changes.join_map_eq_empty fun q hq => ?_
    obtain ⟨hc, hd, hqid⟩ := (mem_couples_iff (Node.nodup_children ho)).mp hq
    refine ih q.1 hc q.2 hd hqid (fun hm => hx ?_) (Or.inr fun e => hix (Option.some.inj e))
    exact List.mem_cons_of_mem _ (List.mem_flatMap.mpr ⟨q.1, hc, hm⟩)

/-! ### The children of a node that stays -/

/-- The patches for the children whose identity stays and whose shape does not. -/
def siblingReplacements (i : NodeId) (cs ds : List (Node P)) : List (Patch P) :=
  ((couples cs ds).filter fun q => ¬q.1.SameShape q.2).map
    fun q => .replaceChild (some i) q.1 q.2

/-- The changes among the children of a node that stays. -/
def childChanges (o n : Node P) : Changes P where
  removals := siblingRemovals o.id o.children n.children
  replacements := siblingReplacements o.id o.children n.children
  updates := reordering o.id o.children n.children ++ siblingAdditions o.id o.children n.children

omit [DecidableEq P] in
theorem join_replacements (i : NodeId) (cs ds : List (Node P)) :
    Changes.join ((couples cs ds).map fun q =>
        if q.1.SameShape q.2 then {} else Changes.replacement (some i) q.1 q.2)
      = { replacements := siblingReplacements i cs ds } := by
  unfold siblingReplacements
  induction couples cs ds with
  | nil => rfl
  | cons q l ih =>
    rw [List.map_cons, Changes.join_cons, ih]
    by_cases hs : q.1.SameShape q.2
    · rw [if_pos hs, List.filter_cons_of_neg (by simpa using hs), Changes.empty_append]
    · rw [if_neg hs, List.filter_cons_of_pos (by simpa using hs)]
      rfl

/-- Of the children that stay, those of another shape are replaced; all else happens further
down. -/
theorem under_couples {tag : String} {as bs : List (Attribute P)}
    (ho : (Node.element i tag as cs).ids.Nodup) (hn : (Node.element i tag bs ds).ids.Nodup) :
    Changes.join ((couples cs ds).map fun q => (node (some i) q.1 q.2).under i)
      = { replacements := siblingReplacements i cs ds } := by
  rw [← join_replacements]
  refine congrArg Changes.join (List.map_congr_left fun q hq => ?_)
  obtain ⟨hc, hd, hqid⟩ := (mem_couples_iff (Node.nodup_children ho)).mp hq
  split
  · rename_i hs
    exact under_node_eq_empty hqid
      (Node.nodup_ids_of_mem ho (Node.mem_subtrees_child i tag as hc))
      (Node.nodup_ids_of_mem hn (Node.mem_subtrees_child i tag bs hd))
      (Node.id_not_mem_of_child ho hc) (Or.inl hs)
  · rename_i hs
    rw [node_apart _ hs]
    simp [Changes.under, Changes.replacement, Patch.parent?]

theorem under_node (ho : old.ids.Nodup) (hn : new.ids.Nodup) (h : Stays old new o n) :
    (node parent old new).under o.id = childChanges o n := by
  -- a node that stays is one of the two roots, or it stays below exactly one couple of children
  refine couple_induct (motive := fun parent old new => Stays old new o n →
    (node parent old new).under o.id = childChanges o n) ?_ ?_ ?_ parent h.roots.1 ho hn h
  · intro parent i s u h
    rcases h.root_or_below with ⟨rfl, rfl⟩ | ⟨c, hc, -⟩
    · rw [node_texts]
      split <;> rfl
    · exact absurd hc List.not_mem_nil
  · exact fun parent old new hs h => absurd h.roots.2 hs
  · intro parent i tag as bs cs ds ho hn ih h
    have hcs : (cs.map Node.id).Nodup := Node.nodup_children ho
    have hds : (ds.map Node.id).Nodup := Node.nodup_children hn
    rw [under_node_inPlace parent i o.id tag as bs cs hds]
    rcases h.root_or_below with ⟨rfl, rfl⟩ | ⟨c, hc, d, hd, hunder⟩
    · have hroot : (Node.element i tag as cs).id = i := rfl
      rw [hroot, if_pos rfl, if_pos rfl, under_couples ho hn]
      ext1 <;> simp [childChanges, Node.id, Node.children]
    · have hmem : o.id ∈ c.ids := Node.mem_ids_iff.mpr ⟨o, hunder.mem_old, rfl⟩
      have hne : i ≠ o.id := fun e => Node.id_not_mem_of_child ho hc (e ▸ hmem)
      rw [if_neg hne, if_neg hne, Changes.append_empty, Changes.empty_append]
      have hq : (c, d) ∈ couples cs ds := (mem_couples_iff hcs).mpr ⟨hc, hd, hunder.roots.1⟩
      refine (Changes.join_map_eq (nodup_couples hds) hq fun r hr hrq => ?_).trans
        (ih c hc d hd hunder.roots.1 hunder)
      obtain ⟨hrc, hrd, hrid⟩ := (mem_couples_iff hcs).mp hr
      refine under_node_eq_empty hrid
        (Node.nodup_ids_of_mem ho (Node.mem_subtrees_child i tag as hrc))
        (Node.nodup_ids_of_mem hn (Node.mem_subtrees_child i tag bs hrd)) (fun hm => hrq ?_)
        (Or.inr fun e => hne (Option.some.inj e))
      have hrc' : r.1 = c := Node.eq_of_mem_child_ids ho hc hrc hmem hm
      have hrd' : r.2 = d :=
        List.inj_on_of_nodup_map hds hrd hd (hrid.symm.trans (hrc' ▸ hunder.roots.1))
      exact Prod.ext hrc' hrd'

/-! ### All patches of a difference -/

/-- A removal out of a replaced tree does not happen among the children of a node that stays. -/
theorem parent?_ne_of_mem_escapes (ho : old.ids.Nodup) (hn : new.ids.Nodup)
    (h : Stays old new o n) {q : Patch P} (hq : q ∈ (changes old new).replacements)
    (hp : p ∈ escapes new.ids q) : p.parent? ≠ some o.id := by
  obtain ⟨x, c, d, rfl, m, hm, e, -, rfl, -⟩ := exists_of_mem_escapes hp
  intro hid
  rw [Patch.parent?_removal] at hid
  -- the parent would be part of the replaced tree, but what is taken away does not stay
  have htaken : o.id ∈ (Patch.replaceChild (some x) c d).takes :=
    Node.mem_ids_iff.mpr ⟨m, hm, Option.some.inj hid⟩
  have hall : .replaceChild (some x) c d ∈ (changes old new).all :=
    List.mem_append_left _ (List.mem_append_right _ hq)
  have hunkept := (carried_changes ho hn).2.mem_iff.mp (List.mem_flatMap.mpr ⟨_, hall, htaken⟩)
  exact (Node.mem_unkept_iff.mp hunkept).2 (Node.kept_comm.mp ⟨o, n, h, rfl⟩)

theorem filter_parent?_patches (ho : old.ids.Nodup) (hn : new.ids.Nodup)
    (h : Stays old new o n) :
    (patches old new).filter (fun p => p.parent? = some o.id) = (childChanges o n).all := by
  have hchanges : changes old new = node none old new := if_pos h.roots.1
  have hescapes : ((changes old new).replacements.flatMap (escapes new.ids)).filter
      (fun p => p.parent? = some o.id) = [] := by
    refine List.filter_eq_nil_iff.mpr fun p hp => ?_
    obtain ⟨q, hq, hpq⟩ := List.mem_flatMap.mp hp
    simpa using parent?_ne_of_mem_escapes ho hn h hq hpq
  have hunder : (changes old new).under o.id = childChanges o n := hchanges ▸ under_node ho hn h
  rw [← hunder, Changes.all_under]
  simp only [patches, Changes.all, List.filter_append, hescapes, List.append_nil]

omit [DecidableEq P] in
theorem all_childChanges (hc : (o.children.map Node.id).Nodup)
    (hd : (n.children.map Node.id).Nodup) :
    (childChanges o n).all
      = (o.children.filter fun c => c.id ∉ n.children.map Node.id).map (.removal o.id)
        ++ siblingReplacements o.id o.children n.children
        ++ ((if (o.children.map Node.id).filter (· ∈ n.children.map Node.id)
              = (n.children.map Node.id).filter (· ∈ o.children.map Node.id) then []
            else [.reorderChildren o.id
              ((n.children.map Node.id).filter (· ∈ o.children.map Node.id))])
          ++ (n.children.zipIdx.filter fun d => d.1.id ∉ o.children.map Node.id).map
            fun d => .addition o.id d.2 d.1) := by
  simp only [Changes.all, childChanges, siblingRemovals_eq _ hc, reordering_eq _ hc hd,
    siblingAdditions_eq _ _ hd]

theorem target_of_mem_ownPatches (hp : p ∈ ownPatches o n) :
    p.target = some o.id ∧ (p.isRemoval = true → p.parent? = some o.id) := by
  rcases ownPatches_cases hp with ⟨c, rfl⟩ | hp | ⟨order, rfl⟩ | ⟨i, c, -, rfl⟩ | ⟨s, rfl⟩
  · exact ⟨Patch.target_removal _ c, fun _ => Patch.parent?_removal _ c⟩
  · rcases attributePatches_cases hp with ⟨a, -, rfl⟩ | ⟨a, -, -, rfl⟩ | ⟨a, -, b, -, -, rfl⟩
    all_goals exact ⟨rfl, nofun⟩
  · exact ⟨rfl, nofun⟩
  · exact ⟨target_addition _ i c, by simp⟩
  · exact ⟨rfl, nofun⟩

/-- A removal is one of a child of a node that stays, or it takes a node out of a tree that is
replaced: a node that is live afterwards, but not in the tree that comes in. -/
theorem removal_cases (ho : old.ids.Nodup) (hn : new.ids.Nodup) (hp : p ∈ patches old new)
    (hr : p.isRemoval = true) :
    (∃ o n, Stays old new o n ∧ p.parent? = some o.id)
      ∨ ∃ x c d, .replaceChild (some x) c d ∈ patches old new ∧ ∃ m ∈ c.subtrees,
        ∃ e ∈ m.children, p = .removal m.id e ∧ e.id ∈ new.ids ∧ e.id ∉ d.ids := by
  rcases mem_patches_iff.mp hp with hp | ⟨q, hq, hp⟩
  · cases (mem_changes_iff ho hn).mp hp with
    | apart h => exact nomatch hr
    | own stays hown => exact Or.inl ⟨_, _, stays, (target_of_mem_ownPatches hown).2 hr⟩
    | replaced stays hc hd id shape => exact nomatch hr
  · obtain ⟨x, c, d, rfl, hrest⟩ := exists_of_mem_escapes hp
    have hall : .replaceChild (some x) c d ∈ (changes old new).all :=
      List.mem_append_left _ (List.mem_append_right _ hq)
    exact Or.inr ⟨x, c, d, mem_patches_iff.mpr (Or.inl hall), hrest⟩

/-- What is not a removal aims at a node that stays, or puts one root in the place of the other. -/
theorem target_cases (ho : old.ids.Nodup) (hn : new.ids.Nodup) (hp : p ∈ patches old new) :
    p.isRemoval = true ∨ p = .replaceChild none old new
      ∨ ∃ o n, Stays old new o n ∧ p.target = some o.id := by
  rcases arises_of_mem_patches ho hn hp with h | ⟨i, c, rfl⟩
  · cases h with
    | apart h => exact Or.inr (Or.inl rfl)
    | own stays hown => exact Or.inr (Or.inr ⟨_, _, stays, (target_of_mem_ownPatches hown).1⟩)
    | replaced stays hc hd id shape => exact Or.inr (Or.inr ⟨_, _, stays, rfl⟩)
  · exact Or.inl (Patch.isRemoval_removal i c)

/-- The patches among the children of each node that stays, which are the nodes that no patch brings
in: the children of old identities that are not new go, in old order; those whose shape changed are
replaced; if the others stand in another order than before, they are put in the new one; and the
children of new identities come, in ascending order, each at its new position. A removal anywhere
else is one out of a replaced tree, of a node that is live afterwards and does not come back with
the replacement. All other patches below the root aim at nodes that stay. -/
theorem child_patches (ho : old.ids.Nodup) (hn : new.ids.Nodup) :
    (∀ n ∈ new.subtrees, (∃ o, Stays old new o n) ↔ ∀ p ∈ patches old new, n.id ∉ p.brings)
    ∧ (∀ o n, Stays old new o n →
        (patches old new).filter (fun p => p.parent? = some o.id)
          = (o.children.filter fun c => c.id ∉ n.children.map Node.id).map (.removal o.id)
            ++ ((couples o.children n.children).filter fun q => ¬q.1.SameShape q.2).map
              (fun q => .replaceChild (some o.id) q.1 q.2)
            ++ ((if (o.children.map Node.id).filter (· ∈ n.children.map Node.id)
                  = (n.children.map Node.id).filter (· ∈ o.children.map Node.id) then []
                else [.reorderChildren o.id
                  ((n.children.map Node.id).filter (· ∈ o.children.map Node.id))])
              ++ (n.children.zipIdx.filter fun d => d.1.id ∉ o.children.map Node.id).map
                fun d => .addition o.id d.2 d.1))
    ∧ (∀ p ∈ patches old new, p.isRemoval = true →
        (∃ o n, Stays old new o n ∧ p.parent? = some o.id)
          ∨ ∃ x c d, .replaceChild (some x) c d ∈ patches old new ∧ ∃ m ∈ c.subtrees,
            ∃ e ∈ m.children, p = .removal m.id e ∧ e.id ∈ new.ids ∧ e.id ∉ d.ids)
    ∧ ∀ p ∈ patches old new, p.isRemoval = true ∨ p = .replaceChild none old new
        ∨ ∃ o n, Stays old new o n ∧ p.target = some o.id := by
  refine ⟨fun n hmem => exists_stays_iff ho hn hmem, fun o n h => ?_,
    fun p hp hr => removal_cases ho hn hp hr, fun p hp => target_cases ho hn hp⟩
  have hc := Node.nodup_children (Node.nodup_ids_of_mem ho h.mem_old)
  have hd := Node.nodup_children (Node.nodup_ids_of_mem hn h.mem_new)
  rw [filter_parent?_patches ho hn h, all_childChanges hc hd]
  rfl

/-- A list loses an item and gets another one; the two that stay change places, and one of them
becomes a paragraph. Its text moves out of it into the item that comes. -/
theorem child_patches_of_moving_text :
    let one : Node Nat := .element (.keyed "one") "li" [] [.text (.generated 1) "x"]
    let gone : Node Nat := .element (.keyed "gone") "li" [] []
    let come : Node Nat := .element (.keyed "come") "li" [] [.text (.generated 1) "x"]
    let paragraph : Node Nat := .element (.keyed "one") "p" [] []
    let before : Node Nat := .element (.keyed "list") "ul" []
      [gone, one, .element (.keyed "two") "li" [] [.text (.generated 2) "y"]]
    let after : Node Nat := .element (.keyed "list") "ul" []
      [.element (.keyed "two") "li" [] [.text (.generated 2) "z"], come, paragraph]
    let old : Node Nat := .element (.keyed "page") "main" [] [before]
    let new : Node Nat := .element (.keyed "page") "main" [] [after]
    let escape : Patch Nat := .removeText (.keyed "one") (.generated 1)
    let edit : Patch Nat := .updateText (.generated 2) "z"
    (old.ids.Nodup ∧ new.ids.Nodup)
      ∧ (Stays old new before after ∧ (∀ p ∈ patches old new, .keyed "list" ∉ p.brings)
        ∧ (patches old new).filter (fun p => p.parent? = some (.keyed "list"))
          = [.removeChild (.keyed "list") gone,
            .replaceChild (some (.keyed "list")) one paragraph,
            .reorderChildren (.keyed "list") [.keyed "two", .keyed "one"],
            .addChild (.keyed "list") 1 come])
      ∧ (escape ∈ patches old new ∧ escape.isRemoval = true
        ∧ ∃ x c d, .replaceChild (some x) c d ∈ patches old new ∧ ∃ m ∈ c.subtrees,
          ∃ e ∈ m.children, escape = .removal m.id e ∧ e.id ∈ new.ids ∧ e.id ∉ d.ids)
      ∧ edit ∈ patches old new ∧ ∃ o n, Stays old new o n ∧ edit.target = some o.id := by
  intro one gone come paragraph before after old new escape edit
  have ho : old.ids.Nodup := by decide
  have hn : new.ids.Nodup := by decide
  have hstays : Stays old new before after :=
    (Stays.root rfl rfl : Stays old new old new).child List.mem_cons_self List.mem_cons_self rfl rfl
  have hescape : escape ∈ patches old new := by decide
  have hedit : edit ∈ patches old new := by decide
  have hreplaced : .replaceChild (some (.keyed "list")) one paragraph ∈ patches old new := by decide
  obtain ⟨hbrought, hbelow, hremoved, haimed⟩ := child_patches ho hn
  refine ⟨⟨ho, hn⟩, ⟨hstays, (hbrought _ hstays.mem_new).mp ⟨_, hstays⟩,
    (hbelow _ _ hstays).trans (by decide)⟩, ⟨hescape, rfl, ?_⟩, hedit, ?_⟩
  · refine (hremoved _ hescape rfl).resolve_left ?_
    rintro ⟨o, n, h, hid⟩
    refine (hbrought n h.mem_new).mp ⟨o, h⟩ _ hreplaced ?_
    rw [← h.id_eq, ← Option.some.inj hid]
    exact List.mem_cons_self
  · exact ((haimed _ hedit).resolve_left (by decide)).resolve_left (by decide)

end Parents

end Difference

end ViewLoop
