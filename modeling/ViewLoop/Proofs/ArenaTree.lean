import ViewLoop.Proofs.Records

/-!
# Trees in an arena

What the operations of an arena do to the records it holds, when no identity has two of them: a
look-up finds the record of a node, a tree below a node is read back from its records, insertion
adds the records of a tree, and removal takes away those of a tree and the link to it.
-/

namespace ViewLoop

/-- Attributes without payloads have none to forget. -/
theorem Attribute.map_erased (as : List (Attribute Unit)) : as.map erased = as := by
  refine (List.map_congr_left fun a _ => ?_).trans (List.map_id as)
  cases a <;> rfl

namespace Arena

variable {P : Type} {a : Arena}

/-! ### Looking up -/

/-- No identity has two records. -/
def Distinct (a : Arena) : Prop := (a.nodes.map Prod.fst).Nodup

theorem distinct_of_perm {l : List (NodeId × NodeRecord)} (h : a.nodes.Perm l)
    (hl : (l.map Prod.fst).Nodup) : a.Distinct :=
  (List.Perm.nodup_iff (h.map Prod.fst)).mpr hl

theorem lookup_of_mem {l : List (NodeId × NodeRecord)} (hl : (l.map Prod.fst).Nodup)
    {x : NodeId} {r : NodeRecord} (h : (x, r) ∈ l) : l.lookup x = some r := by
  induction l with
  | nil => exact absurd h List.not_mem_nil
  | cons p l ih =>
    obtain ⟨y, s⟩ := p
    rw [List.map_cons, List.nodup_cons] at hl
    rcases List.mem_cons.mp h with h | h
    · obtain ⟨rfl, rfl⟩ := Prod.mk.inj h
      exact List.lookup_cons_self
    · have hxy : x ≠ y := fun e => hl.1 (List.mem_map.mpr ⟨(x, r), h, e⟩)
      have hne : (x == y) = false := beq_eq_false_iff_ne.mpr hxy
      rw [List.lookup_cons, hne]
      exact ih hl.2 h

theorem mem_of_lookup {l : List (NodeId × NodeRecord)} {x : NodeId} {r : NodeRecord}
    (h : l.lookup x = some r) : (x, r) ∈ l := by
  induction l with
  | nil => exact absurd h (by simp)
  | cons p l ih =>
    obtain ⟨y, s⟩ := p
    rw [List.lookup_cons] at h
    by_cases hxy : x = y
    · subst hxy
      simp only [beq_self_eq_true, Option.some.injEq] at h
      exact h ▸ List.mem_cons_self
    · have hne : (x == y) = false := by simpa using hxy
      rw [hne] at h
      exact List.mem_cons_of_mem _ (ih h)

theorem get?_of_mem (ha : a.Distinct) {x : NodeId} {r : NodeRecord} (h : (x, r) ∈ a.nodes) :
    a.get? x = some r := lookup_of_mem ha h

theorem mem_of_get? {x : NodeId} {r : NodeRecord} (h : a.get? x = some r) : (x, r) ∈ a.nodes :=
  mem_of_lookup h

theorem get?_eq_none_iff {x : NodeId} : a.get? x = none ↔ x ∉ a.nodes.map Prod.fst := by
  rw [get?, List.lookup_eq_none_iff]
  constructor
  · rintro h hx
    obtain ⟨p, hp, rfl⟩ := List.mem_map.mp hx
    have := h p hp
    simp at this
  · intro h p hp
    have hx : x ≠ p.1 := fun e => h (e ▸ List.mem_map_of_mem hp)
    simpa using hx

theorem contains_iff {x : NodeId} : a.contains x = true ↔ x ∈ a.nodes.map Prod.fst := by
  rw [contains, Option.isSome_iff_ne_none, ne_eq, get?_eq_none_iff, not_not]

theorem get?_of_mem_subtrees {Q : Type} {t n : Node Q} {q : Option NodeId} (ha : a.Distinct)
    (ht : t.entries q ⊆ a.nodes) (hn : n ∈ t.subtrees) :
    ∃ q', a.get? n.id = some (n.record q') := by
  obtain ⟨q', hq⟩ := Node.entries_subset_of_mem (q := q) hn
  refine ⟨q', get?_of_mem ha (ht (hq ?_))⟩
  rw [Node.entries_eq]
  exact List.mem_cons_self

/-! ### Reading a tree back -/

theorem mapM_eq_some {α β : Type} {f : α → Option β} {g : β → α} {l : List β}
    (h : ∀ b ∈ l, f (g b) = some b) : (l.map g).mapM f = some l := by
  induction l with
  | nil => rfl
  | cons b l ih =>
    rw [List.map_cons, List.mapM_cons, h b List.mem_cons_self,
      ih fun c hc => h c (List.mem_cons_of_mem _ hc)]
    rfl

theorem treeWithin_eq (ha : a.Distinct) {t : Node Unit} {q : Option NodeId}
    (ht : t.entries q ⊆ a.nodes) {depth : Nat} (hd : t.size ≤ depth) :
    a.treeWithin depth t.id = some t := by
  induction t generalizing q depth with
  | element i tag as cs ih =>
    obtain ⟨q', hget⟩ := get?_of_mem_subtrees ha ht (Node.self_mem_subtrees _)
    cases depth with
    | zero => exact absurd hd (by simp [Node.size])
    | succ depth =>
      have hcs : (cs.map Node.id).mapM (a.treeWithin depth) = some cs := by
        refine mapM_eq_some fun c hc => ih c hc (q := some i) ?_ ?_
        · intro e he
          refine ht ?_
          rw [Node.entries_element]
          exact List.mem_cons_of_mem _ (List.mem_flatMap.mpr ⟨c, hc, he⟩)
        · exact Nat.lt_succ_iff.mp
            (Nat.lt_of_lt_of_le (Node.size_lt_of_mem i tag as hc) hd)
      rw [treeWithin, hget]
      simp only [Node.record, Node.content, Node.children, Node.id, hcs, Attribute.map_erased,
        Option.map_some]
  | text i s =>
    obtain ⟨q', hget⟩ := get?_of_mem_subtrees ha ht (Node.self_mem_subtrees _)
    cases depth with
    | zero => exact absurd hd (by simp [Node.size])
    | succ depth =>
      rw [treeWithin, hget]
      rfl

theorem idsWithin_eq (ha : a.Distinct) {n : Node P} {q : Option NodeId}
    (hn : n.entries q ⊆ a.nodes) {depth : Nat} (hd : n.size ≤ depth) :
    a.idsWithin depth n.id = n.ids := by
  induction n generalizing q depth with
  | element i tag as cs ih =>
    obtain ⟨q', hget⟩ := get?_of_mem_subtrees ha hn (Node.self_mem_subtrees _)
    cases depth with
    | zero => exact absurd hd (by simp [Node.size])
    | succ depth =>
      rw [idsWithin, hget, Node.ids_element]
      simp only [Node.record, Node.children, List.flatMap_map]
      refine congrArg (i :: ·) (List.flatMap_congr fun c hc => ih c hc (q := some i) ?_ ?_)
      · intro e he
        refine hn ?_
        rw [Node.entries_element]
        exact List.mem_cons_of_mem _ (List.mem_flatMap.mpr ⟨c, hc, he⟩)
      · exact Nat.lt_succ_iff.mp
          (Nat.lt_of_lt_of_le (Node.size_lt_of_mem i tag as hc) hd)
  | text i s =>
    obtain ⟨q', hget⟩ := get?_of_mem_subtrees ha hn (Node.self_mem_subtrees _)
    cases depth with
    | zero => exact absurd hd (by simp [Node.size])
    | succ depth =>
      rw [idsWithin, hget]
      rfl

theorem size_le_of_entries_subset {n : Node P} {q : Option NodeId}
    (hn : n.entries q ⊆ a.nodes) (hi : n.ids.Nodup) : n.size ≤ a.size := by
  have hs : n.ids ⊆ a.nodes.map Prod.fst := by
    rw [← Node.keys_entries q]
    exact List.map_subset _ hn
  have := (List.subperm_of_subset hi hs).length_le
  rwa [List.length_map, ← Node.size_eq_length_ids] at this

theorem tree?_eq (ha : a.Distinct) {t : Node Unit} {q : Option NodeId}
    (ht : t.entries q ⊆ a.nodes) (hi : t.ids.Nodup) : a.tree? t.id = some t :=
  treeWithin_eq ha ht (size_le_of_entries_subset ht hi)

theorem subtreeIds_eq (ha : a.Distinct) {n : Node P} {q : Option NodeId}
    (hn : n.entries q ⊆ a.nodes) (hi : n.ids.Nodup) : a.subtreeIds n.id = n.ids :=
  idsWithin_eq ha hn (Nat.le_succ_of_le (size_le_of_entries_subset hn hi))

/-! ### Changing records -/

theorem keys_modify (x : NodeId) (f : NodeRecord → NodeRecord) :
    (a.modify x f).nodes.map Prod.fst = a.nodes.map Prod.fst := by
  rw [modify, List.map_map]
  refine List.map_congr_left fun p _ => ?_
  simp only [Function.comp_apply]
  split <;> rfl

theorem modify_perm {x : NodeId} {r : NodeRecord} {rest : List (NodeId × NodeRecord)}
    (h : a.nodes.Perm ((x, r) :: rest)) (ha : a.Distinct) (f : NodeRecord → NodeRecord) :
    (a.modify x f).nodes.Perm ((x, f r) :: rest) := by
  have hx : x ∉ rest.map Prod.fst := by
    have hk := (List.Perm.nodup_iff (h.map Prod.fst)).mp ha
    exact (List.nodup_cons.mp hk).1
  have hrest : (rest.map fun p => if p.1 = x then (p.1, f p.2) else p) = rest := by
    refine (List.map_congr_left fun p hp => ?_).trans (List.map_id rest)
    exact if_neg fun e => hx (List.mem_map.mpr ⟨p, hp, e⟩)
  have hm := h.map fun p : NodeId × NodeRecord => if p.1 = x then (p.1, f p.2) else p
  rw [List.map_cons, if_pos rfl, hrest] at hm
  exact hm

theorem insert_nodes {x : NodeId} (hx : x ∉ a.nodes.map Prod.fst) (r : NodeRecord) :
    (a.insert x r).nodes = (x, r) :: a.nodes := by
  refine congrArg ((x, r) :: ·) (List.filter_eq_self.mpr fun p hp => ?_)
  have hpx : p.1 ≠ x := fun e => hx (List.mem_map.mpr ⟨p, hp, e⟩)
  simpa using hpx

/-! ### Inserting a tree -/

theorem insertForest_perm {i : NodeId} {cs : List (Node P)}
    (ih : ∀ c ∈ cs, ∀ a : Arena, c.ids.Nodup → (∀ x ∈ c.ids, x ∉ a.nodes.map Prod.fst) →
      (a.insertTree (some i) c).nodes.Perm (c.entries (some i) ++ a.nodes))
    (hn : (cs.flatMap Node.ids).Nodup) (hd : ∀ x ∈ cs.flatMap Node.ids, x ∉ a.nodes.map Prod.fst) :
    (a.insertForest i cs).nodes.Perm (cs.flatMap (Node.entries (some i)) ++ a.nodes) := by
  induction cs generalizing a with
  | nil => exact .refl _
  | cons c cs ihcs =>
    rw [List.flatMap_cons] at hn hd
    obtain ⟨hc, hcs, hdis⟩ := List.nodup_append.mp hn
    have h1 := ih c List.mem_cons_self a hc fun x hx => hd x (List.mem_append_left _ hx)
    have h2 : ∀ x ∈ cs.flatMap Node.ids, x ∉ (a.insertTree (some i) c).nodes.map Prod.fst := by
      intro x hx hxa
      rw [(h1.map Prod.fst).mem_iff, List.map_append, Node.keys_entries, List.mem_append] at hxa
      rcases hxa with hxa | hxa
      · exact hdis x hxa x hx rfl
      · exact hd x (List.mem_append_right _ hx) hxa
    have h3 := ihcs (fun d hm => ih d (List.mem_cons_of_mem _ hm)) hcs h2
    rw [insertForest, List.flatMap_cons, List.append_assoc]
    exact h3.trans ((h1.append_left _).trans (List.perm_append_comm_assoc _ _ _))

theorem insertTree_perm {q : Option NodeId} {n : Node P} (hn : n.ids.Nodup)
    (hd : ∀ x ∈ n.ids, x ∉ a.nodes.map Prod.fst) :
    (a.insertTree q n).nodes.Perm (n.entries q ++ a.nodes) := by
  induction n generalizing a q with
  | element i tag as cs ih =>
    rw [Node.ids_element] at hn hd
    obtain ⟨hi, hcs⟩ := List.nodup_cons.mp hn
    have hfree : i ∉ a.nodes.map Prod.fst := hd i List.mem_cons_self
    rw [insertTree, Node.entries_element]
    have hnodes := insert_nodes hfree ⟨.element tag (as.map Attribute.erased), q, cs.map Node.id⟩
    have hrest : ∀ x ∈ cs.flatMap Node.ids, x ∉ (a.insert i
        ⟨.element tag (as.map Attribute.erased), q, cs.map Node.id⟩).nodes.map Prod.fst := by
      intro x hx hxa
      rw [hnodes, List.map_cons, List.mem_cons] at hxa
      rcases hxa with rfl | hxa
      · exact hi hx
      · exact hd x (List.mem_cons_of_mem _ hx) hxa
    have hf := insertForest_perm (i := i) (fun c hc _ => ih c hc) hcs hrest
    rw [hnodes] at hf
    exact hf.trans List.perm_middle
  | text i s =>
    rw [insertTree, insert_nodes (hd i (by simp))]
    exact .refl _

/-! ### What may be inserted -/

theorem checkOrder_perm (n : Node P) : (checkOrder n).Perm n.ids := by
  induction n with
  | element i tag as cs ih =>
    have hf : ∀ ds : List (Node P), (∀ d ∈ ds, (checkOrder d).Perm d.ids) →
        (checkOrder.forestCheckOrder ds).Perm (ds.flatMap Node.ids) := by
      intro ds hds
      induction ds with
      | nil => exact .refl _
      | cons d ds ihds =>
        rw [checkOrder.forestCheckOrder, List.flatMap_cons]
        have hd := hds d List.mem_cons_self
        have hrest := ihds fun e he => hds e (List.mem_cons_of_mem _ he)
        exact (hrest.append hd).trans List.perm_append_comm
    rw [checkOrder, Node.ids_element]
    exact (hf cs ih).cons i
  | text i s => exact .refl _

theorem checkFree_eq_ok_iff {free : NodeId → Bool} {seen l : List NodeId} :
    checkFree free seen l = .ok ()
      ↔ (∀ x ∈ l, x.isAssigned = true ∧ x ∉ seen ∧ free x = true) ∧ l.Nodup := by
  induction l generalizing seen with
  | nil => simp [checkFree]
  | cons x l ih =>
    rw [checkFree]
    split
    · rename_i h
      simp only [Bool.not_eq_eq_eq_not, Bool.not_true] at h
      simp [h]
    · rename_i h
      split
      · rename_i hd
        constructor
        · simp
        · rintro ⟨hx, -⟩
          have := hx x List.mem_cons_self
          rcases hd with hd | hd <;> simp_all
      · rename_i hd
        have hx : x.isAssigned = true ∧ x ∉ seen ∧ free x = true := by
          simpa using And.intro h hd
        rw [ih, List.nodup_cons]
        constructor
        · rintro ⟨hl, hn⟩
          refine ⟨List.forall_mem_cons.mpr ⟨hx, fun y hy => ?_⟩, ?_, hn⟩
          · obtain ⟨h1, h2, h3⟩ := hl y hy
            exact ⟨h1, fun hs => h2 (List.mem_cons_of_mem _ hs), h3⟩
          · exact fun hx => (hl x hx).2.1 List.mem_cons_self
        · rintro ⟨hl, hxl, hn⟩
          refine ⟨fun y hy => ?_, hn⟩
          obtain ⟨h1, h2, h3⟩ := hl y (List.mem_cons_of_mem _ hy)
          refine ⟨h1, fun hs => ?_, h3⟩
          rcases List.mem_cons.mp hs with rfl | hs
          · exact hxl hy
          · exact h2 hs

/-- A tree may be inserted if its identities are assigned, distinct, and live at most where they
are about to go. -/
theorem checkInsertable_eq_ok_iff {freed : List NodeId} {n : Node P} :
    a.checkInsertable freed n = .ok ()
      ↔ (∀ x ∈ n.ids, x.isAssigned = true) ∧ n.ids.Nodup
        ∧ ∀ x ∈ n.ids, x ∈ a.nodes.map Prod.fst → x ∈ freed := by
  rw [checkInsertable, checkFree_eq_ok_iff, (checkOrder_perm n).nodup_iff]
  have hfree : ∀ x, (!a.contains x || freed.contains x) = true
      ↔ (x ∈ a.nodes.map Prod.fst → x ∈ freed) := by
    intro x
    rw [← contains_iff]
    cases a.contains x <;> simp
  constructor
  · rintro ⟨h, hn⟩
    have hx := fun x hx => h x ((checkOrder_perm n).mem_iff.mpr hx)
    exact ⟨fun x hm => (hx x hm).1, hn, fun x hm => (hfree x).mp (hx x hm).2.2⟩
  · rintro ⟨h1, hn, h2⟩
    refine ⟨fun x hx => ?_, hn⟩
    have hm := (checkOrder_perm n).mem_iff.mp hx
    exact ⟨h1 x hm, List.not_mem_nil, (hfree x).mpr (h2 x hm)⟩

/-! ### Removing a tree -/

theorem filter_gone {l rest : List (NodeId × NodeRecord)} {n : Node P} {q : Option NodeId}
    (h : l.Perm (n.entries q ++ rest)) (hl : (l.map Prod.fst).Nodup) :
    (l.filter fun p => p.1 ∉ n.ids).Perm rest := by
  have hk := (List.Perm.nodup_iff (h.map Prod.fst)).mp hl
  rw [List.map_append, Node.keys_entries] at hk
  have hd := List.disjoint_of_nodup_append hk
  have hgone : (n.entries q).filter (fun p => p.1 ∉ n.ids) = [] := by
    refine List.filter_eq_nil_iff.mpr fun p hp => ?_
    have : p.1 ∈ n.ids := by
      rw [← Node.keys_entries q n]
      exact List.mem_map_of_mem hp
    simpa using this
  have hstay : rest.filter (fun p => p.1 ∉ n.ids) = rest := by
    refine List.filter_eq_self.mpr fun p hp => ?_
    have : p.1 ∉ n.ids := fun hx => hd hx (List.mem_map_of_mem hp)
    simpa using this
  have hf := h.filter fun p => p.1 ∉ n.ids
  rwa [List.filter_append, hgone, hstay, List.nil_append] at hf

theorem entries_subset_of_perm {rest : List (NodeId × NodeRecord)} {n : Node P}
    {q : Option NodeId} (h : a.nodes.Perm (n.entries q ++ rest)) : n.entries q ⊆ a.nodes :=
  fun _ he => h.mem_iff.mpr (List.mem_append_left _ he)

theorem nodup_of_perm {rest : List (NodeId × NodeRecord)} {n : Node P} {q : Option NodeId}
    (ha : a.Distinct) (h : a.nodes.Perm (n.entries q ++ rest)) : n.ids.Nodup := by
  have hk := (List.Perm.nodup_iff (h.map Prod.fst)).mp ha
  rw [List.map_append, Node.keys_entries] at hk
  exact hk.of_append_left

theorem get?_of_perm {rest : List (NodeId × NodeRecord)} {n : Node P} {q : Option NodeId}
    (ha : a.Distinct) (h : a.nodes.Perm (n.entries q ++ rest)) :
    a.get? n.id = some (n.record q) := by
  refine get?_of_mem ha (entries_subset_of_perm h ?_)
  rw [Node.entries_eq]
  exact List.mem_cons_self

theorem removeTree_root {rest : List (NodeId × NodeRecord)} {n : Node P} (ha : a.Distinct)
    (h : a.nodes.Perm (n.entries none ++ rest)) (hn : n.id.isAssigned = true) :
    ∃ b : Arena, a.removeTree n.id = .ok b ∧ b.nodes.Perm rest := by
  have hget := get?_of_perm ha h
  have hunlink : a.unlink n.id = a := by
    simp [unlink, hget, Node.record]
  refine ⟨{ nodes := a.nodes.filter fun p => p.1 ∉ n.ids }, ?_, filter_gone h ha⟩
  rw [removeTree, record_eq_ok_iff.mpr ⟨hn, hget⟩, hunlink,
    subtreeIds_eq ha (entries_subset_of_perm h) (nodup_of_perm ha h)]

theorem removeTree_child {rest : List (NodeId × NodeRecord)} {n : Node P} {i : NodeId}
    {r : NodeRecord} (ha : a.Distinct) (h : a.nodes.Perm (n.entries (some i) ++ (i, r) :: rest))
    (hn : n.id.isAssigned = true) :
    ∃ b : Arena, a.removeTree n.id = .ok b
      ∧ b.nodes.Perm ((i, { r with children := r.children.filter (· ≠ n.id) }) :: rest) := by
  have hget := get?_of_perm ha h
  let f : NodeRecord → NodeRecord := fun r => { r with children := r.children.filter (· ≠ n.id) }
  have hunlink : a.unlink n.id = a.modify i f := by
    simp only [unlink, hget, Node.record, Option.bind_some]
    rfl
  have hmod : (a.modify i f).nodes.Perm (n.entries (some i) ++ (i, f r) :: rest) :=
    (modify_perm (h.trans List.perm_middle) ha f).trans List.perm_middle.symm
  have hdis : ((a.modify i f).nodes.map Prod.fst).Nodup := by
    rw [keys_modify]
    exact ha
  refine ⟨{ nodes := (a.modify i f).nodes.filter fun p => p.1 ∉ n.ids }, ?_,
    filter_gone hmod hdis⟩
  rw [removeTree, record_eq_ok_iff.mpr ⟨hn, hget⟩, hunlink,
    subtreeIds_eq ha (entries_subset_of_perm h) (nodup_of_perm ha h)]

end Arena

end ViewLoop
