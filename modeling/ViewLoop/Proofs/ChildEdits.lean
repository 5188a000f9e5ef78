import ViewLoop.Proofs.RecordEdits

/-!
# Children that come and go on a surface

The operations that put a tree under an element, take one away, or put one in the place of
another. Each decides by a condition on the tree that is shown, and shows the edited tree.
-/

namespace ViewLoop.Surface

variable {P : Type} {s : Surface} {t n : Node Unit}

/-! ### Inserting -/

theorem children_insertTree {a : Arena} {q : Option NodeId} {child : Node P}
    (hperm : (a.insertTree q child).nodes.Perm (child.entries q ++ a.nodes))
    (hdis : ((a.insertTree q child).nodes.map Prod.fst).Nodup) {x : NodeId} {l : List NodeId}
    (h : a.children x = .ok l) : (a.insertTree q child).children x = .ok l := by
  have hrec : ∀ r, a.record x = .ok r → (a.insertTree q child).record x = .ok r := by
    intro r hr
    obtain ⟨hx, hget⟩ := Arena.record_eq_ok_iff.mp hr
    refine Arena.record_eq_ok_iff.mpr ⟨hx, Arena.get?_of_mem hdis ?_⟩
    exact hperm.mem_iff.mpr (List.mem_append_right _ (Arena.mem_of_get? hget))
  rw [Arena.children] at h ⊢
  cases hr : a.record x with
  | error e => rw [hr] at h; exact absurd h (by simp)
  | ok r =>
    rw [hrec r hr]
    rwa [hr] at h

theorem keys_insertTree {a : Arena} {q : Option NodeId} {child : Node P} (ha : a.Distinct)
    (hperm : (a.insertTree q child).nodes.Perm (child.entries q ++ a.nodes))
    (hn : child.ids.Nodup) (hd : ∀ x ∈ child.ids, x ∉ a.nodes.map Prod.fst) :
    ((a.insertTree q child).nodes.map Prod.fst).Nodup := by
  refine (hperm.map Prod.fst).nodup_iff.mpr ?_
  rw [List.map_append, Node.keys_entries]
  refine List.nodup_append.mpr ⟨hn, ha, fun x hx y hy hxy => ?_⟩
  exact hd x hx (hxy ▸ hy)

theorem entries_erased (q : Option NodeId) (n : Node P) : n.erased.entries q = n.entries q :=
  Node.entries_map _ q n

/-- A tree that was inserted below an element is shown once the element knows of it. -/
theorem Shows.insertTree (hs : s.Shows t) (hn : n ∈ t.subtrees) (ht : n.isText = false)
    {index : Nat} (hi : index ≤ n.children.length) {child : Node P}
    (hassigned : ∀ x ∈ child.ids, x.isAssigned = true) (hnodup : child.ids.Nodup)
    (hfree : ∀ x ∈ child.ids, x ∉ t.ids) :
    (s.arena.insertTree (some n.id) child).children n.id = .ok (n.children.map Node.id)
      ∧ Shows { s with
          arena := (s.arena.insertTree (some n.id) child).setChildren n.id
            ((n.children.map Node.id).insertIdx index child.id) }
        (t.modify n.id (Node.withChildren (·.insertIdx index child.erased))) := by
  have hch := hs.children_eq hn ht
  have hkeys : ∀ x ∈ child.ids, x ∉ s.arena.nodes.map Prod.fst := fun x hx hxa =>
    hfree x hx (hs.mem_keys_iff.mp hxa)
  have hins := Arena.insertTree_perm (q := some n.id) hnodup hkeys
  have hdis := keys_insertTree hs.distinct hins hnodup hkeys
  have hch' := children_insertTree hins hdis hch
  refine ⟨hch', ?_⟩
  obtain ⟨C, rfl, hmod⟩ := Node.exists_context hn hs.nodup
  have hids := (C.ids_plug n).nodup_iff.mp hs.nodup
  rw [hmod]
  cases n with
  | text i u => exact absurd ht (by simp [Node.isText])
  | element i tag as cs =>
    -- Records do not stand in tree order, so that the place of the child matters only for the list of
    -- children that its parent has.
    have hperm : (cs.insertIdx index child.erased).Perm (child.erased :: cs) :=
      List.perm_insertIdx _ _ hi
    have hkids : (cs.insertIdx index child.erased).map Node.id
        = (cs.map Node.id).insertIdx index child.id := by
      rw [List.map_insertIdx, Node.erased, Node.id_map]
    have hrec : (Node.element i tag as (cs.insertIdx index child.erased)).record (C.parent none)
        = { (Node.element i tag as cs).record (C.parent none) with
            children := (cs.map Node.id).insertIdx index child.id } := by
      rw [← hkids]
      rfl
    have hflat := hperm.flatMap_right (Node.entries (some i))
    rw [List.flatMap_cons, entries_erased] at hflat
    have hidsNew : (Node.element i tag as (cs.insertIdx index child.erased)).ids.Perm
        (child.ids ++ (Node.element i tag as cs).ids) := by
      have h := hperm.flatMap_right Node.ids
      rw [List.flatMap_cons, Node.erased, Node.ids_map] at h
      rw [Node.ids_element, Node.ids_element]
      exact (h.cons i).trans List.perm_middle.symm
    refine hs.plug (m := .element i tag as (cs.insertIdx index child.erased)) rfl ?_
      (hidsNew.nodup_iff.mpr ?_) (fun x hx => ?_) fun x hx hxC => ?_
    · rw [Node.entries_eq, hrec, List.cons_append]
      have hrest := hins.trans ((hs.nodes_element.append_left _).trans List.perm_middle)
      refine (Arena.modify_perm hrest hdis _).trans (List.Perm.cons _ ?_)
      rw [← List.append_assoc]
      exact hflat.symm.append_right _
    · refine List.nodup_append.mpr ⟨hnodup, hids.of_append_left, fun x hx y hy hxy => ?_⟩
      exact hfree x hx ((C.ids_plug _).mem_iff.mpr (List.mem_append_left _ (hxy ▸ hy)))
    · rcases List.mem_append.mp (hidsNew.mem_iff.mp hx) with hx | hx
      · exact hassigned x hx
      · exact hs.assigned x ((C.ids_plug _).mem_iff.mpr (List.mem_append_left _ hx))
    · rcases List.mem_append.mp (hidsNew.mem_iff.mp hx) with hx | hx
      · exact hfree x hx ((C.ids_plug _).mem_iff.mpr (List.mem_append_right _ hxC))
      · exact List.disjoint_of_nodup_append hids hx hxC

theorem Shows.insertChild (hs : s.Shows t) (hn : n ∈ t.subtrees) (ht : n.isText = false)
    {index : Nat} (hi : index ≤ n.children.length) {child : Node P}
    (hassigned : ∀ x ∈ child.ids, x.isAssigned = true) (hnodup : child.ids.Nodup)
    (hfree : ∀ x ∈ child.ids, x ∉ t.ids) :
    s.Accepts (insertChild n.id index child)
      (t.modify n.id (Node.withChildren (·.insertIdx index child.erased))) := by
  obtain ⟨hch', hshows⟩ := hs.insertTree hn ht hi hassigned hnodup hfree
  have hcheck : s.arena.checkInsertable [] child = .ok () := by
    refine Arena.checkInsertable_eq_ok_iff.mpr ⟨hassigned, hnodup, fun x hx hxa => ?_⟩
    exact absurd (hs.mem_keys_iff.mp hxa) (hfree x hx)
  have hlen : ¬(n.children.map Node.id).length < index := by simpa using hi
  refine .of_arena ?_ hshows
  rw [Surface.insertChild, run_get_bind, hs.children_eq hn ht, run_require_ok_bind, if_neg hlen]
  simp only [run_get_bind, hcheck, run_require_ok_bind, run_modifyArena_bind, hch', run_modifyArena]

theorem exists_error_of_ne_ok {r : Except SurfaceError Unit} (h : r ≠ .ok ()) :
    ∃ e, r = .error e := by
  cases r with
  | ok u => exact absurd rfl h
  | error e => exact ⟨e, rfl⟩

theorem insertChild_decides (hs : s.Shows t) (x : NodeId) (index : Nat) (child : Node P) :
    s.Decides (insertChild x index child)
      ((∃ n ∈ t.subtrees, n.id = x ∧ n.isText = false ∧ index ≤ n.children.length)
        ∧ (∀ y ∈ child.ids, y.isAssigned = true) ∧ child.ids.Nodup ∧ ∀ y ∈ child.ids, y ∉ t.ids)
      (t.modify x (Node.withChildren (·.insertIdx index child.erased))) := by
  by_cases hx : x ∈ t.ids
  · obtain ⟨n, hn, rfl⟩ := Node.mem_ids_iff.mp hx
    rw [hs.exists_iff hn]
    cases ht : n.isText with
    | true =>
      refine .of_refuses (by simp) ⟨.invalidParent n.id, ?_⟩
      rw [insertChild, run_get_bind, hs.children_of_text hn ht, run_require_error_bind]
    | false =>
      have hch := hs.children_eq hn ht
      have hlen : (n.children.map Node.id).length = n.children.length := List.length_map _
      by_cases hi : index ≤ n.children.length
      · by_cases hc : s.arena.checkInsertable [] child = .ok ()
        · obtain ⟨h1, h2, h3⟩ := Arena.checkInsertable_eq_ok_iff.mp hc
          have hfree : ∀ y ∈ child.ids, y ∉ t.ids := fun y hy hyt =>
            absurd (h3 y hy (hs.mem_keys_iff.mpr hyt)) List.not_mem_nil
          exact .of_accepts ⟨⟨rfl, hi⟩, h1, h2, hfree⟩ (hs.insertChild hn ht hi h1 h2 hfree)
        · obtain ⟨e, he⟩ := exists_error_of_ne_ok hc
          refine .of_refuses ?_ ⟨e, ?_⟩
          · rintro ⟨-, h1, h2, h3⟩
            refine hc (Arena.checkInsertable_eq_ok_iff.mpr ⟨h1, h2, fun y hy hya => ?_⟩)
            exact absurd (hs.mem_keys_iff.mp hya) (h3 y hy)
          · rw [insertChild, run_get_bind, hch, run_require_ok_bind, if_neg (by omega)]
            simp only [run_get_bind, he, run_require_error_bind]
      · refine .of_refuses (fun h => hi h.1.2) ⟨.invalidIndex n.id index n.children.length, ?_⟩
        rw [insertChild, run_get_bind, hch, run_require_ok_bind, if_pos (by omega), hlen]
        rfl
  · obtain ⟨e, he⟩ := hs.children_error hx
    refine .of_refuses (fun h => not_exists_of_not_mem hx h.1) ⟨e, ?_⟩
    rw [insertChild, run_get_bind, he, run_require_error_bind]

/-! ### Removing -/

/-- A child between its siblings, in records. -/
theorem Shows.nodes_child {C : Context Unit} {i : NodeId} {tag : String}
    {as : List (Attribute Unit)} {before after : List (Node Unit)} {c : Node Unit}
    (hs : s.Shows (C.plug (.element i tag as (before ++ c :: after)))) :
    s.arena.nodes.Perm (c.entries (some i)
      ++ (i, (Node.element i tag as (before ++ c :: after)).record (C.parent none))
        :: ((before ++ after).flatMap (Node.entries (some i)) ++ C.entries none i)) := by
  have h := hs.nodes_element
  have hc : ((before ++ c :: after).flatMap (Node.entries (some i))).Perm
      (c.entries (some i) ++ (before ++ after).flatMap (Node.entries (some i))) := by
    simp only [List.flatMap_append, List.flatMap_cons]
    exact List.perm_append_comm_assoc _ _ _
  refine h.trans ?_
  refine List.Perm.trans ?_ List.perm_middle.symm
  rw [← List.append_assoc]
  exact (hc.append_right _).cons _

theorem Shows.removeTree (hs : s.Shows t) (hn : n ∈ t.subtrees) {c : Node Unit}
    (hc : c ∈ n.children) :
    ∃ a, s.arena.removeTree c.id = .ok a ∧ Shows { s with arena := a }
      (t.modify n.id (Node.withChildren (·.filter fun d => d.id ≠ c.id))) := by
  have hnd := hs.nodup_children hn
  have hassigned := hs.assigned_of_mem (Node.mem_subtrees_of_mem_children hn hc)
  obtain ⟨C, rfl, hmod⟩ := Node.exists_context hn hs.nodup
  cases n with
  | text i u => exact absurd hc List.not_mem_nil
  | element i tag as cs =>
    obtain ⟨before, after, rfl⟩ := List.append_of_mem hc
    obtain ⟨a, ha, hperm⟩ := Arena.removeTree_child hs.distinct hs.nodes_child hassigned
    have hfilter := Node.filter_id_ne hnd
    have hids := (C.ids_plug _).nodup_iff.mp hs.nodup
    have hsub : (Node.element i tag as (before ++ after)).ids.Sublist
        (Node.element i tag as (before ++ c :: after)).ids := by
      rw [Node.ids_element, Node.ids_element, List.flatMap_append, List.flatMap_append,
        List.flatMap_cons]
      exact ((List.sublist_append_right _ _).append_left _).cons_cons i
    refine ⟨a, ha, ?_⟩
    rw [hmod, Node.withChildren, hfilter]
    refine hs.plug (m := .element i tag as (before ++ after)) rfl ?_ (hids.of_append_left.sublist hsub)
      (fun x hx => ?_) fun x hx hxC => ?_
    · rw [Node.entries_eq, List.cons_append]
      refine hperm.trans ?_
      have hkids : ((before ++ c :: after).map Node.id).filter (· ≠ c.id)
          = (before ++ after).map Node.id := by
        rw [← hfilter, List.filter_map]
        rfl
      simp only [Node.record, Node.content, Node.children, Node.id] at hkids ⊢
      rw [hkids]
    · exact hs.assigned x ((C.ids_plug _).mem_iff.mpr (List.mem_append_left _ (hsub.subset hx)))
    · exact List.disjoint_of_nodup_append hids (hsub.subset hx) hxC

theorem removeChild_decides (hs : s.Shows t) (x y : NodeId) (isText : Bool) :
    s.Decides (removeChild x y isText)
      (∃ n ∈ t.subtrees, n.id = x ∧ ∃ c ∈ n.children, c.id = y ∧ c.isText = isText)
      (t.modify x (Node.withChildren (·.filter fun d => d.id ≠ y))) := by
  -- The guards are gone through in the order in which they are made.
  by_cases hy : y ∈ t.ids
  · obtain ⟨c, hc, rfl⟩ := Node.mem_ids_iff.mp hy
    obtain ⟨q, hq⟩ := hs.record_eq hc
    have hkind : ((c.record q).content.isText != isText) = true ↔ c.isText ≠ isText := by
      rw [Node.record, Shows.isText_content, bne_iff_ne]
    have hsame : ∀ n ∈ t.subtrees, ∀ d ∈ n.children, d.id = c.id → d = c := fun n hn d hd hid =>
      Node.eq_of_id_eq hs.nodup (Node.mem_subtrees_of_mem_children hn hd) hc hid
    by_cases hk : c.isText = isText
    · by_cases hx : x ∈ t.ids
      · obtain ⟨n, hn, rfl⟩ := Node.mem_ids_iff.mp hx
        rw [hs.exists_iff hn]
        by_cases hm : c.id ∈ n.children.map Node.id
        · obtain ⟨d, hd, hid⟩ := List.mem_map.mp hm
          obtain rfl := hsame n hn d hd hid
          obtain ⟨a, ha, hshows⟩ := hs.removeTree hn hd
          refine .of_accepts ⟨d, hd, rfl, hk⟩ (.of_arena ?_ hshows)
          rw [removeChild, run_get_bind, hq, run_require_ok_bind,
            if_neg (mt hkind.mp (not_not.mpr hk))]
          simp only [run_get_bind, hs.position_eq hn, if_pos hm, run_require_ok_bind, ha,
            run_modifyArena]
        · refine .of_refuses ?_ ⟨.invalidSibling n.id c.id, ?_⟩
          · rintro ⟨d, hd, hid, -⟩
            exact hm (List.mem_map.mpr ⟨d, hd, hid⟩)
          · rw [removeChild, run_get_bind, hq, run_require_ok_bind,
            if_neg (mt hkind.mp (not_not.mpr hk))]
            simp only [run_get_bind, hs.position_eq hn, if_neg hm, run_require_error_bind]
      · obtain ⟨e, he⟩ := hs.position_error (y := c.id) hx
        refine .of_refuses (not_exists_of_not_mem hx) ⟨e, ?_⟩
        rw [removeChild, run_get_bind, hq, run_require_ok_bind,
            if_neg (mt hkind.mp (not_not.mpr hk))]
        simp only [run_get_bind, he, run_require_error_bind]
    · refine .of_refuses ?_ ⟨.wrongNodeKind c.id, ?_⟩
      · rintro ⟨n, hn, -, d, hd, hid, hdt⟩
        exact hk (hsame n hn d hd hid ▸ hdt)
      · rw [removeChild, run_get_bind, hq, run_require_ok_bind, if_pos (hkind.mpr hk),
          run_throw_bind]
  · obtain ⟨e, he⟩ := hs.record_error hy
    refine .of_refuses ?_ ⟨e, ?_⟩
    · rintro ⟨n, hn, -, c, hc, rfl, -⟩
      exact hy (Node.mem_ids_iff.mpr ⟨c, Node.mem_subtrees_of_mem_children hn hc, rfl⟩)
    · rw [removeChild, run_get_bind, he, run_require_error_bind]

/-! ### Replacing -/

theorem Shows.subtreeIds_eq (hs : s.Shows t) (hn : n ∈ t.subtrees) :
    s.arena.subtreeIds n.id = n.ids := by
  obtain ⟨q, hq⟩ := Node.entries_subset_of_mem (q := none) hn
  refine Arena.subtreeIds_eq hs.distinct (fun _ h => hs.entries_subset (hq h)) ?_
  obtain ⟨C, rfl, -⟩ := Node.exists_context hn hs.nodup
  exact ((C.ids_plug n).nodup_iff.mp hs.nodup).of_append_left

theorem idxOf_middle {before after : List (Node Unit)} {c : Node Unit}
    (h : ((before ++ c :: after).map Node.id).Nodup) :
    ((before ++ c :: after).map Node.id).idxOf c.id = before.length := by
  rw [List.map_append, List.map_cons, List.nodup_append] at h
  obtain ⟨-, -, hb⟩ := h
  have hc : c.id ∉ before.map Node.id := fun hm => hb _ hm c.id List.mem_cons_self rfl
  rw [List.map_append, List.map_cons, List.idxOf_append_of_notMem hc, List.idxOf_cons_self,
    List.length_map, Nat.add_zero]

/-- Replacing a child is removing it and inserting another one in its place. -/
theorem Shows.replaceChild (hs : s.Shows t) (hn : n ∈ t.subtrees) {c : Node Unit}
    (hc : c ∈ n.children) {new : Node P} (hassigned : ∀ x ∈ new.ids, x.isAssigned = true)
    (hnodup : new.ids.Nodup) (hfree : ∀ x ∈ new.ids, x ∈ t.ids → x ∈ c.ids) :
    s.Accepts (replaceChild (some n.id) c.id new)
      (t.modify n.id (Node.withChildren (·.map fun d => if d.id = c.id then new.erased else d))) := by
  have hct := Node.mem_subtrees_of_mem_children hn hc
  have hcheck : s.arena.checkInsertable (s.arena.subtreeIds c.id) new = .ok () := by
    rw [hs.subtreeIds_eq hct]
    refine Arena.checkInsertable_eq_ok_iff.mpr ⟨hassigned, hnodup, fun x hx hxa => ?_⟩
    exact hfree x hx (hs.mem_keys_iff.mp hxa)
  have hnd := hs.nodup_children hn
  obtain ⟨a, ha, hremoved⟩ := hs.removeTree hn hc
  have hplace := hs.position_eq (x := c.id) hn
  rw [if_pos (List.mem_map_of_mem hc)] at hplace
  obtain ⟨C, rfl, hmod⟩ := Node.exists_context hn hs.nodup
  cases n with
  | text i u => exact absurd hc List.not_mem_nil
  | element i tag as cs =>
    obtain ⟨before, after, rfl⟩ := List.append_of_mem hc
    simp only [Node.children_element, Node.id_element] at hnd hplace
    rw [idxOf_middle hnd] at hplace
    have hids := (C.ids_plug _).nodup_iff.mp hs.nodup
    have hiC : i ∉ C.ids := fun h => List.disjoint_of_nodup_append hids (Node.id_mem_ids _) h
    rw [hmod, Node.withChildren, Node.filter_id_ne hnd] at hremoved
    have hrest : ∀ x ∈ new.ids, x ∉ (C.plug (.element i tag as (before ++ after))).ids := by
      intro x hx hxt
      have hsplit : (C.plug (.element i tag as (before ++ c :: after))).ids.Perm
          (c.ids ++ (C.plug (.element i tag as (before ++ after))).ids) := by
        refine (C.ids_plug _).trans (List.Perm.trans ?_ ((C.ids_plug _).symm.append_left _))
        rw [List.perm_iff_count]
        intro y
        simp only [Node.ids_element, List.flatMap_append, List.flatMap_cons, List.count_cons,
          List.count_append]
        omega
      have hxc := hfree x hx (hsplit.mem_iff.mpr (List.mem_append_right _ hxt))
      exact List.disjoint_of_nodup_append (hsplit.nodup_iff.mp hs.nodup) hxc hxt
    have hlen : before.length ≤ (before ++ after).length := by simp
    obtain ⟨hch, hshows⟩ := hremoved.insertTree (n := .element i tag as (before ++ after))
      (C.mem_subtrees_plug _) rfl hlen hassigned hnodup hrest
    refine .of_arena ?_ ?_ (a := (a.insertTree (some i) new).setChildren i
      (((before ++ after).map Node.id).insertIdx before.length new.id))
    · simp only [Surface.replaceChild, run_get_bind, slot, Node.id_element, hplace, Except.map,
        run_require_ok_bind, hcheck, ha, run_modifyArena_bind]
      simp only [Node.id_element, Node.children_element] at hch
      simp only [hch, run_require_ok_bind, run_modifyArena]
    · have hplug : (C.plug (.element i tag as (before ++ after))).modify i
          (Node.withChildren (·.insertIdx before.length new.erased))
          = C.plug (.element i tag as (before ++ new.erased :: after)) := by
        refine (Context.modify_plug (n := .element i tag as (before ++ after)) hiC _).trans ?_
        rw [Node.withChildren, Node.insertIdx_middle]
      rw [hmod, Node.withChildren, Node.map_replace_eq hnd, ← hplug]
      exact hshows

theorem Shows.empty_of_root (hs : s.Shows t) :
    ∃ a, s.arena.removeTree t.id = .ok a ∧ a.nodes = [] := by
  have hnodes : s.arena.nodes.Perm (t.entries none ++ []) := by
    rw [List.append_nil]
    exact hs.nodes
  obtain ⟨a, ha, hperm⟩ := Arena.removeTree_root hs.distinct hnodes
    (hs.assigned_of_mem t.self_mem_subtrees)
  exact ⟨a, ha, hperm.eq_nil⟩

/-- What is shown once a tree was inserted into an arena without nodes. -/
theorem shows_insertTree {a : Arena} (ha : a.nodes = []) {new : Node P}
    (hassigned : ∀ x ∈ new.ids, x.isAssigned = true) (hnodup : new.ids.Nodup)
    {handle : Option SurfaceHandle} :
    Shows { s with arena := a.insertTree none new, root := some new.id, handle } new.erased := by
  have hkeys : ∀ x ∈ new.ids, x ∉ a.nodes.map Prod.fst := by
    intro x _ hx
    rw [ha] at hx
    exact absurd hx List.not_mem_nil
  have hins := Arena.insertTree_perm (q := none) hnodup hkeys
  rw [ha, List.append_nil] at hins
  refine ⟨congrArg some (Node.id_map _ _).symm, ?_, ?_, ?_⟩
  · rw [entries_erased]
    exact hins
  · rw [Node.erased, Node.ids_map]
    exact hnodup
  · rw [Node.erased, Node.ids_map]
    exact hassigned

theorem replaceChild_decides (hs : s.Shows t) (x y : NodeId) (new : Node P) :
    s.Decides (replaceChild (some x) y new)
      ((∃ n ∈ t.subtrees, n.id = x ∧ ∃ c ∈ n.children, c.id = y)
        ∧ (∀ z ∈ new.ids, z.isAssigned = true) ∧ new.ids.Nodup
        ∧ ∀ z ∈ new.ids, z ∈ t.ids → ∃ m ∈ t.subtrees, m.id = y ∧ z ∈ m.ids)
      (t.modify x (Node.withChildren (·.map fun d => if d.id = y then new.erased else d))) := by
  by_cases hx : x ∈ t.ids
  · obtain ⟨n, hn, rfl⟩ := Node.mem_ids_iff.mp hx
    rw [hs.exists_iff hn]
    by_cases hy : y ∈ n.children.map Node.id
    · obtain ⟨c, hc, rfl⟩ := List.mem_map.mp hy
      have hct := Node.mem_subtrees_of_mem_children hn hc
      have hplace := hs.position_eq (x := c.id) hn
      rw [if_pos hy] at hplace
      by_cases hcheck : s.arena.checkInsertable (s.arena.subtreeIds c.id) new = .ok ()
      · obtain ⟨h1, h2, h3⟩ := Arena.checkInsertable_eq_ok_iff.mp hcheck
        rw [hs.subtreeIds_eq hct] at h3
        have hfree : ∀ z ∈ new.ids, z ∈ t.ids → z ∈ c.ids := fun z hz hzt =>
          h3 z hz (hs.mem_keys_iff.mpr hzt)
        refine .of_accepts ⟨⟨c, hc, rfl⟩, h1, h2, fun z hz hzt => ?_⟩
          (hs.replaceChild hn hc h1 h2 hfree)
        exact ⟨c, hct, rfl, hfree z hz hzt⟩
      · obtain ⟨e, he⟩ := exists_error_of_ne_ok hcheck
        refine .of_refuses ?_ ⟨e, ?_⟩
        · rintro ⟨-, h1, h2, h3⟩
          refine hcheck (Arena.checkInsertable_eq_ok_iff.mpr ⟨h1, h2, fun z hz hza => ?_⟩)
          obtain ⟨m, hm, hid, hzm⟩ := h3 z hz (hs.mem_keys_iff.mp hza)
          rw [hs.subtreeIds_eq hct, ← Node.eq_of_id_eq hs.nodup hm hct hid]
          exact hzm
        · simp only [replaceChild, run_get_bind, slot, hplace, Except.map, run_require_ok_bind, he,
            run_require_error_bind]
    · have hplace := hs.position_eq (x := y) hn
      rw [if_neg hy] at hplace
      refine .of_refuses ?_ ⟨.invalidSibling n.id y, ?_⟩
      · rintro ⟨⟨c, hc, hid⟩, -⟩
        exact hy (List.mem_map.mpr ⟨c, hc, hid⟩)
      · simp only [replaceChild, run_get_bind, slot, hplace, Except.map, run_require_error_bind]
  · obtain ⟨e, he⟩ := hs.position_error (y := y) hx
    refine .of_refuses (fun h => not_exists_of_not_mem hx h.1) ⟨e, ?_⟩
    simp only [replaceChild, run_get_bind, slot, he, Except.map, run_require_error_bind]

/-- The root gives way to any tree that could be shown alone. -/
theorem replaceRoot_decides (hs : s.Shows t) (y : NodeId) (new : Node P) :
    s.Decides (replaceChild none y new)
      (y = t.id ∧ (∀ z ∈ new.ids, z.isAssigned = true) ∧ new.ids.Nodup) new.erased := by
  by_cases hy : y = t.id
  · subst hy
    have hslot : s.slot none t.id = .ok none := by
      rw [slot]
      exact if_pos hs.root
    have hids := hs.subtreeIds_eq t.self_mem_subtrees
    by_cases hcheck : s.arena.checkInsertable (s.arena.subtreeIds t.id) new = .ok ()
    · obtain ⟨h1, h2, -⟩ := Arena.checkInsertable_eq_ok_iff.mp hcheck
      obtain ⟨a, ha, hempty⟩ := hs.empty_of_root
      refine .of_accepts ⟨rfl, h1, h2⟩
        ⟨a.insertTree none new, some new.id, s.handle, ?_, shows_insertTree hempty h1 h2⟩
      simp only [replaceChild, run_get_bind, hslot, run_require_ok_bind, hcheck, ha,
        run_modifyArena_bind, run_modify]
    · obtain ⟨e, he⟩ := exists_error_of_ne_ok hcheck
      refine .of_refuses ?_ ⟨e, ?_⟩
      · rintro ⟨-, h1, h2⟩
        refine hcheck (Arena.checkInsertable_eq_ok_iff.mpr ⟨h1, h2, fun z _ hza => ?_⟩)
        rw [hids]
        exact hs.mem_keys_iff.mp hza
      · simp only [replaceChild, run_get_bind, hslot, run_require_ok_bind, he,
          run_require_error_bind]
  · have hslot : s.slot none y = .error (.invalidSibling .unassigned y) := by
      rw [slot]
      refine if_neg fun h => hy ?_
      rw [hs.root, Option.some.injEq] at h
      exact h.symm
    refine .of_refuses (fun h => hy h.1) ⟨.invalidSibling .unassigned y, ?_⟩
    simp only [replaceChild, run_get_bind, hslot, run_require_error_bind]

end ViewLoop.Surface
