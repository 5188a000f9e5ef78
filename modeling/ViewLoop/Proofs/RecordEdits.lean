import ViewLoop.Proofs.Editing
import ViewLoop.Proofs.Shown

/-!
# Changes of one record on a surface

An operation decides whether it is accepted by a condition on the tree that the surface shows
(`Surface.Decides`), and a refused operation leaves the surface as it was. Here are the operations
that change one record: attributes, texts and the order of children.
-/

namespace ViewLoop.Surface

variable {P : Type} {s : Surface} {t n : Node Unit}

/-! ### Changes of one record -/

/-- A change of a node that is a change of its record and permutes its children at most. -/
theorem Shows.modify (hs : s.Shows t) (hn : n ∈ t.subtrees) {f : NodeRecord → NodeRecord}
    {g : Node Unit → Node Unit} (hid : (g n).id = n.id)
    (hrec : ∀ q, (g n).record q = f (n.record q)) (hch : (g n).children.Perm n.children) :
    Shows { s with arena := s.arena.modify n.id f } (t.modify n.id g) := by
  obtain ⟨C, rfl, hmod⟩ := Node.exists_context hn hs.nodup
  have hnodes := Arena.modify_perm hs.nodes_element hs.distinct f
  have hids : (g n).ids.Perm n.ids := by
    rw [← Node.keys_entries none, ← Node.keys_entries none n, Node.entries_eq, Node.entries_eq,
      List.map_cons, List.map_cons, hid]
    exact ((hch.flatMap_right _).map _).cons _
  have hdis := (C.ids_plug n).nodup_iff.mp hs.nodup
  rw [hmod]
  refine hs.plug hid ?_ ?_ (fun x hx => ?_) fun x hx hxC => ?_
  · rw [Node.entries_eq, hid, hrec, List.cons_append]
    exact hnodes.trans (((hch.symm.flatMap_right _).append_right _).cons _)
  · exact hids.nodup_iff.mpr hdis.of_append_left
  · refine hs.assigned x ((C.ids_plug n).mem_iff.mpr ?_)
    exact List.mem_append_left _ (hids.mem_iff.mp hx)
  · exact List.disjoint_of_nodup_append hdis (hids.mem_iff.mp hx) hxC

theorem findIdx?_key_set (as : List (Attribute Unit)) (k : AttributeKey) (new : Attribute Unit)
    {i : Nat} (hi : as.findIdx? (fun a => a.key = k) = some i) :
    as.set i new = Attribute.put k new as := by
  induction as generalizing i with
  | nil => exact absurd hi (by simp)
  | cons a as ih =>
    rw [List.findIdx?_cons] at hi
    rw [Attribute.put_cons]
    by_cases ha : a.key = k
    · simp only [ha, decide_true, ↓reduceIte, Option.some.injEq] at hi ⊢
      subst hi
      rfl
    · simp only [ha, decide_false, Bool.false_eq_true, ↓reduceIte, Option.map_eq_some_iff] at hi ⊢
      obtain ⟨j, hj, rfl⟩ := hi
      rw [List.set_cons_succ, ih hj]

theorem findIdx?_key_eraseIdx (as : List (Attribute Unit)) (k : AttributeKey) {i : Nat}
    (hi : as.findIdx? (fun a => a.key = k) = some i) : as.eraseIdx i = Attribute.drop k as := by
  induction as generalizing i with
  | nil => exact absurd hi (by simp)
  | cons a as ih =>
    rw [List.findIdx?_cons] at hi
    rw [Attribute.drop_cons]
    by_cases ha : a.key = k
    · simp only [ha, decide_true, ↓reduceIte, Option.some.injEq] at hi ⊢
      subst hi
      rfl
    · simp only [ha, decide_false, Bool.false_eq_true, ↓reduceIte, Option.map_eq_some_iff] at hi ⊢
      obtain ⟨j, hj, rfl⟩ := hi
      rw [List.eraseIdx_cons_succ, ih hj]

theorem exists_findIdx?_key {as : List (Attribute Unit)} {k : AttributeKey}
    (h : k ∈ as.map Attribute.key) : ∃ i, as.findIdx? (fun a => a.key = k) = some i := by
  obtain ⟨a, ha, hk⟩ := List.mem_map.mp h
  refine Option.isSome_iff_exists.mp ?_
  rw [List.findIdx?_isSome]
  exact List.any_eq_true.mpr ⟨a, ha, by simpa using hk⟩

theorem findIdx?_key_eq_none {as : List (Attribute Unit)} {k : AttributeKey}
    (h : k ∉ as.map Attribute.key) : as.findIdx? (fun a => a.key = k) = none := by
  refine List.findIdx?_eq_none_iff.mpr fun a ha => ?_
  have : a.key ≠ k := fun e => h (List.mem_map.mpr ⟨a, ha, e⟩)
  simpa using this

theorem Shows.setAttributes (hs : s.Shows t) (hn : n ∈ t.subtrees) (ht : n.isText = false)
    {g : List (Attribute Unit) → List (Attribute Unit)} :
    Shows { s with arena := s.arena.setAttributes n.id (g n.attributes) }
      (t.modify n.id (Node.withAttributes g)) := by
  refine hs.modify hn (Node.id_withAttributes g n) (fun q => ?_) ?_
  · cases n with
    | element i tag as cs =>
      simp only [Node.withAttributes, Node.record, Node.content, Node.attributes, Node.children,
        Attribute.map_erased]
    | text i u => exact absurd ht (by simp [Node.isText])
  · cases n <;> exact .refl _

/-! ### Accepting and refusing -/

/-- The operation goes through, changes nothing but the live nodes, and leaves `t` shown. -/
def Accepts (s : Surface) (op : Edit Unit) (t : Node Unit) : Prop :=
  ∃ a r h, op.run s = .ok () { s with arena := a, root := r, handle := h }
    ∧ Shows { s with arena := a, root := r, handle := h } t

/-- The operation fails and changes nothing. -/
def Refuses (s : Surface) (op : Edit Unit) : Prop := ∃ e, op.run s = .error e s

/-- The operation is accepted iff `fits`, and then leaves `t` shown. -/
structure Decides (s : Surface) (op : Edit Unit) (fits : Prop) (t : Node Unit) : Prop where
  accepts : fits → s.Accepts op t
  refuses : ¬fits → s.Refuses op

theorem Decides.of_accepts {op : Edit Unit} {fits : Prop} (hf : fits) (h : s.Accepts op t) :
    s.Decides op fits t := ⟨fun _ => h, fun hn => absurd hf hn⟩

theorem Decides.of_refuses {op : Edit Unit} {fits : Prop} (hf : ¬fits) (h : s.Refuses op) :
    s.Decides op fits t := ⟨fun hn => absurd hn hf, fun _ => h⟩

theorem Accepts.of_arena {op : Edit Unit} {a : Arena} (hrun : op.run s = .ok () { s with arena := a })
    (h : Shows { s with arena := a } t) : s.Accepts op t := ⟨a, s.root, s.handle, hrun, h⟩

/-- The node of an identity, and that it is the only one. -/
theorem Shows.exists_iff (hs : s.Shows t) (hn : n ∈ t.subtrees) {p : Node Unit → Prop} :
    (∃ m ∈ t.subtrees, m.id = n.id ∧ p m) ↔ p n := by
  constructor
  · rintro ⟨m, hm, hid, hp⟩
    exact Node.eq_of_id_eq hs.nodup hm hn hid ▸ hp
  · exact fun hp => ⟨n, hn, rfl, hp⟩

theorem not_exists_of_not_mem {x : NodeId} (hx : x ∉ t.ids) {p : Node Unit → Prop} :
    ¬∃ m ∈ t.subtrees, m.id = x ∧ p m := by
  rintro ⟨m, hm, hid, -⟩
  exact hx (Node.mem_ids_iff.mpr ⟨m, hm, hid⟩)

/-! ### Attributes, texts and orders -/

/-- An operation that reads the attributes of an element and puts others in their place. -/
theorem decides_of_attributes (hs : s.Shows t) (x : NodeId)
    (fits : List (Attribute Unit) → Prop) {body : List (Attribute Unit) → Edit Unit}
    {g : List (Attribute Unit) → List (Attribute Unit)}
    (hfits : ∀ as, fits as →
      (body as).run s = .ok () { s with arena := s.arena.setAttributes x (g as) })
    (hnot : ∀ as, ¬fits as → s.Refuses (body as)) :
    s.Decides (do body (← require ((← get).arena.attributes x)))
      (∃ n ∈ t.subtrees, n.id = x ∧ n.isText = false ∧ fits n.attributes)
      (t.modify x (Node.withAttributes g)) := by
  by_cases hx : x ∈ t.ids
  · obtain ⟨n, hn, rfl⟩ := Node.mem_ids_iff.mp hx
    rw [hs.exists_iff hn]
    cases ht : n.isText with
    | true =>
      refine .of_refuses (by simp) ⟨.wrongNodeKind n.id, ?_⟩
      rw [run_get_bind, hs.attributes_of_text hn ht, run_require_error_bind]
    | false =>
      have hattr := hs.attributes_eq hn ht
      by_cases hk : fits n.attributes
      · refine .of_accepts ⟨rfl, hk⟩ (.of_arena ?_ (hs.setAttributes hn ht))
        rw [run_get_bind, hattr, run_require_ok_bind, hfits _ hk]
      · obtain ⟨e, he⟩ := hnot _ hk
        refine .of_refuses (fun h => hk h.2) ⟨e, ?_⟩
        rw [run_get_bind, hattr, run_require_ok_bind, he]
  · obtain ⟨e, he⟩ := hs.attributes_error hx
    refine .of_refuses (not_exists_of_not_mem hx) ⟨e, ?_⟩
    rw [run_get_bind, he, run_require_error_bind]

theorem updateAttribute_decides (hs : s.Shows t) (x : NodeId) (old new : Attribute P) :
    s.Decides (updateAttribute x old new)
      (∃ n ∈ t.subtrees, n.id = x ∧ n.isText = false
        ∧ old.key ∈ n.attributes.map Attribute.key)
      (t.modify x (Node.withAttributes (Attribute.put old.key new.erased))) := by
  refine decides_of_attributes hs x (fun as => old.key ∈ as.map Attribute.key)
    (fun as hk => ?_) fun as hk => ?_
  · obtain ⟨i, hi⟩ := exists_findIdx?_key hk
    simp only [hi, run_modifyArena, findIdx?_key_set _ _ _ hi]
  · refine ⟨.missingAttribute x old.name, ?_⟩
    simp only [findIdx?_key_eq_none hk, run_throw]

theorem removeAttribute_decides (hs : s.Shows t) (x : NodeId) (removed : Attribute P) :
    s.Decides (removeAttribute x removed)
      (∃ n ∈ t.subtrees, n.id = x ∧ n.isText = false
        ∧ removed.key ∈ n.attributes.map Attribute.key)
      (t.modify x (Node.withAttributes (Attribute.drop removed.key))) := by
  refine decides_of_attributes hs x (fun as => removed.key ∈ as.map Attribute.key)
    (fun as hk => ?_) fun as hk => ?_
  · obtain ⟨i, hi⟩ := exists_findIdx?_key hk
    simp only [hi, run_modifyArena, findIdx?_key_eraseIdx _ _ hi]
  · refine ⟨.missingAttribute x removed.name, ?_⟩
    simp only [findIdx?_key_eq_none hk, run_throw]

theorem addAttribute_decides (hs : s.Shows t) (x : NodeId) (added : Attribute P) :
    s.Decides (addAttribute x added)
      (∃ n ∈ t.subtrees, n.id = x
        ∧ n.isText = false ∧ added.key ∉ n.attributes.map Attribute.key)
      (t.modify x (Node.withAttributes (· ++ [added.erased]))) := by
  have hany : ∀ as : List (Attribute Unit), (as.any fun a => a.key = added.key) = true
      ↔ added.key ∈ as.map Attribute.key := by
    intro as
    simp [List.any_eq_true]
  refine decides_of_attributes hs x (fun as => added.key ∉ as.map Attribute.key)
    (fun as hk => ?_) fun as hk => ?_
  · rw [if_neg (mt (hany as).mp hk)]
    rfl
  · refine ⟨.duplicateAttribute x added.name, ?_⟩
    rw [if_pos ((hany as).mpr (not_not.mp hk))]
    rfl

theorem updateText_decides (hs : s.Shows t) (x : NodeId) (text : String) :
    s.Decides (updateText x text) (∃ n ∈ t.subtrees, n.id = x ∧ n.isText = true)
      (t.modify x (Node.withText text)) := by
  by_cases hx : x ∈ t.ids
  · obtain ⟨n, hn, rfl⟩ := Node.mem_ids_iff.mp hx
    rw [hs.exists_iff hn]
    obtain ⟨q, hq⟩ := hs.record_eq hn
    cases n with
    | element i tag as cs =>
      refine .of_refuses (by simp [Node.isText]) ⟨.wrongNodeKind i, ?_⟩
      rw [updateText, run_get_bind, hq, run_require_ok_bind]
      rfl
    | text i u =>
      refine .of_accepts rfl (.of_arena (a := s.arena.setContent i (.text text)) ?_ ?_)
      · rw [updateText, run_get_bind, hq, run_require_ok_bind]
        rfl
      · exact hs.modify hn rfl (fun _ => rfl) (.refl _)
  · obtain ⟨e, he⟩ := hs.record_error hx
    refine .of_refuses (not_exists_of_not_mem hx) ⟨e, ?_⟩
    rw [updateText, run_get_bind, he, run_require_error_bind]

theorem sameMembers_iff {as bs : List NodeId} :
    sameMembers as bs = true ↔ ∀ x, x ∈ as ↔ x ∈ bs := by
  simp only [sameMembers, Bool.and_eq_true, List.all_eq_true, List.contains_iff_mem]
  exact ⟨fun h x => ⟨h.1 x, h.2 x⟩, fun h => ⟨fun x => (h x).mp, fun x => (h x).mpr⟩⟩

/-- What a new order must be is that it permutes the present one. -/
theorem reorder_check_iff (order : List NodeId) {present : List NodeId} (hp : present.Nodup) :
    (order.length ≠ present.length ∨ ¬order.Nodup ∨ sameMembers present order = false)
      ↔ ¬order.Perm present := by
  rw [← Bool.not_eq_true, sameMembers_iff]
  constructor
  · rintro (h | h | h) hperm
    · exact h hperm.length_eq
    · exact h (hperm.nodup_iff.mpr hp)
    · exact h fun x => hperm.mem_iff.symm
  · intro h
    by_contra hc
    simp only [not_or, not_not] at hc
    obtain ⟨-, hn, hm⟩ := hc
    exact h ((List.perm_ext_iff_of_nodup hn hp).mpr fun x => (hm x).symm)

theorem Shows.nodup_children (hs : s.Shows t) (hn : n ∈ t.subtrees) :
    (n.children.map Node.id).Nodup := Node.nodup_children (Node.nodup_ids_of_mem hs.nodup hn)

theorem reorderChildren_decides (hs : s.Shows t) (x : NodeId) (order : List NodeId) :
    s.Decides (reorderChildren x order)
      (∃ n ∈ t.subtrees, n.id = x ∧ n.isText = false ∧ order.Perm (n.children.map Node.id))
      (t.modify x (Node.withChildren fun cs =>
        order.filterMap fun x => cs.find? fun c => c.id = x)) := by
  by_cases hx : x ∈ t.ids
  · obtain ⟨n, hn, rfl⟩ := Node.mem_ids_iff.mp hx
    rw [hs.exists_iff hn]
    cases ht : n.isText with
    | true =>
      refine .of_refuses (by simp) ⟨.invalidParent n.id, ?_⟩
      rw [reorderChildren, run_get_bind, hs.children_of_text hn ht, run_require_error_bind]
    | false =>
      have hch := hs.children_eq hn ht
      have hcheck := reorder_check_iff order (hs.nodup_children hn)
      by_cases hp : order.Perm (n.children.map Node.id)
      · refine .of_accepts ⟨rfl, hp⟩
          (.of_arena (a := s.arena.setChildren n.id order) ?_ ?_)
        · rw [reorderChildren, run_get_bind, hch, run_require_ok_bind,
            if_neg (mt hcheck.mp (not_not.mpr hp))]
          rfl
        · obtain ⟨hids, hperm⟩ := Patch.map_id_find?_of_perm hp (hs.nodup_children hn)
          refine hs.modify hn (Node.id_withChildren _ n) (fun q => ?_) ?_
          · cases n with
            | element i tag as cs =>
              simp only [Node.withChildren, Node.record, Node.content, Node.children] at hids ⊢
              rw [hids]
            | text i u => exact absurd ht (by simp [Node.isText])
          · cases n with
            | element i tag as cs => exact hperm
            | text i u => exact .refl _
      · refine .of_refuses (fun h => hp h.2) ⟨.invalidReorder n.id, ?_⟩
        rw [reorderChildren, run_get_bind, hch, run_require_ok_bind, if_pos (hcheck.mpr hp),
          run_throw_bind]
  · obtain ⟨e, he⟩ := hs.children_error hx
    refine .of_refuses (not_exists_of_not_mem hx) ⟨e, ?_⟩
    rw [reorderChildren, run_get_bind, he, run_require_error_bind]

end ViewLoop.Surface
