import ViewLoop.Proofs.Editing

/-!
# Marks

What must not occur twice in a tree: the identities of its nodes and, where handlers are watched,
those of its handlers. Both are `Mark`s, so that a statement about what a change touches is one
statement. A tree without repeated marks has no repeated identity (`Node.nodup_ids_of_marks`), and
the marks of a tree split into those of a node and those of its context (`Context.marks_plug`).
-/

namespace ViewLoop

/-- The identity of a node or of a handler. -/
inductive Mark where
  | node (id : NodeId)
  | handler (id : HandlerId)
  deriving DecidableEq

/-- The marks of an attribute; without `watched` there are none. -/
def Attribute.marks {P : Type} (watched : Bool) (a : Attribute P) : List Mark :=
  if watched then (a.handler?.map fun h => Mark.handler h.id).toList else []

/-- Parts without a common mark are told apart by each of their marks. -/
theorem eq_of_mem_flatMap {α β : Type} {f : α → List β} {l : List α} (hn : (l.flatMap f).Nodup)
    {a b : α} (ha : a ∈ l) (hb : b ∈ l) {x : β} (hxa : x ∈ f a) (hxb : x ∈ f b) : b = a := by
  by_contra hne
  obtain ⟨pre, post, rfl⟩ := List.append_of_mem ha
  have hperm : ((pre ++ a :: post).flatMap f).Perm (f a ++ (pre ++ post).flatMap f) := by
    simp only [List.flatMap_append, List.flatMap_cons]
    exact List.perm_append_comm_assoc _ _ _
  have hdis := List.disjoint_of_nodup_append (hperm.nodup_iff.mp hn) hxa
  refine hdis (List.mem_flatMap.mpr ⟨b, ?_, hxb⟩)
  rcases List.mem_append.mp hb with hb | hb
  · exact List.mem_append_left _ hb
  · exact List.mem_append_right _ ((List.mem_cons.mp hb).resolve_left hne)

namespace Node

variable {P Q : Type} {w : Bool}

def ownMarks (watched : Bool) (n : Node P) : List Mark :=
  .node n.id :: n.attributes.flatMap (Attribute.marks watched)

def marks (watched : Bool) (n : Node P) : List Mark := n.subtrees.flatMap (ownMarks watched)

theorem marks_eq (n : Node P) : n.marks w = n.ownMarks w ++ n.children.flatMap (marks w) := by
  cases n with
  | element i tag as cs =>
    rw [marks, subtrees_element, List.flatMap_cons, List.flatMap_assoc]
    rfl
  | text i s => rfl

theorem marks_element (i : NodeId) (tag : String) (as : List (Attribute P)) (cs : List (Node P)) :
    (element i tag as cs).marks w
      = .node i :: (as.flatMap (Attribute.marks w) ++ cs.flatMap (marks w)) := marks_eq _

theorem nodup_own_marks {i : NodeId} {tag : String} {as : List (Attribute P)}
    {cs : List (Node P)} (h : ((element i tag as cs).marks w).Nodup) :
    (as.flatMap (Attribute.marks w)).Nodup := by
  rw [marks_element, List.nodup_cons] at h
  exact h.2.of_append_left

theorem nodup_children_marks {i : NodeId} {tag : String} {as : List (Attribute P)}
    {cs : List (Node P)} (h : ((element i tag as cs).marks w).Nodup) :
    (cs.flatMap (marks w)).Nodup := by
  rw [marks_element, List.nodup_cons] at h
  exact h.2.of_append_right

/-! ### What the marks are -/

theorem node_not_mem_attribute_marks (a : Attribute P) (x : NodeId) : .node x ∉ a.marks w := by
  cases a <;> cases w <;> simp [Attribute.marks, Attribute.handler?]

theorem node_mem_marks_iff {n : Node P} {x : NodeId} : .node x ∈ n.marks w ↔ x ∈ n.ids := by
  rw [marks, List.mem_flatMap, mem_ids_iff]
  refine exists_congr fun m => and_congr_right fun _ => ?_
  rw [ownMarks, List.mem_cons, List.mem_flatMap, Mark.node.injEq]
  constructor
  · rintro (h | ⟨a, -, ha⟩)
    · exact h.symm
    · exact absurd ha (node_not_mem_attribute_marks a x)
  · exact fun h => Or.inl h.symm

theorem handler_mem_attribute_marks_iff {a : Attribute P} {x : HandlerId} :
    .handler x ∈ a.marks w ↔ w = true ∧ ∃ h, a = .handler h ∧ h.id = x := by
  cases a with
  | plain name value => cases w <;> simp [Attribute.marks, Attribute.handler?]
  | handler h => cases w <;> simp [Attribute.marks, Attribute.handler?, eq_comm]

theorem handler_mem_marks_iff {n : Node P} {x : HandlerId} :
    .handler x ∈ n.marks w ↔ w = true ∧ ∃ h ∈ n.handlers, h.2.id = x := by
  have hown : ∀ m : Node P, .handler x ∈ m.ownMarks w
      ↔ w = true ∧ ∃ h, Attribute.handler h ∈ m.attributes ∧ h.id = x := by
    intro m
    rw [ownMarks, List.mem_cons, List.mem_flatMap]
    constructor
    · rintro (h | ⟨a, ha, hx⟩)
      · exact absurd h (by simp)
      · obtain ⟨hw, h, rfl, hid⟩ := handler_mem_attribute_marks_iff.mp hx
        exact ⟨hw, h, ha, hid⟩
    · rintro ⟨hw, h, ha, hid⟩
      exact Or.inr ⟨_, ha, handler_mem_attribute_marks_iff.mpr ⟨hw, h, rfl, hid⟩⟩
  rw [marks, List.mem_flatMap]
  constructor
  · rintro ⟨m, hm, hx⟩
    obtain ⟨hw, h, ha, hid⟩ := (hown m).mp hx
    exact ⟨hw, (m.id, h), mem_handlers_iff.mpr ⟨m, hm, rfl, ha⟩, hid⟩
  · rintro ⟨hw, ⟨i, h⟩, hh, hid⟩
    obtain ⟨m, hm, -, ha⟩ := mem_handlers_iff.mp hh
    exact ⟨m, hm, (hown m).mpr ⟨hw, h, ha, hid⟩⟩

theorem marks_subset_of_mem {n m : Node P} (h : m ∈ n.subtrees) : m.marks w ⊆ n.marks w := by
  intro x hx
  obtain ⟨y, hy, hxy⟩ := List.mem_flatMap.mp hx
  exact List.mem_flatMap.mpr ⟨y, mem_subtrees_trans h hy, hxy⟩

theorem map_ids_sublist_marks (n : Node P) : (n.ids.map Mark.node).Sublist (n.marks w) := by
  rw [ids_eq_map_subtrees, List.map_map, marks]
  induction n.subtrees with
  | nil => exact .slnil
  | cons m ms ih =>
    rw [List.map_cons, List.flatMap_cons, ownMarks, List.cons_append]
    exact (ih.trans (List.sublist_append_right _ _)).cons_cons _

theorem nodup_ids_of_marks {n : Node P} (h : (n.marks w).Nodup) : n.ids.Nodup :=
  List.Nodup.of_map _ (h.sublist n.map_ids_sublist_marks)

/-- Without watched handlers, marks are identities. -/
theorem marks_false (n : Node P) : n.marks false = n.ids.map Mark.node := by
  have ha : ∀ as : List (Attribute P), as.flatMap (Attribute.marks false) = [] := by
    intro as
    exact List.flatMap_eq_nil_iff.mpr fun a _ => rfl
  rw [ids_eq_map_subtrees, List.map_map, marks]
  induction n.subtrees with
  | nil => rfl
  | cons m ms ih =>
    rw [List.flatMap_cons, List.map_cons, ih, ownMarks, ha]
    rfl

theorem attribute_marks_eq (i : NodeId) (as : List (Attribute P)) :
    as.flatMap (Attribute.marks true)
      = ((as.filterMap Attribute.handler?).map (i, ·)).map fun k => Mark.handler k.2.id := by
  induction as with
  | nil => rfl
  | cons a as ih =>
    cases a with
    | plain name value =>
      rw [List.filterMap_cons_none rfl, ← ih]
      rfl
    | handler k =>
      rw [List.filterMap_cons_some (f := Attribute.handler?) (b := k) rfl, List.map_cons,
        List.map_cons, ← ih]
      rfl

theorem marks_true_perm (n : Node P) :
    (n.marks true).Perm
      (n.ids.map Mark.node ++ n.handlers.map fun k => Mark.handler k.2.id) := by
  rw [ids_eq_map_subtrees, handlers_eq_flatMap_subtrees, marks]
  induction n.subtrees with
  | nil => exact .refl _
  | cons m ms ih =>
    simp only [List.flatMap_cons, List.map_cons, List.map_append, ownMarks,
      attribute_marks_eq m.id, List.cons_append]
    exact ((ih.append_left _).trans (List.perm_append_comm_assoc _ _ _)).cons _

theorem nodup_marks_iff {n : Node P} :
    (n.marks true).Nodup ↔ n.ids.Nodup ∧ (n.handlers.map fun k => k.2.id).Nodup := by
  rw [n.marks_true_perm.nodup_iff, List.nodup_append]
  have hnodes : (n.ids.map Mark.node).Nodup ↔ n.ids.Nodup :=
    ⟨List.Nodup.of_map _, List.Nodup.map fun _ _ h => Mark.node.inj h⟩
  have hmap : (n.handlers.map fun k => Mark.handler k.2.id)
      = (n.handlers.map fun k => k.2.id).map Mark.handler := by
    rw [List.map_map]
    rfl
  have hhandlers : (n.handlers.map fun k => Mark.handler k.2.id).Nodup
      ↔ (n.handlers.map fun k => k.2.id).Nodup := by
    rw [hmap]
    exact ⟨List.Nodup.of_map _, List.Nodup.map fun _ _ h => Mark.handler.inj h⟩
  rw [hnodes, hhandlers]
  refine and_congr_right fun _ => and_iff_left ?_
  intro x hx y hy hxy
  obtain ⟨i, -, rfl⟩ := List.mem_map.mp hx
  obtain ⟨j, -, rfl⟩ := List.mem_map.mp hy
  exact absurd hxy (by simp)

end Node

namespace Context

variable {P : Type} {w : Bool}

def marks (watched : Bool) : Context P → List Mark
  | hole => []
  | under i _ as before inner after =>
    .node i :: (as.flatMap (Attribute.marks watched)
      ++ (before.flatMap (Node.marks watched) ++ inner.marks watched
        ++ after.flatMap (Node.marks watched)))

theorem marks_plug (C : Context P) (n : Node P) :
    ((C.plug n).marks w).Perm (n.marks w ++ C.marks w) := by
  induction C with
  | hole => simp [plug, marks]
  | under i tag as before inner after ih =>
    rw [List.perm_iff_count] at ih ⊢
    intro x
    have h := ih x
    simp only [plug, marks, Node.marks_element, List.flatMap_append, List.flatMap_cons,
      List.count_cons, List.count_append] at h ⊢
    omega

theorem node_mem_marks_iff {C : Context P} {x : NodeId} : .node x ∈ C.marks w ↔ x ∈ C.ids := by
  induction C with
  | hole => simp [marks, ids]
  | under i tag as before inner after ih =>
    have ha : Mark.node x ∉ as.flatMap (Attribute.marks w) := by
      rw [List.mem_flatMap]
      rintro ⟨a, -, hx⟩
      exact Node.node_not_mem_attribute_marks a x hx
    have hf : ∀ cs : List (Node P), .node x ∈ cs.flatMap (Node.marks w) ↔ x ∈ cs.flatMap Node.ids := by
      intro cs
      simp only [List.mem_flatMap, Node.node_mem_marks_iff]
    simp only [marks, ids, List.mem_cons, List.mem_append, hf, ih, ha, Mark.node.injEq, false_or]

end Context

end ViewLoop
