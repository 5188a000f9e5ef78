import ViewLoop.Proofs.Subtrees

/-!
# Contexts

A `Context` is a tree with one node cut out. `Node.modify` changes the node of one identity. In a
tree without repeated identities the node of an identity is the one in the hole of its context, so
a change there leaves the context as it was (`Context.modify_plug`), and whatever is read off the
tree splits into what is read off the node and off its context.
-/

namespace ViewLoop

/-! ### Changing the node of an identity -/

namespace Node

variable {P Q : Type}

mutual

/-- The tree with `f` applied to its nodes of identity `target`, from the root down. -/
def modify (target : NodeId) (f : Node P → Node P) : Node P → Node P
  | element i tag as cs =>
    if i = target then f (element i tag as cs) else element i tag as (modifyForest target f cs)
  | text i s => if i = target then f (text i s) else text i s

def modifyForest (target : NodeId) (f : Node P → Node P) : List (Node P) → List (Node P)
  | [] => []
  | c :: cs => modify target f c :: modifyForest target f cs

end

theorem modifyForest_eq_map (x : NodeId) (f : Node P → Node P) (cs : List (Node P)) :
    modifyForest x f cs = cs.map (modify x f) := by
  induction cs with
  | nil => rfl
  | cons c cs ih => simp only [modifyForest, List.map_cons, ih]

theorem modify_of_id_eq (n : Node P) (f : Node P → Node P) : n.modify n.id f = f n := by
  cases n <;> simp [modify, id]

theorem modify_element_of_ne {x i : NodeId} (h : i ≠ x) (f : Node P → Node P) (tag : String)
    (as : List (Attribute P)) (cs : List (Node P)) :
    (element i tag as cs).modify x f = element i tag as (cs.map (modify x f)) := by
  rw [modify, if_neg h, modifyForest_eq_map]

theorem modify_of_not_mem {x : NodeId} {n : Node P} (h : x ∉ n.ids) (f : Node P → Node P) :
    n.modify x f = n := by
  induction n with
  | element i tag as cs ih =>
    rw [ids_element, List.mem_cons, not_or] at h
    rw [modify_element_of_ne (Ne.symm h.1)]
    congr 1
    refine (List.map_congr_left fun c hc => ?_).trans (List.map_id cs)
    exact ih c hc fun hx => h.2 (List.mem_flatMap.mpr ⟨c, hc, hx⟩)
  | text i s =>
    rw [ids_text, List.mem_singleton] at h
    rw [modify, if_neg (Ne.symm h)]

theorem id_modify (x : NodeId) {f : Node P → Node P} (hf : ∀ m : Node P, (f m).id = m.id)
    (n : Node P) : (n.modify x f).id = n.id := by
  cases n with
  | element i tag as cs =>
    rw [modify]
    split
    · exact hf _
    · rfl
  | text i s =>
    rw [modify]
    split
    · exact hf _
    · rfl

theorem map_modify_of_not_mem {x : NodeId} {cs : List (Node P)} (h : x ∉ cs.flatMap ids)
    (f : Node P → Node P) : cs.map (modify x f) = cs := by
  refine (List.map_congr_left fun c hc => ?_).trans (List.map_id cs)
  exact modify_of_not_mem (fun hx => h (List.mem_flatMap.mpr ⟨c, hc, hx⟩)) f

theorem map_modify (x : NodeId) (f : P → Q) (g : Node P → Node P) (k : Node Q → Node Q)
    (h : ∀ n : Node P, (g n).map f = k (n.map f)) (n : Node P) :
    (n.modify x g).map f = (n.map f).modify x k := by
  induction n with
  | element i tag as cs ih =>
    by_cases hi : i = x
    · rw [modify, if_pos hi, h, map_element, modify, if_pos hi]
    · rw [modify_element_of_ne hi, map_element, map_element, modify_element_of_ne hi, List.map_map,
        List.map_map]
      congr 1
      exact List.map_congr_left ih
  | text i s =>
    by_cases hi : i = x
    · rw [modify, if_pos hi, h, map, modify, if_pos hi]
    · rw [modify, if_neg hi, map, modify, if_neg hi]

end Node

/-! ### Contexts -/

/-- A tree in which one node was cut out. -/
inductive Context (P : Type) where
  | hole
  | under (id : NodeId) (tag : String) (attributes : List (Attribute P)) (before : List (Node P))
      (inner : Context P) (after : List (Node P))

namespace Context

variable {P : Type}

/-- The tree with `n` in the hole. -/
def plug : Context P → Node P → Node P
  | hole, n => n
  | under i tag as before inner after, n => .element i tag as (before ++ inner.plug n :: after)

def ids : Context P → List NodeId
  | hole => []
  | under i _ _ before inner after =>
    i :: (before.flatMap Node.ids ++ inner.ids ++ after.flatMap Node.ids)

theorem exists_plug {n m : Node P} (h : m ∈ n.subtrees) : ∃ C : Context P, C.plug m = n := by
  induction n with
  | element i tag as cs ih =>
    rw [Node.subtrees_element, List.mem_cons] at h
    rcases h with rfl | h
    · exact ⟨hole, rfl⟩
    · obtain ⟨c, hc, hm⟩ := List.mem_flatMap.mp h
      obtain ⟨C, hC⟩ := ih c hc hm
      obtain ⟨before, after, rfl⟩ := List.append_of_mem hc
      exact ⟨under i tag as before C after, by rw [plug, hC]⟩
  | text i s =>
    rw [Node.subtrees_text, List.mem_singleton] at h
    exact ⟨hole, h⟩

theorem mem_subtrees_plug (C : Context P) (n : Node P) : n ∈ (C.plug n).subtrees := by
  induction C with
  | hole => exact Node.self_mem_subtrees n
  | under i tag as before inner after ih => exact Node.mem_subtrees_of_mem (by simp) ih

theorem ids_plug (C : Context P) (n : Node P) : (C.plug n).ids.Perm (n.ids ++ C.ids) := by
  induction C with
  | hole => simp [plug, ids]
  | under i tag as before inner after ih =>
    rw [List.perm_iff_count] at ih ⊢
    intro x
    have h := ih x
    simp only [plug, ids, Node.ids_element, List.flatMap_append, List.flatMap_cons,
      List.count_cons, List.count_append] at h ⊢
    omega

theorem modify_plug {C : Context P} {n : Node P} (h : n.id ∉ C.ids) (f : Node P → Node P) :
    (C.plug n).modify n.id f = C.plug (f n) := by
  induction C with
  | hole => exact Node.modify_of_id_eq n f
  | under i tag as before inner after ih =>
    simp only [ids, List.mem_cons, List.mem_append, not_or] at h
    obtain ⟨hi, ⟨hb, hn⟩, ha⟩ := h
    rw [plug, Node.modify_element_of_ne (Ne.symm hi), List.map_append, List.map_cons, ih hn,
      Node.map_modify_of_not_mem hb, Node.map_modify_of_not_mem ha, plug]

theorem not_mem_ids_of_nodup {C : Context P} {n : Node P} (h : (C.plug n).ids.Nodup) {x : NodeId}
    (hx : x ∈ n.ids) : x ∉ C.ids := by
  have hd := (List.Perm.nodup_iff (C.ids_plug n)).mp h
  exact fun hc => List.disjoint_of_nodup_append hd hx hc

end Context

/-- In a tree without repeated identities, a change of a node happens in its context. -/
theorem Node.exists_context {P : Type} {t n : Node P} (hn : n ∈ t.subtrees) (ht : t.ids.Nodup) :
    ∃ C : Context P, C.plug n = t ∧ ∀ f : Node P → Node P, t.modify n.id f = C.plug (f n) := by
  obtain ⟨C, rfl⟩ := Context.exists_plug hn
  exact ⟨C, rfl, Context.modify_plug (Context.not_mem_ids_of_nodup ht n.id_mem_ids)⟩

theorem Node.nodup_ids_of_mem {P : Type} {n m : Node P} (h : n.ids.Nodup) (hm : m ∈ n.subtrees) :
    m.ids.Nodup := by
  obtain ⟨C, rfl⟩ := Context.exists_plug hm
  exact ((C.ids_plug m).nodup_iff.mp h).of_append_left

theorem Node.nodup_children {P : Type} {n : Node P} (h : n.ids.Nodup) :
    (n.children.map Node.id).Nodup := by
  cases n with
  | element i tag as cs =>
    rw [Node.ids_element] at h
    exact (List.nodup_cons.mp h).2.sublist (Node.map_id_sublist cs)
  | text i s => exact List.nodup_nil

theorem Node.eq_of_id_eq {P : Type} {t n m : Node P} (ht : t.ids.Nodup) (hn : n ∈ t.subtrees)
    (hm : m ∈ t.subtrees) (h : n.id = m.id) : n = m := by
  rw [Node.ids_eq_map_subtrees] at ht
  exact List.inj_on_of_nodup_map ht hn hm h

end ViewLoop
