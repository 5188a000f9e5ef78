import Mathlib.Data.List.Nodup
import Mathlib.Data.List.Perm.Basic
import ViewLoop.Node

/-!
# Subtrees

`Node.subtrees` lists every node of a tree with all below it, in pre-order. Identities, handlers
and changes of payloads are read off it, and a fact about every node of a tree is a fact about
every member of this list.
-/

namespace ViewLoop

namespace Node

variable {P Q : Type}

/-! ### Induction -/

@[elab_as_elim, induction_eliminator]
theorem induct {motive : Node P → Prop}
    (element : ∀ id tag attributes children, (∀ c ∈ children, motive c) →
      motive (.element id tag attributes children))
    (text : ∀ id s, motive (.text id s)) (n : Node P) : motive n :=
  @Node.rec P motive (fun cs => ∀ c ∈ cs, motive c) element text (fun _ h => nomatch h)
    (fun _ _ hc hcs => List.forall_mem_cons.mpr ⟨hc, hcs⟩) n

/-! ### Readings of an element -/

theorem id_element (i : NodeId) (tag : String) (as : List (Attribute P)) (cs : List (Node P)) :
    (element i tag as cs).id = i := rfl

theorem children_element (i : NodeId) (tag : String) (as : List (Attribute P))
    (cs : List (Node P)) : (element i tag as cs).children = cs := rfl

theorem ids_element (i : NodeId) (tag : String) (as : List (Attribute P)) (cs : List (Node P)) :
    (element i tag as cs).ids = i :: cs.flatMap ids := by
  rw [ids, forestIds_eq_flatMap]

theorem handlers_element (i : NodeId) (tag : String) (as : List (Attribute P))
    (cs : List (Node P)) :
    (element i tag as cs).handlers
      = (as.filterMap Attribute.handler?).map (i, ·) ++ cs.flatMap handlers := by
  rw [handlers, forestHandlers_eq_flatMap]

theorem map_element (f : P → Q) (i : NodeId) (tag : String) (as : List (Attribute P))
    (cs : List (Node P)) :
    (element i tag as cs).map f = element i tag (as.map (Attribute.map f)) (cs.map (map f)) := by
  rw [map, mapForest_eq_map]

@[simp] theorem ids_text (i : NodeId) (s : String) : (text i s : Node P).ids = [i] := rfl

/-! ### Subtrees -/

mutual

/-- Every node of a tree in pre-order, each with all below it. -/
def subtrees : Node P → List (Node P)
  | element id tag attributes children =>
    element id tag attributes children :: forestSubtrees children
  | text id s => [text id s]

def forestSubtrees : List (Node P) → List (Node P)
  | [] => []
  | c :: cs => c.subtrees ++ forestSubtrees cs

end

theorem forestSubtrees_eq_flatMap (cs : List (Node P)) :
    forestSubtrees cs = cs.flatMap subtrees := by
  induction cs with
  | nil => rfl
  | cons c cs ih => simp only [forestSubtrees, List.flatMap_cons, ih]

theorem subtrees_element (i : NodeId) (tag : String) (as : List (Attribute P))
    (cs : List (Node P)) :
    (element i tag as cs).subtrees = element i tag as cs :: cs.flatMap subtrees := by
  rw [subtrees, forestSubtrees_eq_flatMap]

@[simp] theorem subtrees_text (i : NodeId) (s : String) :
    (text i s : Node P).subtrees = [text i s] := rfl

@[simp] theorem self_mem_subtrees (n : Node P) : n ∈ n.subtrees := by
  cases n <;> simp [subtrees]

theorem mem_subtrees_of_mem {i : NodeId} {tag : String} {as : List (Attribute P)}
    {cs : List (Node P)} {c n : Node P} (hc : c ∈ cs) (hn : n ∈ c.subtrees) :
    n ∈ (element i tag as cs).subtrees := by
  rw [subtrees_element]
  exact List.mem_cons_of_mem _ (List.mem_flatMap.mpr ⟨c, hc, hn⟩)

theorem mem_subtrees_iff {n m : Node P} :
    m ∈ n.subtrees ↔ m = n ∨ ∃ c ∈ n.children, m ∈ c.subtrees := by
  cases n with
  | element i tag as cs => simp [subtrees_element, children]
  | text i s => simp [children]

theorem ids_eq_map_subtrees (n : Node P) : n.ids = n.subtrees.map id := by
  induction n with
  | element i tag as cs ih =>
    rw [ids_element, subtrees_element, List.map_cons, List.map_flatMap]
    congr 1
    exact List.flatMap_congr ih
  | text i s => rfl

theorem handlers_eq_flatMap_subtrees (n : Node P) :
    n.handlers
      = n.subtrees.flatMap fun m => (m.attributes.filterMap Attribute.handler?).map (m.id, ·) := by
  induction n with
  | element i tag as cs ih =>
    rw [handlers_element, subtrees_element, List.flatMap_cons, List.flatMap_assoc]
    congr 1
    exact List.flatMap_congr ih
  | text i s => rfl

theorem mem_ids_iff {n : Node P} {x : NodeId} : x ∈ n.ids ↔ ∃ m ∈ n.subtrees, m.id = x := by
  rw [ids_eq_map_subtrees, List.mem_map]

theorem mem_handlers_iff {n : Node P} {w : NodeId} {h : Handler P} :
    (w, h) ∈ n.handlers ↔ ∃ m ∈ n.subtrees, m.id = w ∧ .handler h ∈ m.attributes := by
  rw [handlers_eq_flatMap_subtrees, List.mem_flatMap]
  have key : ∀ m : Node P,
      (w, h) ∈ (m.attributes.filterMap Attribute.handler?).map (m.id, ·)
        ↔ m.id = w ∧ .handler h ∈ m.attributes := by
    intro m
    simp only [List.mem_map, List.mem_filterMap, Prod.mk.injEq]
    constructor
    · rintro ⟨h', ⟨a, ha, hh⟩, hw, rfl⟩
      cases a with
      | plain => exact absurd hh (by simp [Attribute.handler?])
      | handler k =>
        rw [Attribute.handler?, Option.some.injEq] at hh
        exact ⟨hw, hh ▸ ha⟩
    · rintro ⟨hw, ha⟩
      exact ⟨h, ⟨_, ha, rfl⟩, hw, rfl⟩
  exact exists_congr fun m => and_congr_right fun _ => key m

theorem mem_subtrees_trans {n m x : Node P} (hm : m ∈ n.subtrees) (hx : x ∈ m.subtrees) :
    x ∈ n.subtrees := by
  induction n with
  | element i tag as cs ih =>
    rw [subtrees_element, List.mem_cons] at hm
    rcases hm with rfl | hm
    · exact hx
    · obtain ⟨c, hc, hmc⟩ := List.mem_flatMap.mp hm
      exact mem_subtrees_of_mem hc (ih c hc hmc)
  | text i s =>
    rw [subtrees_text, List.mem_singleton] at hm
    exact hm ▸ hx

theorem mem_subtrees_of_mem_children {n m c : Node P} (hm : m ∈ n.subtrees)
    (hc : c ∈ m.children) : c ∈ n.subtrees :=
  mem_subtrees_trans hm (mem_subtrees_iff.mpr (Or.inr ⟨c, hc, self_mem_subtrees c⟩))

theorem ids_subset_of_mem {n m : Node P} (hm : m ∈ n.subtrees) : m.ids ⊆ n.ids := by
  intro x hx
  obtain ⟨y, hy, rfl⟩ := mem_ids_iff.mp hx
  exact mem_ids_iff.mpr ⟨y, mem_subtrees_trans hm hy, rfl⟩

theorem handlers_subset_of_mem {n m : Node P} (hm : m ∈ n.subtrees) :
    m.handlers ⊆ n.handlers := by
  rintro ⟨w, h⟩ hx
  obtain ⟨y, hy, hh⟩ := mem_handlers_iff.mp hx
  exact mem_handlers_iff.mpr ⟨y, mem_subtrees_trans hm hy, hh⟩

theorem map_id_sublist (cs : List (Node P)) : (cs.map id).Sublist (cs.flatMap ids) := by
  induction cs with
  | nil => exact .slnil
  | cons c cs ih =>
    rw [List.map_cons, List.flatMap_cons]
    have hc : [c.id].Sublist c.ids := List.singleton_sublist.mpr c.id_mem_ids
    exact hc.append ih

/-! ### Payloads -/

theorem ids_map (f : P → Q) (n : Node P) : (n.map f).ids = n.ids := by
  induction n with
  | element i tag as cs ih =>
    rw [map_element, ids_element, ids_element, List.flatMap_map]
    congr 1
    exact List.flatMap_congr ih
  | text i s => rfl

theorem subtrees_map (f : P → Q) (n : Node P) : (n.map f).subtrees = n.subtrees.map (map f) := by
  induction n with
  | element i tag as cs ih =>
    rw [map_element, subtrees_element, subtrees_element, List.map_cons, map_element,
      List.flatMap_map, List.map_flatMap]
    congr 1
    exact List.flatMap_congr ih
  | text i s => rfl

@[simp] theorem isText_map (f : P → Q) (n : Node P) : (n.map f).isText = n.isText := by
  cases n <;> rfl

theorem children_map (f : P → Q) (n : Node P) : (n.map f).children = n.children.map (map f) := by
  cases n with
  | element i tag as cs => rw [map_element]; rfl
  | text i s => rfl

theorem attributes_map (f : P → Q) (n : Node P) :
    (n.map f).attributes = n.attributes.map (Attribute.map f) := by
  cases n with
  | element i tag as cs => rw [map_element]; rfl
  | text i s => rfl

end Node

end ViewLoop
