import ViewLoop.Proofs.Context
import ViewLoop.Surface.Arena

/-!
# The records of a tree

`Node.entries` lists the records under which an arena keeps a tree, with the links between them.
An arena holds a tree if its nodes are these entries in some order. What the operations of an arena
do is said of such lists: inserting a tree adds its entries, removing one takes them away and
changes one list of children.
-/

namespace ViewLoop

/-! ### Entries -/

namespace Node

variable {P Q : Type}

def record (parent : Option NodeId) (n : Node P) : NodeRecord :=
  ⟨n.content, parent, n.children.map id⟩

mutual

/-- The records of a tree below `parent`, in pre-order. -/
def entries (parent : Option NodeId) : Node P → List (NodeId × NodeRecord)
  | element i tag as cs => (i, (element i tag as cs).record parent) :: forestEntries (some i) cs
  | text i s => [(i, (text i s : Node P).record parent)]

def forestEntries (parent : Option NodeId) : List (Node P) → List (NodeId × NodeRecord)
  | [] => []
  | c :: cs => c.entries parent ++ forestEntries parent cs

end

theorem forestEntries_eq_flatMap (q : Option NodeId) (cs : List (Node P)) :
    forestEntries q cs = cs.flatMap (entries q) := by
  induction cs with
  | nil => rfl
  | cons c cs ih => simp only [forestEntries, List.flatMap_cons, ih]

theorem entries_eq (q : Option NodeId) (n : Node P) :
    n.entries q = (n.id, n.record q) :: n.children.flatMap (entries (some n.id)) := by
  cases n with
  | element i tag as cs => rw [entries, forestEntries_eq_flatMap]; rfl
  | text i s => rfl

theorem entries_element (q : Option NodeId) (i : NodeId) (tag : String) (as : List (Attribute P))
    (cs : List (Node P)) :
    (element i tag as cs).entries q
      = (i, ⟨.element tag (as.map Attribute.erased), q, cs.map id⟩)
        :: cs.flatMap (entries (some i)) := entries_eq q _

theorem keys_entries (q : Option NodeId) (n : Node P) : (n.entries q).map Prod.fst = n.ids := by
  induction n generalizing q with
  | element i tag as cs ih =>
    rw [entries_eq, List.map_cons, List.map_flatMap, ids_element]
    exact congrArg (i :: ·) (List.flatMap_congr fun c hc => ih c hc (some i))
  | text i s => rfl

theorem erased_map (f : P → Q) (a : Attribute P) : (a.map f).erased = a.erased := by
  cases a <;> rfl

theorem content_map (f : P → Q) (n : Node P) : (n.map f).content = n.content := by
  cases n with
  | element i tag as cs =>
    rw [map_element, content, content, List.map_map]
    exact congrArg _ (List.map_congr_left fun a _ => erased_map f a)
  | text i s => rfl

theorem entries_map (f : P → Q) (q : Option NodeId) (n : Node P) :
    (n.map f).entries q = n.entries q := by
  induction n generalizing q with
  | element i tag as cs ih =>
    have hr : ((element i tag as cs).map f).record q = (element i tag as cs).record q := by
      simp [record, content_map, children_map, Function.comp_def]
    rw [entries_eq, entries_eq, id_map, hr, children_map, List.flatMap_map]
    congr 1
    exact List.flatMap_congr fun c hc => ih c hc _
  | text i s => rfl

theorem entries_subset_of_mem {q : Option NodeId} {n m : Node P} (hm : m ∈ n.subtrees) :
    ∃ q', m.entries q' ⊆ n.entries q := by
  induction n generalizing q with
  | element i tag as cs ih =>
    rw [subtrees_element, List.mem_cons] at hm
    rcases hm with rfl | hm
    · exact ⟨q, List.Subset.refl _⟩
    · obtain ⟨c, hc, hmc⟩ := List.mem_flatMap.mp hm
      obtain ⟨q', hq⟩ := ih c hc (q := some i) hmc
      refine ⟨q', fun e he => ?_⟩
      rw [entries_eq]
      exact List.mem_cons_of_mem _ (List.mem_flatMap.mpr ⟨c, hc, hq he⟩)
  | text i s =>
    rw [subtrees_text, List.mem_singleton] at hm
    exact ⟨q, hm ▸ List.Subset.refl _⟩

theorem size_eq_length_ids (n : Node P) : n.size = n.ids.length := by
  have hf : ∀ cs : List (Node P), forestSize cs = (cs.map size).sum := by
    intro cs
    induction cs with
    | nil => rfl
    | cons c cs ih => rw [forestSize, ih, List.map_cons, List.sum_cons]
  induction n with
  | element i tag as cs ih =>
    rw [size, hf, ids_element, List.length_cons, List.length_flatMap, Nat.add_comm]
    exact congrArg (fun l : List Nat => l.sum + 1) (List.map_congr_left ih)
  | text i s => rfl

theorem size_lt_of_mem (i : NodeId) (tag : String) (as : List (Attribute P))
    {cs : List (Node P)} {c : Node P} (hc : c ∈ cs) : c.size < (element i tag as cs).size := by
  rw [size_eq_length_ids, size_eq_length_ids, ids_element, List.length_cons, Nat.lt_succ_iff]
  rw [List.flatMap_def]
  exact (List.sublist_flatten_of_mem (List.mem_map_of_mem hc)).length_le

end Node

namespace Context

variable {P : Type}

def parent (q : Option NodeId) : Context P → Option NodeId
  | hole => q
  | under i _ _ _ inner _ => inner.parent (some i)

/-- The identity of the root when the node in the hole has the identity `x`. -/
def rootId (x : NodeId) : Context P → NodeId
  | hole => x
  | under i _ _ _ _ _ => i

/-- The records around the hole when the node in it has the identity `x`. -/
def entries (q : Option NodeId) (x : NodeId) : Context P → List (NodeId × NodeRecord)
  | hole => []
  | under i tag as before inner after =>
    (i, ⟨.element tag (as.map Attribute.erased), q,
        before.map Node.id ++ inner.rootId x :: after.map Node.id⟩)
      :: (before.flatMap (Node.entries (some i)) ++ inner.entries (some i) x
        ++ after.flatMap (Node.entries (some i)))

theorem id_plug (C : Context P) (n : Node P) : (C.plug n).id = C.rootId n.id := by
  cases C <;> rfl

theorem entries_plug (C : Context P) (n : Node P) (q : Option NodeId) :
    ((C.plug n).entries q).Perm (n.entries (C.parent q) ++ C.entries q n.id) := by
  induction C generalizing q with
  | hole => simp [plug, entries, parent]
  | under i tag as before inner after ih =>
    have hi := ih (some i)
    rw [List.perm_iff_count] at hi ⊢
    intro e
    have h := hi e
    simp only [plug, parent, entries, Node.entries_element, List.map_append, List.map_cons, id_plug,
      List.flatMap_append, List.flatMap_cons, List.count_cons, List.count_append] at h ⊢
    omega

end Context

end ViewLoop
