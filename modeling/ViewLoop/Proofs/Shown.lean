import ViewLoop.Proofs.ArenaTree
import ViewLoop.Surface

/-!
# What a surface shows

A surface shows a tree if its live nodes are the records of that tree. What is looked up on such a
surface is read off the tree, and the tree is what the surface gives back (`Shows.tree_eq`).
-/

namespace ViewLoop

/-! ### Running actions -/

section Running

variable {ε σ α β : Type} {s s' : σ} {e : ε}

theorem run_bind_of_ok {x : EStateM ε σ α} {a : α} (h : x.run s = .ok a s')
    (f : α → EStateM ε σ β) : (x >>= f).run s = (f a).run s' := by
  simp only [EStateM.run_bind, h]

theorem run_bind_of_error {x : EStateM ε σ α} (h : x.run s = .error e s')
    (f : α → EStateM ε σ β) : (x >>= f).run s = .error e s' := by
  simp only [EStateM.run_bind, h]

theorem exists_of_run_bind_eq_ok {x : EStateM ε σ α} {f : α → EStateM ε σ β} {b : β}
    (h : (x >>= f).run s = .ok b s') :
    ∃ a s₁, x.run s = .ok a s₁ ∧ (f a).run s₁ = .ok b s' := by
  cases hx : x.run s with
  | ok a s₁ => exact ⟨a, s₁, rfl, run_bind_of_ok hx f ▸ h⟩
  | error e s₁ =>
    rw [run_bind_of_error hx] at h
    exact nomatch h

theorem run_bind_congr {x y : EStateM ε σ α} {t : σ} (h : x.run s = y.run t)
    (f : α → EStateM ε σ β) : (x >>= f).run s = (y >>= f).run t := by
  simp only [EStateM.run_bind, h]

theorem run_forM_cons_of_ok {f : α → EStateM ε σ Unit} {a : α} (h : (f a).run s = .ok () s')
    (as : List α) : ((a :: as).forM f).run s = (as.forM f).run s' := run_bind_of_ok h _

theorem run_forM_append_of_ok {f : α → EStateM ε σ Unit} {as : List α}
    (h : (as.forM f).run s = .ok () s') (bs : List α) :
    ((as ++ bs).forM f).run s = (bs.forM f).run s' := by
  induction as generalizing s with
  | nil =>
    obtain ⟨-, rfl⟩ := EStateM.Result.ok.inj h
    rfl
  | cons a as ih =>
    cases ha : (f a).run s with
    | ok u s₁ =>
      rw [run_forM_cons_of_ok ha] at h
      rw [List.cons_append, run_forM_cons_of_ok ha]
      exact ih h
    | error e s₁ =>
      have herror : ((a :: as).forM f).run s = .error e s₁ := run_bind_of_error ha _
      rw [herror] at h
      exact nomatch h

theorem run_get_bind (f : σ → EStateM ε σ β) : (get >>= f).run s = (f s).run s := rfl

theorem run_throw : (throw e : EStateM ε σ α).run s = .error e s := rfl

theorem run_modify (f : σ → σ) : (modify f : EStateM ε σ Unit).run s = .ok () (f s) := rfl

theorem run_throw_bind (f : α → EStateM ε σ β) :
    ((throw e : EStateM ε σ α) >>= f).run s = .error e s := rfl

end Running

namespace Surface

variable {P : Type} {s : Surface} {t n : Node Unit}

theorem run_require_ok_bind {α β : Type} (a : α) (f : α → Edit β) :
    (require (.ok a) >>= f).run s = (f a).run s := rfl

theorem run_require_error_bind {α β : Type} (e : SurfaceError) (f : α → Edit β) :
    (require (.error e) >>= f).run s = .error e s := rfl

theorem run_modifyArena_bind {β : Type} (g : Arena → Arena) (f : Unit → Edit β) :
    (modifyArena g >>= f).run s = (f ()).run { s with arena := g s.arena } := rfl

theorem run_modifyArena (g : Arena → Arena) :
    (modifyArena g).run s = .ok () { s with arena := g s.arena } := rfl

/-! ### Showing a tree -/

/-- The live nodes of the surface are the records of `t`. -/
structure Shows (s : Surface) (t : Node Unit) : Prop where
  root : s.root = some t.id
  nodes : s.arena.nodes.Perm (t.entries none)
  nodup : t.ids.Nodup
  assigned : ∀ x ∈ t.ids, x.isAssigned = true

namespace Shows

theorem distinct (hs : s.Shows t) : s.arena.Distinct :=
  Arena.distinct_of_perm hs.nodes (Node.keys_entries none t ▸ hs.nodup)

theorem entries_subset (hs : s.Shows t) : t.entries none ⊆ s.arena.nodes :=
  fun _ h => hs.nodes.mem_iff.mpr h

theorem mem_keys_iff (hs : s.Shows t) {x : NodeId} :
    x ∈ s.arena.nodes.map Prod.fst ↔ x ∈ t.ids := by
  rw [(hs.nodes.map Prod.fst).mem_iff, Node.keys_entries]

theorem tree_eq (hs : s.Shows t) : s.tree = .ok t := by
  rw [tree, hs.root]
  simp only [Arena.tree?_eq hs.distinct hs.entries_subset hs.nodup]

theorem contains_iff (hs : s.Shows t) {x : NodeId} : s.contains x = true ↔ x ∈ t.ids := by
  rw [contains, Arena.contains_iff, hs.mem_keys_iff]

theorem assigned_of_mem (hs : s.Shows t) (hn : n ∈ t.subtrees) : n.id.isAssigned = true :=
  hs.assigned _ (Node.mem_ids_iff.mpr ⟨n, hn, rfl⟩)

theorem record_eq (hs : s.Shows t) (hn : n ∈ t.subtrees) :
    ∃ q, s.arena.record n.id = .ok (n.record q) := by
  obtain ⟨q, hq⟩ := Arena.get?_of_mem_subtrees hs.distinct hs.entries_subset hn
  exact ⟨q, Arena.record_eq_ok_iff.mpr ⟨hs.assigned_of_mem hn, hq⟩⟩

theorem record_error (hs : s.Shows t) {x : NodeId} (hx : x ∉ t.ids) :
    ∃ e, s.arena.record x = .error e := by
  cases h : s.arena.record x with
  | error e => exact ⟨e, rfl⟩
  | ok r =>
    obtain ⟨-, hget⟩ := Arena.record_eq_ok_iff.mp h
    have hmem := Arena.mem_of_get? hget
    exact absurd (hs.mem_keys_iff.mp (List.mem_map.mpr ⟨_, hmem, rfl⟩)) hx

theorem isText_content (n : Node P) : n.content.isText = n.isText := by
  cases n <;> rfl

theorem children_eq (hs : s.Shows t) (hn : n ∈ t.subtrees) (ht : n.isText = false) :
    s.arena.children n.id = .ok (n.children.map Node.id) := by
  obtain ⟨q, hq⟩ := hs.record_eq hn
  rw [Arena.children, hq]
  simp only [Node.record, isText_content, ht, Bool.false_eq_true, ↓reduceIte]

theorem children_of_text (hs : s.Shows t) (hn : n ∈ t.subtrees) (ht : n.isText = true) :
    s.arena.children n.id = .error (.invalidParent n.id) := by
  obtain ⟨q, hq⟩ := hs.record_eq hn
  rw [Arena.children, hq]
  simp only [Node.record, isText_content, ht, ↓reduceIte]

theorem children_error (hs : s.Shows t) {x : NodeId} (hx : x ∉ t.ids) :
    ∃ e, s.arena.children x = .error e := by
  obtain ⟨e, he⟩ := hs.record_error hx
  exact ⟨e, by rw [Arena.children, he]⟩

theorem attributes_eq (hs : s.Shows t) (hn : n ∈ t.subtrees) (ht : n.isText = false) :
    s.arena.attributes n.id = .ok n.attributes := by
  obtain ⟨q, hq⟩ := hs.record_eq hn
  rw [Arena.attributes, hq]
  cases n with
  | element i tag as cs =>
    simp only [Node.record, Node.content, Attribute.map_erased, Node.attributes]
  | text i u => exact absurd ht (by simp [Node.isText])

theorem attributes_of_text (hs : s.Shows t) (hn : n ∈ t.subtrees) (ht : n.isText = true) :
    s.arena.attributes n.id = .error (.wrongNodeKind n.id) := by
  obtain ⟨q, hq⟩ := hs.record_eq hn
  rw [Arena.attributes, hq]
  cases n with
  | element i tag as cs => exact absurd ht (by simp [Node.isText])
  | text i u => rfl

theorem attributes_error (hs : s.Shows t) {x : NodeId} (hx : x ∉ t.ids) :
    ∃ e, s.arena.attributes x = .error e := by
  obtain ⟨e, he⟩ := hs.record_error hx
  exact ⟨e, by rw [Arena.attributes, he]⟩

theorem position_eq (hs : s.Shows t) (hn : n ∈ t.subtrees) {x : NodeId} :
    s.arena.position n.id x
      = if x ∈ n.children.map Node.id then .ok ((n.children.map Node.id).idxOf x)
        else .error (.invalidSibling n.id x) := by
  obtain ⟨q, hq⟩ := hs.record_eq hn
  rw [Arena.position, hq]
  rfl

theorem position_error (hs : s.Shows t) {x y : NodeId} (hx : x ∉ t.ids) :
    ∃ e, s.arena.position x y = .error e := by
  obtain ⟨e, he⟩ := hs.record_error hx
  exact ⟨e, by rw [Arena.position, he]⟩

/-- The records of a node stand beside those of its context. -/
theorem nodes_plug {C : Context Unit} (hs : s.Shows (C.plug n)) :
    s.arena.nodes.Perm (n.entries (C.parent none) ++ C.entries none n.id) :=
  hs.nodes.trans (C.entries_plug n none)

theorem nodes_element {C : Context Unit} (hs : s.Shows (C.plug n)) :
    s.arena.nodes.Perm ((n.id, n.record (C.parent none))
      :: (n.children.flatMap (Node.entries (some n.id)) ++ C.entries none n.id)) := by
  have h := hs.nodes_plug
  rwa [Node.entries_eq, List.cons_append] at h

/-- Another node with the same identity may take the place of a node. -/
theorem plug {C : Context Unit} (hs : s.Shows (C.plug n)) {m : Node Unit} (hid : m.id = n.id)
    {a : Arena} (ha : a.nodes.Perm (m.entries (C.parent none) ++ C.entries none n.id))
    (hm : m.ids.Nodup) (hassigned : ∀ x ∈ m.ids, x.isAssigned = true)
    (hd : ∀ x ∈ m.ids, x ∉ C.ids) : Shows { s with arena := a } (C.plug m) := by
  have hids := C.ids_plug m
  have hold := C.ids_plug n
  refine ⟨?_, ?_, ?_, fun x hx => ?_⟩
  · rw [Context.id_plug, hid, ← Context.id_plug]
    exact hs.root
  · refine ha.trans ?_
    rw [← hid]
    exact (C.entries_plug m none).symm
  · refine hids.nodup_iff.mpr (List.nodup_append.mpr ⟨hm, ?_, ?_⟩)
    · exact (hold.nodup_iff.mp hs.nodup).of_append_right
    · exact fun x hx y hy hxy => hd x hx (hxy ▸ hy)
  · rcases List.mem_append.mp (hids.mem_iff.mp hx) with hx | hx
    · exact hassigned x hx
    · exact hs.assigned x (hold.mem_iff.mpr (List.mem_append_right _ hx))

end Shows

end Surface

end ViewLoop
