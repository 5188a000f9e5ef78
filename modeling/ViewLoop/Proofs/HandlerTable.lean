import ViewLoop.Proofs.AlignedAttributes
import ViewLoop.Proofs.RoundTrip
import ViewLoop.Proofs.Turnover
import ViewLoop.Scene

/-!
# The handler table and the surface

A table holds the handlers of a tree if it finds each of them, and nothing else, under its identity
(`Registry.Holds`). A scene is sound if whatever its table finds listens on a live element of its
surface (`Scene.Sound`). A scene that mirrors a tree and whose table holds nothing but handlers of
that tree, whatever their payloads, is sound (`Scene.Backed.sound`).
-/

namespace ViewLoop

variable {P : Type}

namespace Node

theorem handler_eq_of_id_eq {n : Node P} (hn : (n.marks true).Nodup) {k l : NodeId × Handler P}
    (hk : k ∈ n.handlers) (hl : l ∈ n.handlers) (hid : k.2.id = l.2.id) : k = l :=
  List.inj_on_of_nodup_map (nodup_marks_iff.mp hn).2 hk hl hid

theorem Labelled.of_alike {n m : Node P} (h : n.Labelled) (ha : n.Alike m) : m.Labelled := by
  intro x hx
  obtain ⟨y, hy, hxy⟩ := ha.symm.exists_subtree hx
  exact (hxy.attributes_perm.map Attribute.key).nodup_iff.mpr (h y hy)

theorem mem_handlers_map {Q : Type} (f : P → Q) {n : Node P} {e : NodeId} {h : Handler P}
    (hk : (e, h) ∈ n.handlers) : (e, h.map f) ∈ (n.map f).handlers := by
  obtain ⟨m, hm, rfl, ha⟩ := mem_handlers_iff.mp hk
  refine mem_handlers_iff.mpr ⟨m.map f, ?_, id_map f m, ?_⟩
  · rw [subtrees_map]
    exact List.mem_map_of_mem hm
  · rw [attributes_map]
    exact List.mem_map.mpr ⟨_, ha, rfl⟩

end Node

/-! ### What the table holds -/

namespace Registry

variable {r : Registry P} {t : Node P}

/-- The table finds the handlers of the tree, each under its identity, and no other ones. -/
def Holds (r : Registry P) (t : Node P) : Prop :=
  ∀ id h, r.get? id = some h ↔ ∃ w, (w, h) ∈ t.handlers ∧ h.id = id

theorem Holds.of_alike {u : Node P} (h : r.Holds t) (ha : t.Alike u) : r.Holds u := by
  intro id k
  rw [h id k]
  exact exists_congr fun w => and_congr_left fun _ => ha.handlers_perm.mem_iff

/-- The handlers of the tree are those of the one before, but for one that has a new payload. -/
theorem Holds.replace {t' : Node P} (h : r.Holds t) (hn : (t'.marks true).Nodup) {x : NodeId}
    {j k : Handler P}
    (hturn : ∀ l, l ∈ t'.handlers ↔ (l ∈ t.handlers ∧ l.2.id ≠ j.id) ∨ l = (x, k))
    (hid : j.id = k.id) : (r.replace k).Holds t' := by
  have hknew : (x, k) ∈ t'.handlers := (hturn _).mpr (Or.inr rfl)
  intro id l
  rw [get?_replace]
  split
  · rename_i hidk
    subst hidk
    constructor
    · intro hl
      obtain rfl := Option.some.inj hl
      exact ⟨x, hknew, rfl⟩
    · rintro ⟨w, hw, hlk⟩
      exact congrArg some (congrArg Prod.snd (Node.handler_eq_of_id_eq hn hknew hw hlk.symm))
  · rename_i hidk
    rw [h]
    refine exists_congr fun w => and_congr_left ?_
    rintro rfl
    rw [hturn (w, l)]
    constructor
    · exact fun hw => Or.inl ⟨hw, fun e => hidk (e.trans hid)⟩
    · rintro (hw | hw)
      · exact hw.1
      · exact absurd (congrArg (fun q => q.2.id) hw) hidk

theorem handlers_unregisterTree (r : Registry P) (n : Node P) :
    (r.unregisterTree n).handlers = r.handlers.filter fun h => h.id ∉ n.handlerIds := by
  rw [unregisterTree, ← n.map_id_handlers]
  generalize n.handlers.map Prod.snd = hs
  induction hs generalizing r with
  | nil => simp
  | cons k hs ih =>
    rw [List.foldl_cons, ih, unregister, List.filter_filter]
    refine List.filter_congr fun h _ => Bool.eq_iff_iff.mpr ?_
    simp only [Bool.and_eq_true, decide_eq_true_eq, List.map_cons, List.mem_cons, not_or]
    exact and_comm

theorem get?_unregisterTree (r : Registry P) (n : Node P) (id : HandlerId) :
    (r.unregisterTree n).get? id = if id ∈ n.handlerIds then none else r.get? id := by
  have hfilter := get?_filter r (fun i => i ∉ n.handlerIds) id
  rw [← handlers_unregisterTree] at hfilter
  rw [hfilter]
  by_cases h : id ∈ n.handlerIds <;> simp [h]

/-- A handler that is found already, or whose identity is not taken, can be registered. -/
theorem register_eq [DecidableEq P] {h : Handler P}
    (hfree : ∀ j, r.get? h.id = some j → j = h) :
    ∃ r', r.register h = .ok r'
      ∧ ∀ id j, r'.get? id = some j ↔ r.get? id = some j ∨ h = j ∧ h.id = id := by
  cases hg : r.get? h.id with
  | none =>
    refine ⟨r.replace h, ?_, fun id j => ?_⟩
    · simp only [register, hg]
    · rw [get?_replace]
      split
      · rename_i hid
        subst hid
        simp [hg]
      · rename_i hid
        have hno : ¬(h = j ∧ h.id = id) := fun hh => hid hh.2.symm
        rw [or_iff_left hno]
  | some j =>
    obtain rfl := hfree j hg
    refine ⟨r, ?_, fun id k => ?_⟩
    · simp only [register, hg, if_pos]
    · refine ⟨Or.inl, fun hh => hh.elim (fun h => h) ?_⟩
      rintro ⟨rfl, rfl⟩
      exact hg

end Registry

/-! ### What listens on a surface -/

namespace Surface

variable {s : Surface} {t : Node P}

theorem Shows.listener? {u : Node Unit} (hs : s.Shows u) (hu : u.Labelled) {e : NodeId}
    {h : Handler Unit} (hk : (e, h) ∈ u.handlers) : s.listener? e h.event = some h.id := by
  obtain ⟨n, hn, rfl, ha⟩ := Node.mem_handlers_iff.mp hk
  obtain ⟨q, hq⟩ := Arena.get?_of_mem_subtrees hs.distinct hs.entries_subset hn
  cases n with
  | text i v => exact absurd ha List.not_mem_nil
  | element i tag as cs =>
    have hfind := Attribute.find?_event (Attribute.nodup_events (hu _ hn)) ha
    rw [Surface.listener?, hq]
    simp only [Option.map_some, Node.record, Node.content, Attribute.map_erased]
    rw [Node.attributes] at hfind
    rw [hfind, Option.map_some]

/-- On the surface, the handlers of a mirrored tree listen for their events. -/
theorem Mirrors.listener? (hs : s.Mirrors t) (ht : t.Labelled) {e : NodeId} {h : Handler P}
    (hk : (e, h) ∈ t.handlers) : s.listener? e h.event = some h.id := by
  obtain ⟨u, hu, halike⟩ := hs
  have hmem : (e, h.map fun _ => ()) ∈ t.erased.handlers := Node.mem_handlers_map _ hk
  have hlisten := hu.listener? ((ht.map _).of_alike halike.symm)
    (halike.handlers_perm.mem_iff.mpr hmem)
  exact hlisten

end Surface

/-! ### Sound scenes -/

namespace Scene

variable {s : Scene P} {t : Node P}

/-- Whatever the table finds listens for its event on a live element. -/
def Sound (s : Scene P) : Prop :=
  ∀ id h, s.table.get? id = some h → ∃ e, s.surface.listener? e h.event = some id

/-- The surface mirrors the tree, and the table finds handlers of the tree only, whatever their
payloads. -/
structure Backed (s : Scene P) (t : Node P) : Prop where
  mirrors : s.surface.Mirrors t
  labelled : t.Labelled
  bound : ∀ id h, s.table.get? id = some h →
    ∃ k ∈ t.handlers, k.2.id = id ∧ k.2.event = h.event

theorem Backed.sound (h : s.Backed t) : s.Sound := by
  intro id j hj
  obtain ⟨⟨e, k⟩, hk, rfl, hev⟩ := h.bound id j hj
  exact ⟨e, hev ▸ h.mirrors.listener? h.labelled hk⟩

/-- The surface mirrors the tree, and the table holds its handlers. -/
structure InStep (s : Scene P) (t : Node P) : Prop where
  mirrors : s.surface.Mirrors t
  labelled : t.Labelled
  marks : (t.marks true).Nodup
  holds : s.table.Holds t

theorem InStep.of_alike {u : Node P} (h : s.InStep t) (ha : t.Alike u) : s.InStep u :=
  ⟨h.mirrors.of_alike ha, h.labelled.of_alike ha, ha.marks_perm.nodup_iff.mp h.marks,
    h.holds.of_alike ha⟩

/-- Only the live nodes and the table matter. -/
theorem InStep.of_sameNodes {s' : Scene P} (h : s.InStep t)
    (hnodes : s.surface.SameNodes s'.surface) (htable : s'.table = s.table) : s'.InStep t := by
  obtain ⟨u, hu, halike⟩ := h.mirrors
  exact ⟨⟨u, hu.of_sameNodes hnodes, halike⟩, h.labelled, h.marks, htable ▸ h.holds⟩

theorem InStep.backed (h : s.InStep t) : s.Backed t := by
  refine ⟨h.mirrors, h.labelled, fun id j hj => ?_⟩
  obtain ⟨w, hw, hid⟩ := (h.holds id j).mp hj
  exact ⟨(w, j), hw, hid, rfl⟩

end Scene

end ViewLoop
