import ViewLoop.Proofs.Course
import ViewLoop.Proofs.Matching
import ViewLoop.Proofs.Staying

/-!
# Revisions

A `Revision` is a tidy tree that is to take the place of another tidy tree of the same identity.
Its handlers are retained: a handler identity that was known before sits on the node that is
changed in place, and for the same event. So the parts of a revision keep out of each other's way:
what is known belongs to the part it belonged to before, and what is not is new in one place
(`Slot.disjoint`).
-/

namespace ViewLoop

variable {P : Type} {w : Bool}

/-! ### Tidy trees -/

namespace Node

/-- A tree with assigned and distinct identities, whose elements have each attribute key once and
show their own identity if they show any. -/
structure Tidy (n : Node P) : Prop where
  assigned : ∀ x ∈ n.ids, x.isAssigned = true
  nodup : n.ids.Nodup
  keys : ∀ m ∈ n.subtrees, (m.attributes.map Attribute.key).Nodup
  identity : ∀ m ∈ n.subtrees, ∀ a ∈ m.attributes, a.isIdentity = true → a = .identity m.id

theorem map_eq_identity_iff {Q : Type} (f : P → Q) {a : Attribute P} {i : NodeId} :
    a.map f = .identity i ↔ a = .identity i := by
  cases a <;> simp [Attribute.map, Attribute.identity]

instance (n : Node P) : Decidable n.Tidy :=
  decidable_of_iff ((∀ x ∈ n.ids, x.isAssigned = true) ∧ n.ids.Nodup
      ∧ (∀ m ∈ n.subtrees, (m.attributes.map Attribute.key).Nodup)
      ∧ ∀ m ∈ n.subtrees, ∀ a ∈ m.attributes, a.isIdentity = true →
        a.map (fun _ => ()) = .identity m.id)
    ⟨fun h => ⟨h.1, h.2.1, h.2.2.1, fun m hm a ha hi =>
        (map_eq_identity_iff _).mp (h.2.2.2 m hm a ha hi)⟩,
      fun h => ⟨h.assigned, h.nodup, h.keys, fun m hm a ha hi =>
        (map_eq_identity_iff _).mpr (h.identity m hm a ha hi)⟩⟩

theorem nodup_marks_of_mem {n m : Node P} (h : (n.marks w).Nodup) (hm : m ∈ n.subtrees) :
    (m.marks w).Nodup := by
  obtain ⟨C, rfl⟩ := Context.exists_plug hm
  exact ((C.marks_plug m).nodup_iff.mp h).of_append_left

theorem Tidy.of_mem {n m : Node P} (h : n.Tidy) (hm : m ∈ n.subtrees) : m.Tidy :=
  ⟨fun x hx => h.assigned x (ids_subset_of_mem hm hx), nodup_ids_of_mem h.nodup hm,
    fun k hk => h.keys k (mem_subtrees_trans hm hk),
    fun k hk => h.identity k (mem_subtrees_trans hm hk)⟩

theorem mem_subtrees_child (i : NodeId) (tag : String) (as : List (Attribute P))
    {cs : List (Node P)} {c : Node P} (h : c ∈ cs) : c ∈ (element i tag as cs).subtrees :=
  mem_subtrees_of_mem h c.self_mem_subtrees

/-! ### Retained handlers -/

/-- Known handler identities of the second tree are those of the nodes that are changed in place,
for the same events. -/
inductive Retains (known : HandlerId → Prop) : Node P → Node P → Prop
  | apart {o n : Node P} (fresh : ∀ k ∈ n.handlers, ¬known k.2.id) : Retains known o n
  | inPlace {i : NodeId} {tag : String} {as bs : List (Attribute P)} {cs ds : List (Node P)}
      (own : ∀ k, .handler k ∈ bs → known k.id →
        ∃ j, .handler j ∈ as ∧ j.id = k.id ∧ j.event = k.event)
      (below : ∀ c ∈ cs, ∀ d ∈ ds, c.id = d.id → Retains known c d)
      (fresh : ∀ d ∈ ds, d.id ∉ cs.map id → ∀ k ∈ d.handlers, ¬known k.2.id) :
      Retains known (element i tag as cs) (element i tag bs ds)

variable {known : HandlerId → Prop}

/-- A known handler sits where it sat before, on a node that stays. -/
theorem Retains.stays {o n : Node P} (h : Retains known o n) {k : NodeId × Handler P}
    (hk : k ∈ n.handlers) (hknown : known k.2.id) :
    ∃ a b, Stays o n a b ∧ b.id = k.1
      ∧ ∃ j, .handler j ∈ a.attributes ∧ j.id = k.2.id ∧ j.event = k.2.event := by
  induction h with
  | apart fresh => exact absurd hknown (fresh k hk)
  | @inPlace i tag as bs cs ds own below fresh ih =>
    obtain ⟨m, hm, hid, ha⟩ := mem_handlers_iff.mp hk
    rw [subtrees_element, List.mem_cons] at hm
    rcases hm with rfl | hm
    · exact ⟨_, _, .root rfl rfl, hid, own k.2 ha hknown⟩
    · obtain ⟨d, hd, hmd⟩ := List.mem_flatMap.mp hm
      have hkd : k ∈ d.handlers := mem_handlers_iff.mpr ⟨m, hmd, hid, ha⟩
      by_cases hc : d.id ∈ cs.map id
      · obtain ⟨c, hc, hcd⟩ := List.mem_map.mp hc
        obtain ⟨a, b, hstays, hrest⟩ := ih c hc d hd hcd hkd
        exact ⟨a, b, .under ⟨rfl, rfl⟩ hc hd hstays, hrest⟩
      · exact absurd hknown (fresh d hd hc k hkd)

theorem Retains.exists_old {o n : Node P} (h : Retains known o n) {k : NodeId × Handler P}
    (hk : k ∈ n.handlers) (hknown : known k.2.id) :
    ∃ j ∈ o.handlers, j.2.id = k.2.id ∧ j.1 = k.1 ∧ j.2.event = k.2.event := by
  obtain ⟨a, b, hstays, hid, j, hj, hjid, hev⟩ := h.stays hk hknown
  exact ⟨(a.id, j), mem_handlers_iff.mpr ⟨a, hstays.mem_old, rfl, hj⟩, hjid, hstays.id_eq.trans hid,
    hev⟩

section Element

variable {i j : NodeId} {tag other : String} {as bs : List (Attribute P)} {cs ds : List (Node P)}

theorem Retains.child (h : Retains known (element i tag as cs) (element j other bs ds))
    {c d : Node P} (hc : c ∈ cs) (hd : d ∈ ds) (hid : c.id = d.id) : Retains known c d := by
  cases h with
  | apart fresh =>
    exact .apart fun k hk => fresh k (handlers_subset_of_mem (mem_subtrees_child _ _ _ hd) hk)
  | inPlace own below fresh => exact below c hc d hd hid

theorem Retains.attribute (h : Retains known (element i tag as cs) (element j other bs ds))
    {k : Handler P} (hk : .handler k ∈ bs) (hknown : known k.id) :
    ∃ l, .handler l ∈ as ∧ l.id = k.id ∧ l.event = k.event := by
  cases h with
  | apart fresh =>
    exact absurd hknown (fresh (j, k) (mem_handlers_iff.mpr ⟨_, self_mem_subtrees _, rfl, hk⟩))
  | inPlace own below fresh => exact own k hk hknown

end Element

end Node

/-! ### Slots -/

/-- A mark that was there before. -/
def Mark.Known (known : HandlerId → Prop) : Mark → Prop
  | node _ => True
  | handler h => known h

/-- Marks of a part of an old tree and of the part of the new tree that takes its place. -/
structure Slot (known : HandlerId → Prop) (old new : List Mark) : Prop where
  known_old : ∀ x ∈ old, x.Known known
  retained : ∀ x ∈ new, x.Known known → x ∈ old

theorem Slot.disjoint {known : HandlerId → Prop} {old new old' new' : List Mark}
    (h : Slot known old new) (h' : Slot known old' new') (hold : ∀ x ∈ old, x ∉ old')
    (hnew : ∀ x ∈ new, x ∉ new') {x : Mark} (hx : x ∈ old ∨ x ∈ new) :
    ¬(x ∈ old' ∨ x ∈ new') := by
  by_cases hk : x.Known known
  · have hxo : x ∈ old := hx.elim (fun hx => hx) fun hx => h.retained x hx hk
    rintro (hx' | hx')
    · exact hold x hxo hx'
    · exact hold x hxo (h'.retained x hx' hk)
  · have hxn : x ∈ new := hx.elim (fun hx => absurd (h.known_old x hx) hk) fun hx => hx
    rintro (hx' | hx')
    · exact hk (h'.known_old x hx')
    · exact hnew x hxn hx'

/-! ### Revisions -/

/-- A tree that is to take the place of another one. `live` holds the identities that are live at
the end. -/
structure Revision (watched : Bool) (known : HandlerId → Prop) (live : List NodeId)
    (old new : Node P) : Prop where
  oldTidy : old.Tidy
  newTidy : new.Tidy
  oldMarks : (old.marks watched).Nodup
  newMarks : (new.marks watched).Nodup
  known_old : ∀ k ∈ old.handlers, watched = true → known k.2.id
  retains : watched = true → Node.Retains known old new
  live_new : new.ids ⊆ live
  id_eq : old.id = new.id

namespace Revision

variable {known : HandlerId → Prop} {live : List NodeId} {o n : Node P}

theorem known_of_mem (h : Revision w known live o n) {x : Mark} (hx : x ∈ o.handlerMarks w) :
    x.Known known := by
  obtain ⟨hx, hh⟩ := Node.mem_handlerMarks_iff.mp hx
  cases x with
  | node y => exact absurd hh (by simp [Mark.isHandler])
  | handler y =>
    obtain ⟨hw, k, hk, rfl⟩ := Node.handler_mem_marks_iff.mp hx
    exact h.known_old k hk hw

theorem slot (h : Revision w known live o n) :
    Slot known (o.handlerMarks w) (n.handlerMarks w) := by
  refine ⟨fun x hx => h.known_of_mem hx, fun x hx hknown => ?_⟩
  obtain ⟨hx, hh⟩ := Node.mem_handlerMarks_iff.mp hx
  refine Node.mem_handlerMarks_iff.mpr ⟨?_, hh⟩
  cases x with
  | node y => exact absurd hh (by simp [Mark.isHandler])
  | handler y =>
    obtain ⟨hw, k, hk, rfl⟩ := Node.handler_mem_marks_iff.mp hx
    obtain ⟨j, hj, hid, -⟩ := (h.retains hw).exists_old hk hknown
    exact Node.handler_mem_marks_iff.mpr ⟨hw, j, hj, hid⟩

section Element

variable {i : NodeId} {tag : String} {as bs : List (Attribute P)} {cs ds : List (Node P)}

theorem child (h : Revision w known live (.element i tag as cs) (.element i tag bs ds))
    {c d : Node P} (hc : c ∈ cs) (hd : d ∈ ds) (hid : c.id = d.id) :
    Revision w known live c d := by
  have hcs := Node.mem_subtrees_child i tag as hc
  have hds := Node.mem_subtrees_child i tag bs hd
  exact ⟨h.oldTidy.of_mem hcs, h.newTidy.of_mem hds, Node.nodup_marks_of_mem h.oldMarks hcs,
    Node.nodup_marks_of_mem h.newMarks hds,
    fun k hk => h.known_old k (Node.handlers_subset_of_mem hcs hk),
    fun hw => (h.retains hw).child hc hd hid,
    fun x hx => h.live_new (Node.ids_subset_of_mem hds hx), hid⟩

/-- The marks of the attributes of an element before and after. -/
theorem ownSlot (h : Revision w known live (.element i tag as cs) (.element i tag bs ds)) :
    Slot known (as.flatMap (Attribute.marks w)) (bs.flatMap (Attribute.marks w)) := by
  refine ⟨fun x hx => ?_, fun x hx hknown => ?_⟩
  · obtain ⟨a, ha, hxa⟩ := List.mem_flatMap.mp hx
    cases x with
    | node y => exact trivial
    | handler y =>
      obtain ⟨hw, k, rfl, rfl⟩ := Node.handler_mem_attribute_marks_iff.mp hxa
      exact h.known_old (i, k) (Node.mem_handlers_iff.mpr ⟨_, Node.self_mem_subtrees _, rfl, ha⟩) hw
  · obtain ⟨b, hb, hxb⟩ := List.mem_flatMap.mp hx
    cases x with
    | node y => exact absurd hxb (Node.node_not_mem_attribute_marks b y)
    | handler y =>
      obtain ⟨hw, k, rfl, rfl⟩ := Node.handler_mem_attribute_marks_iff.mp hxb
      obtain ⟨l, hl, hid, -⟩ := (h.retains hw).attribute hb hknown
      refine List.mem_flatMap.mpr ⟨_, hl, ?_⟩
      exact Node.handler_mem_attribute_marks_iff.mpr ⟨hw, l, rfl, hid⟩

end Element

end Revision

end ViewLoop
