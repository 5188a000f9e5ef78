import ViewLoop.Alignment
import ViewLoop.Proofs.Supply

/-!
# Aligned attributes

What alignment makes of the attributes of one element: handlers for events seen before are left
out, the identity attribute shows the element, and a handler has the identity of the previous one
for its event or a new one. All else stays (`Alignment.described_attributes`).
-/

namespace ViewLoop

def Attribute.plainName? {P : Type} : Attribute P → Option String
  | plain name _ => some name
  | handler _ => none

/-- The attribute without what depends on identities. -/
def Attribute.bare {P : Type} : Attribute P → Attribute P
  | plain name value => plain name (if name = identityName then "" else value)
  | handler h => handler { h with id := .invalid }

/-- The events that the attributes of an element listen for. -/
def Attribute.events {P : Type} (as : List (Attribute P)) : List String :=
  (as.filterMap handler?).map Handler.event

namespace Attribute

variable {P : Type} {as : List (Attribute P)}

theorem nodup_events (hk : (as.map key).Nodup) : (events as).Nodup := by
  induction as with
  | nil => exact List.nodup_nil
  | cons a as ih =>
    obtain ⟨ha, htail⟩ := List.nodup_cons.mp hk
    cases a with
    | plain name value => exact ih htail
    | handler h =>
      refine List.nodup_cons.mpr ⟨fun hm => ha ?_, ih htail⟩
      obtain ⟨k, hk, hev⟩ := List.mem_map.mp hm
      obtain ⟨b, hb, hbk⟩ := List.mem_filterMap.mp hk
      cases b with
      | plain name value => exact nomatch hbk
      | handler l =>
        obtain rfl : l = k := Option.some.inj hbk
        exact List.mem_map.mpr ⟨_, hb, congrArg AttributeKey.event hev⟩

theorem find?_event (he : (events as).Nodup) {h : Handler P} (hm : .handler h ∈ as) :
    (as.filterMap handler?).find? (fun j => j.event = h.event) = some h := by
  have hh : h ∈ as.filterMap handler? := List.mem_filterMap.mpr ⟨_, hm, rfl⟩
  cases hf : (as.filterMap handler?).find? fun j => j.event = h.event with
  | none => exact absurd (List.find?_eq_none.mp hf h hh) (by simp)
  | some j =>
    have hev : j.event = h.event := by simpa using List.find?_some hf
    exact congrArg some (List.inj_on_of_nodup_map he (List.mem_of_find?_eq_some hf) hh hev)

end Attribute

namespace Alignment

variable {P : Type} {as bs previous : List (Attribute P)} {owner : NodeId} {supply : IdSupply}

theorem mem_events_iff {event : String} :
    event ∈ Attribute.events as ↔ ∃ h, .handler h ∈ as ∧ h.event = event := by
  rw [Attribute.events, List.mem_map]
  constructor
  · rintro ⟨h, hh, rfl⟩
    obtain ⟨a, ha, hah⟩ := List.mem_filterMap.mp hh
    cases a with
    | plain name value => exact nomatch hah
    | handler k =>
      obtain rfl : k = h := Option.some.inj hah
      exact ⟨k, ha, rfl⟩
  · rintro ⟨h, hh, rfl⟩
    exact ⟨h, List.mem_filterMap.mpr ⟨_, hh, rfl⟩, rfl⟩

/-- What the attributes of an element say: the first handler for each event, and no identities. -/
def describedAttributes (as : List (Attribute P)) : List (Attribute P) :=
  (dropRepeated [] as).1.map Attribute.bare

/-! ### Repeated handlers -/

theorem dropRepeated_sublist (seen : List String) (as : List (Attribute P)) :
    (dropRepeated seen as).1.Sublist as := by
  induction as generalizing seen with
  | nil => exact .slnil
  | cons a as ih =>
    cases a with
    | plain name value => exact (ih seen).cons_cons _
    | handler h =>
      rw [dropRepeated]
      split
      · exact (ih seen).cons _
      · exact (ih _).cons_cons _

theorem plain_mem_keys_iff {name : String} :
    .plain name ∈ as.map Attribute.key ↔ name ∈ as.filterMap Attribute.plainName? := by
  induction as with
  | nil => simp
  | cons a as ih => cases a <;> simp [Attribute.key, Attribute.plainName?, ih]

theorem keys_dropRepeated (seen : List String) (hn : (as.filterMap Attribute.plainName?).Nodup) :
    ((dropRepeated seen as).1.map Attribute.key).Nodup
      ∧ ∀ e ∈ seen, .event e ∉ (dropRepeated seen as).1.map Attribute.key := by
  induction as generalizing seen with
  | nil => exact ⟨List.nodup_nil, fun _ _ => List.not_mem_nil⟩
  | cons a as ih =>
    cases a with
    | plain name value =>
      obtain ⟨hname, hn⟩ := List.nodup_cons.mp hn
      obtain ⟨hkeys, hseen⟩ := ih seen hn
      refine ⟨List.nodup_cons.mpr ⟨fun hm => hname ?_, hkeys⟩, fun e he hm => ?_⟩
      · exact plain_mem_keys_iff.mp (((dropRepeated_sublist seen as).map _).subset hm)
      · rcases List.mem_cons.mp hm with h | h
        · exact nomatch h
        · exact hseen e he h
    | handler h =>
      rw [dropRepeated]
      split
      · exact ih seen hn
      · rename_i hnew
        obtain ⟨hkeys, hseen⟩ := ih (h.event :: seen) hn
        refine ⟨List.nodup_cons.mpr ⟨hseen _ List.mem_cons_self, hkeys⟩, fun e he hm => ?_⟩
        rcases List.mem_cons.mp hm with heq | hm
        · exact hnew (AttributeKey.event.inj heq ▸ he)
        · exact hseen e (List.mem_cons_of_mem _ he) hm

/-- Of several handlers for one event, only the first stays. -/
theorem events_dropRepeated (seen : List String) (as : List (Attribute P)) :
    (Attribute.events (dropRepeated seen as).1).Nodup
      ∧ ∀ e ∈ seen, e ∉ Attribute.events (dropRepeated seen as).1 := by
  induction as generalizing seen with
  | nil => exact ⟨List.nodup_nil, fun _ _ => List.not_mem_nil⟩
  | cons a as ih =>
    cases a with
    | plain name value => exact ih seen
    | handler h =>
      rw [dropRepeated]
      split
      · exact ih seen
      · rename_i hnew
        obtain ⟨hnodup, hseen⟩ := ih (h.event :: seen)
        refine ⟨List.nodup_cons.mpr ⟨hseen _ List.mem_cons_self, hnodup⟩, fun e he hm => ?_⟩
        rcases List.mem_cons.mp hm with rfl | hm
        · exact hnew he
        · exact hseen e (List.mem_cons_of_mem _ he) hm

theorem dropRepeated_eq_self {seen : List String} (hk : (bs.map Attribute.key).Nodup)
    (hs : ∀ e ∈ seen, .event e ∉ bs.map Attribute.key) : (dropRepeated seen bs).1 = bs := by
  induction bs generalizing seen with
  | nil => rfl
  | cons b bs ih =>
    obtain ⟨hb, hbs⟩ := List.nodup_cons.mp hk
    have hrest : ∀ e ∈ seen, .event e ∉ bs.map Attribute.key := fun e he hm =>
      hs e he (List.mem_cons_of_mem _ hm)
    cases b with
    | plain name value => exact congrArg (Attribute.plain name value :: ·) (ih hbs hrest)
    | handler h =>
      rw [dropRepeated, if_neg fun hm => hs _ hm List.mem_cons_self]
      refine congrArg (Attribute.handler h :: ·) (ih hbs fun e he hm => ?_)
      rcases List.mem_cons.mp he with rfl | he
      · exact hb hm
      · exact hrest e he hm

/-! ### Identities of attributes -/

theorem identify_plain (name value : String) :
    (identify owner previous supply (.plain name value :: as)).1
      = (if name = Attribute.identityName then .identity owner else .plain name value)
        :: (identify owner previous supply as).1 := by
  rw [identify]
  split <;> rfl

theorem keys_identify (owner : NodeId) (previous : List (Attribute P)) (supply : IdSupply)
    (as : List (Attribute P)) :
    (identify owner previous supply as).1.map Attribute.key = as.map Attribute.key := by
  induction as generalizing supply with
  | nil => rfl
  | cons a as ih =>
    cases a with
    | plain name value =>
      rw [identify_plain, List.map_cons, List.map_cons, ih]
      split
      · rename_i h
        rw [h]
        rfl
      · rfl
    | handler h =>
      rw [identify, List.map_cons, List.map_cons, ih]
      rfl

theorem events_identify (owner : NodeId) (previous : List (Attribute P)) (supply : IdSupply)
    (as : List (Attribute P)) :
    Attribute.events (identify owner previous supply as).1 = Attribute.events as := by
  induction as generalizing supply with
  | nil => rfl
  | cons a as ih =>
    cases a with
    | plain name value =>
      rw [identify_plain]
      split <;> exact ih supply
    | handler h => exact congrArg (h.event :: ·) (ih _)

theorem bare_identify :
    (identify owner previous supply as).1.map Attribute.bare = as.map Attribute.bare := by
  induction as generalizing supply with
  | nil => rfl
  | cons a as ih =>
    cases a with
    | plain name value =>
      rw [identify_plain, List.map_cons, List.map_cons, ih]
      split
      · rename_i h
        simp [Attribute.bare, Attribute.identity, h]
      · rfl
    | handler h =>
      rw [identify, List.map_cons, List.map_cons, ih]
      rfl

theorem identity_of_mem_identify {a : Attribute P}
    (ha : a ∈ (identify owner previous supply as).1) (hi : a.isIdentity = true) :
    a = .identity owner := by
  induction as generalizing supply with
  | nil => exact absurd ha List.not_mem_nil
  | cons b as ih =>
    cases b with
    | plain name value =>
      rw [identify_plain, List.mem_cons] at ha
      rcases ha with ha | ha
      · split at ha
        · exact ha
        · rename_i h
          subst ha
          exact absurd (beq_iff_eq.mp hi) h
      · exact ih ha
    | handler h =>
      rw [identify, List.mem_cons] at ha
      rcases ha with rfl | ha
      · exact nomatch hi
      · exact ih ha

/-! ### Identities of handlers -/

theorem handlerId?_of_mem (he : (Attribute.events as).Nodup) {k : Handler P}
    (hk : .handler k ∈ as) : handlerId? as k.event = some k.id :=
  congrArg (Option.map Handler.id) (Attribute.find?_event he hk)

theorem exists_of_handlerId? {event : String} {x : HandlerId}
    (h : handlerId? previous event = some x) :
    ∃ j, .handler j ∈ previous ∧ j.event = event ∧ j.id = x := by
  rw [handlerId?, Option.map_eq_some_iff] at h
  obtain ⟨j, hj, hid⟩ := h
  obtain ⟨a, ha, hja⟩ := List.mem_filterMap.mp (List.mem_of_find?_eq_some hj)
  have hev : j.event = event := by simpa using List.find?_some hj
  refine ⟨j, ?_, hev, hid⟩
  cases a with
  | plain name value => exact nomatch hja
  | handler k =>
    obtain rfl : k = j := Option.some.inj hja
    exact ha

theorem handler_mem_marks {h : Handler P} (hm : .handler h ∈ as) :
    .handler h.id ∈ as.flatMap (Attribute.marks true) :=
  List.mem_flatMap.mpr ⟨_, hm, Node.handler_mem_attribute_marks_iff.mpr ⟨rfl, h, rfl, rfl⟩⟩

/-- The identity of a handler is the previous one for its event, or was drawn for it. -/
def Identified (previous : List (Attribute P)) (s s' : IdSupply) (h : Handler P) : Prop :=
  handlerId? previous h.event = some h.id ∨ IdSupply.Minted s s' (.handler h.id)

theorem identified_handlerIdFor (previous : List (Attribute P)) (h : Handler P) (s : IdSupply) :
    Identified previous s (handlerIdFor previous h.event s).2
        { h with id := (handlerIdFor previous h.event s).1 }
      ∧ s.Before (handlerIdFor previous h.event s).2 := by
  cases hid : handlerId? previous h.event with
  | some x =>
    rw [handlerIdFor_some hid]
    exact ⟨Or.inl hid, .refl s⟩
  | none =>
    rw [handlerIdFor_none hid]
    exact ⟨Or.inr (IdSupply.minted_mintHandler s), IdSupply.before_mintHandler s⟩

theorem Identified.widen {s s' t t' : IdSupply} {h : Handler P} (hi : Identified previous s s' h)
    (ht : t.Before s) (ht' : s'.Before t') : Identified previous t t' h :=
  hi.imp_right fun hm => hm.widen ht ht'

theorem identified_of_mem (owner : NodeId) (previous as : List (Attribute P)) (supply : IdSupply) :
    supply.Before (identify owner previous supply as).2
      ∧ ∀ h, .handler h ∈ (identify owner previous supply as).1 →
        Identified previous supply (identify owner previous supply as).2 h := by
  induction as generalizing supply with
  | nil => exact ⟨.refl _, fun _ hm => absurd hm List.not_mem_nil⟩
  | cons a as ih =>
    cases a with
    | plain name value =>
      obtain ⟨hle, hid⟩ := ih supply
      refine ⟨hle, fun h hm => ?_⟩
      rw [identify_plain, List.mem_cons] at hm
      rcases hm with hm | hm
      · split at hm <;> exact nomatch hm
      · exact hid h hm
    | handler k =>
      obtain ⟨hown, hle⟩ := identified_handlerIdFor previous k supply
      obtain ⟨hle', hid⟩ := ih (handlerIdFor previous k.event supply).2
      refine ⟨hle.trans hle', fun h hm => ?_⟩
      rw [identify, List.mem_cons] at hm
      rcases hm with hm | hm
      · rw [Attribute.handler.inj hm]
        exact hown.widen (.refl _) hle'
      · exact (hid h hm).widen hle (.refl _)

/-- Handlers for different events have different identities. -/
theorem Identified.id_ne {s s₁ s' : IdSupply} {h k : Handler P}
    (hp : (previous.flatMap (Attribute.marks true)).Nodup)
    (hbelow : ∀ x ∈ previous.flatMap (Attribute.marks true), s.Below x) (hs : s.Before s₁)
    (hk : Identified previous s s₁ k) (hh : Identified previous s₁ s' h) (he : h.event ≠ k.event) :
    h.id ≠ k.id := by
  intro hid
  rcases hk with hk | hk
  · obtain ⟨j, hj, hjk, hjid⟩ := exists_of_handlerId? hk
    rcases hh with hh | hh
    · obtain ⟨l, hl, hlh, hlid⟩ := exists_of_handlerId? hh
      have hx : ∀ {m : Handler P}, m.id = k.id → Mark.handler k.id ∈ (Attribute.handler m).marks true :=
        fun hm => Node.handler_mem_attribute_marks_iff.mpr ⟨rfl, _, rfl, hm⟩
      have hlj := eq_of_mem_flatMap hp hj hl (hx hjid) (hx (hlid.trans hid))
      exact he (hlh.symm.trans ((congrArg Handler.event (Attribute.handler.inj hlj)).trans hjk))
    · have hb := (hbelow _ (handler_mem_marks hj)).mono hs
      rw [hjid, ← hid] at hb
      exact hh.not_below hb
  · rcases hh with hh | hh
    · obtain ⟨l, hl, -, hlid⟩ := exists_of_handlerId? hh
      have hb := hbelow _ (handler_mem_marks hl)
      rw [hlid, hid] at hb
      exact hk.not_below hb
    · have hb := hk.below
      rw [← hid] at hb
      exact hh.not_below hb

theorem nodup_identify (hp : (previous.flatMap (Attribute.marks true)).Nodup)
    (hbelow : ∀ x ∈ previous.flatMap (Attribute.marks true), supply.Below x)
    (he : (Attribute.events as).Nodup) :
    ((identify owner previous supply as).1.flatMap (Attribute.marks true)).Nodup := by
  induction as generalizing supply with
  | nil => exact List.nodup_nil
  | cons a as ih =>
    cases a with
    | plain name value =>
      rw [identify_plain, List.flatMap_cons]
      have hnone : Attribute.marks true (if name = Attribute.identityName then
          Attribute.identity owner else Attribute.plain name value : Attribute P) = [] := by
        split <;> rfl
      rw [hnone]
      exact ih hbelow he
    | handler k =>
      obtain ⟨hk, he⟩ := List.nodup_cons.mp he
      obtain ⟨hown, hle⟩ := identified_handlerIdFor previous k supply
      obtain ⟨-, hid⟩ := identified_of_mem owner previous as
        (handlerIdFor previous k.event supply).2
      rw [identify, List.flatMap_cons]
      refine List.nodup_append.mpr ⟨?_, ih (fun x hx => (hbelow x hx).mono hle) he, ?_⟩
      · exact List.nodup_singleton _
      · rintro x hx y hy rfl
        obtain ⟨b, hb, hxb⟩ := List.mem_flatMap.mp hy
        obtain rfl := List.mem_singleton.mp hx
        obtain ⟨-, h, rfl, hhid⟩ := Node.handler_mem_attribute_marks_iff.mp hxb
        refine hown.id_ne hp hbelow hle (hid h hb) (fun hev => hk ?_) hhid
        have hm := mem_events_iff.mpr ⟨h, hb, hev⟩
        rwa [events_identify] at hm

/-! ### Aligned attributes -/

section Attributes

variable {fresh : List (Attribute P)} {s : State}

theorem supplied_attributes (owner : NodeId) (fresh : List (Attribute P))
    (hp : (previous.flatMap (Attribute.marks true)).Nodup)
    (hbelow : ∀ x ∈ previous.flatMap (Attribute.marks true), s.supply.Below x) :
    Supplied [] (previous.flatMap (Attribute.marks true)) s.supply
      (attributes owner previous fresh s).2.supply
      ((attributes owner previous fresh s).1.flatMap (Attribute.marks true)) := by
  obtain ⟨hle, hid⟩ := identified_of_mem owner previous (dropRepeated [] fresh).1 s.supply
  refine ⟨hle, nodup_identify hp hbelow (events_dropRepeated [] fresh).1, fun x hx => ?_⟩
  obtain ⟨a, ha, hxa⟩ := List.mem_flatMap.mp hx
  cases x with
  | node y => exact absurd hxa (Node.node_not_mem_attribute_marks a y)
  | handler y =>
    obtain ⟨-, h, rfl, rfl⟩ := Node.handler_mem_attribute_marks_iff.mp hxa
    rcases hid h ha with hold | hm
    · obtain ⟨j, hj, -, hjid⟩ := exists_of_handlerId? hold
      exact Or.inr (Or.inr ⟨hjid ▸ handler_mem_marks hj, rfl⟩)
    · exact Or.inr (Or.inl hm)

theorem keys_attributes (hn : (fresh.filterMap Attribute.plainName?).Nodup) :
    ((attributes owner previous fresh s).1.map Attribute.key).Nodup := by
  have hkeys := (keys_dropRepeated [] hn).1
  rwa [← keys_identify owner previous s.supply] at hkeys

theorem events_attributes (owner : NodeId) (previous fresh : List (Attribute P)) (s : State) :
    (Attribute.events (attributes owner previous fresh s).1).Nodup := by
  have h := (events_dropRepeated [] fresh).1
  rwa [← events_identify owner previous s.supply] at h

theorem identity_of_mem_attributes {a : Attribute P}
    (ha : a ∈ (attributes owner previous fresh s).1) (hi : a.isIdentity = true) :
    a = .identity owner := identity_of_mem_identify ha hi

theorem described_attributes (hn : (fresh.filterMap Attribute.plainName?).Nodup) :
    describedAttributes (attributes owner previous fresh s).1 = describedAttributes fresh := by
  rw [describedAttributes, dropRepeated_eq_self (keys_attributes hn) fun _ h =>
    absurd h List.not_mem_nil]
  exact bare_identify

/-- A handler that was not drawn anew is that of the previous element for the same event. -/
theorem retained_attribute {h : Handler P}
    (hm : .handler h ∈ (attributes owner previous fresh s).1)
    (hold : h.id.val ≤ s.supply.handlers) :
    ∃ j, .handler j ∈ previous ∧ j.id = h.id ∧ j.event = h.event := by
  obtain ⟨-, hid⟩ := identified_of_mem owner previous (dropRepeated [] fresh).1 s.supply
  rcases hid h hm with hprev | hm
  · obtain ⟨j, hj, hev, hjid⟩ := exists_of_handlerId? hprev
    exact ⟨j, hj, hjid, hev⟩
  · exact absurd hold (Nat.not_le_of_gt hm.1)

end Attributes

end Alignment

end ViewLoop
