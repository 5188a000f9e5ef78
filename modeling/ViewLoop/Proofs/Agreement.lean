import ViewLoop.Proofs.Arising
import ViewLoop.Proofs.Recognition
import ViewLoop.Proofs.WellFormedTrees

/-!
# Alignment and differences agree

Alignment matches nodes by key or rank and shape, a difference matches them by identity and shape.
Between a well-formed tree and the tree that was aligned with it the two agree: what is changed in
place is what was recognised, handlers that come in were drawn for this tree, a handler that is
updated keeps its identity and its event, and below the root only nodes with a key are replaced
(`Alignment.agrees_with_difference`).
-/

namespace ViewLoop

variable {P : Type}

namespace Patch

/-- The handlers that a patch brings in. -/
def handlersIn : Patch P → List (Handler P)
  | addAttribute _ a => a.handler?.toList
  | p => ((p.entering.map Node.handlers).getD []).map Prod.snd

theorem entering_eq_none {p : Patch P} (h : p.brings = []) : p.entering = none := by
  cases he : p.entering with
  | none => rfl
  | some c =>
    rw [brings, he] at h
    have hids : c.ids = [] := h
    exact absurd (hids ▸ c.id_mem_ids) List.not_mem_nil

theorem entering_addition (x : NodeId) (i : Nat) (c : Node P) :
    (addition x i c).entering = some c := by
  unfold addition
  split <;> rfl

def changesAttribute : Patch P → Bool
  | addAttribute .. => true
  | updateAttribute .. => true
  | removeAttribute .. => true
  | _ => false

theorem changesAttribute_addition (x : NodeId) (i : Nat) (c : Node P) :
    (addition x i c).changesAttribute = false := by
  unfold addition
  split <;> rfl

theorem changesAttribute_removal (x : NodeId) (c : Node P) :
    (removal x c).changesAttribute = false := by
  unfold removal
  split <;> rfl

theorem replaced_addition (x : NodeId) (i : Nat) (c : Node P) :
    (addition x i c).replaced = none := by
  unfold addition
  split <;> rfl

theorem replaced_removal (x : NodeId) (c : Node P) : (removal x c).replaced = none := by
  unfold removal
  split <;> rfl

end Patch

namespace Difference

open Node

variable [DecidableEq P] {old new o n c : Node P} {p : Patch P}

theorem mem_subtrees_of_entering (ho : old.ids.Nodup) (hn : new.ids.Nodup)
    (hp : p ∈ patches old new) (hc : p.entering = some c) : c ∈ new.subtrees := by
  rcases arises_of_mem_patches ho hn hp with h | ⟨i, d, rfl⟩
  · cases h with
    | apart h =>
      obtain rfl := Option.some.inj hc
      exact self_mem_subtrees _
    | replaced stays hc' hd id shape =>
      obtain rfl := Option.some.inj hc
      exact mem_subtrees_of_mem_children stays.mem_new hd
    | own stays hown =>
      rcases ownPatches_cases hown with ⟨d, rfl⟩ | hp | ⟨order, rfl⟩ | ⟨i, d, hd, rfl⟩ | ⟨s, rfl⟩
      · rw [Patch.entering_eq_none (Patch.brings_removal _ d)] at hc
        exact nomatch hc
      · rw [Patch.entering_eq_none (carried_attributePatches hp).1] at hc
        exact nomatch hc
      · exact nomatch hc
      · rw [Patch.entering_addition] at hc
        obtain rfl := Option.some.inj hc
        exact mem_subtrees_of_mem_children stays.mem_new hd
      · exact nomatch hc
  · rw [Patch.entering_eq_none (Patch.brings_removal _ d)] at hc
    exact nomatch hc

/-- A node of the new tree is changed in place iff no patch brings it in. -/
theorem exists_stays_iff (ho : old.ids.Nodup) (hn : new.ids.Nodup) (hmem : n ∈ new.subtrees) :
    (∃ o, Stays old new o n) ↔ ∀ p ∈ patches old new, n.id ∉ p.brings := by
  have hids := mem_ids_iff.mpr ⟨n, hmem, rfl⟩
  have hbrings := (brings_patches ho hn).mem_iff (a := n.id)
  rw [List.mem_flatMap, mem_unkept_iff, and_iff_right hids] at hbrings
  constructor
  · rintro ⟨o, h⟩ p hp hx
    exact hbrings.mp ⟨p, hp, hx⟩ ⟨o, n, h, h.id_eq⟩
  · intro h
    have hkept : Kept old new n.id := by
      by_contra hk
      obtain ⟨p, hp, hx⟩ := hbrings.mpr hk
      exact h p hp hx
    obtain ⟨o, m, hstays, hid⟩ := hkept
    obtain rfl := eq_of_id_eq hn hstays.mem_new hmem (hstays.id_eq.symm.trans hid)
    exact ⟨o, hstays⟩

theorem exists_of_changesAttribute (ho : old.ids.Nodup) (hn : new.ids.Nodup)
    (hp : p ∈ patches old new) (hc : p.changesAttribute = true) :
    ∃ o n, Stays old new o n ∧ p ∈ attributePatches o.id o.attributes n.attributes := by
  rcases arises_of_mem_patches ho hn hp with h | ⟨i, d, rfl⟩
  · cases h with
    | apart h => exact nomatch hc
    | replaced stays hc' hd id shape => exact nomatch hc
    | own stays hown =>
      rcases ownPatches_cases hown with ⟨d, rfl⟩ | hp | ⟨order, rfl⟩ | ⟨i, d, hd, rfl⟩ | ⟨s, rfl⟩
      · exact absurd hc (by simp [Patch.changesAttribute_removal])
      · exact ⟨_, _, stays, hp⟩
      · exact nomatch hc
      · exact absurd hc (by simp [Patch.changesAttribute_addition])
      · exact nomatch hc
  · exact absurd hc (by simp [Patch.changesAttribute_removal])

/-- A handler that is added is for an event for which the element had none. -/
theorem exists_of_addAttribute (ho : old.ids.Nodup) (hn : new.ids.Nodup) {x : NodeId}
    {h : Handler P} (hp : .addAttribute x (.handler h) ∈ patches old new) :
    ∃ o n, Stays old new o n ∧ .handler h ∈ n.attributes
      ∧ ∀ j, .handler j ∈ o.attributes → j.event ≠ h.event := by
  obtain ⟨o, n, stays, hown⟩ := exists_of_changesAttribute ho hn hp rfl
  refine ⟨o, n, stays, ?_⟩
  rcases attributePatches_cases hown with ⟨a, -, he⟩ | ⟨a, ha, hnone, he⟩ | ⟨a, -, b, -, -, he⟩
  · exact nomatch he
  · have he := (Patch.addAttribute.inj he).2
    split at he
    · exact nomatch he
    · subst he
      refine ⟨ha, fun j hj hev => withKey_eq_none_iff.mp hnone ?_⟩
      exact List.mem_map.mpr ⟨_, hj, congrArg AttributeKey.event hev⟩
  · exact nomatch he

/-- A handler that is updated takes the place of the one that is found for its event. -/
theorem exists_of_updateAttribute (ho : old.ids.Nodup) (hn : new.ids.Nodup) {x : NodeId}
    {h k : Handler P} (hp : .updateAttribute x (.handler h) (.handler k) ∈ patches old new) :
    ∃ o n, Stays old new o n ∧ .handler k ∈ n.attributes
      ∧ withKey o.attributes (.event k.event) = some (.handler h) ∧ h ≠ k := by
  obtain ⟨o, n, stays, hown⟩ := exists_of_changesAttribute ho hn hp rfl
  refine ⟨o, n, stays, ?_⟩
  rcases attributePatches_cases hown with ⟨a, -, he⟩ | ⟨a, -, -, he⟩ | ⟨a, ha, b, hb, hne, he⟩
  · exact nomatch he
  · exact nomatch he
  · obtain ⟨-, rfl, rfl⟩ := Patch.updateAttribute.inj he
    exact ⟨ha, hb, fun e => hne (congrArg _ e)⟩

theorem replaced_of_mem_ownPatches (hp : p ∈ ownPatches o n) :
    p.replaced = none := by
  rcases ownPatches_cases hp with ⟨d, rfl⟩ | hp | ⟨order, rfl⟩ | ⟨i, d, hd, rfl⟩ | ⟨s, rfl⟩
  · exact Patch.replaced_removal _ d
  · rcases attributePatches_cases hp with ⟨a, -, rfl⟩ | ⟨a, -, -, rfl⟩ | ⟨a, -, b, -, -, rfl⟩
    all_goals rfl
  · rfl
  · exact Patch.replaced_addition _ i d
  · rfl

theorem exists_of_replaceChild (ho : old.ids.Nodup) (hn : new.ids.Nodup) {x : NodeId}
    {c d : Node P} (hp : .replaceChild (some x) c d ∈ patches old new) :
    ∃ o n, Stays old new o n ∧ c ∈ o.children ∧ d ∈ n.children ∧ c.id = d.id
      ∧ ¬c.SameShape d := by
  rcases arises_of_mem_patches ho hn hp with h | ⟨i, e, he⟩
  · cases h with
    | replaced stays hc hd id shape => exact ⟨_, _, stays, hc, hd, id, shape⟩
    | own stays hown => exact nomatch replaced_of_mem_ownPatches hown
  · exact nomatch (congrArg Patch.replaced he).trans (Patch.replaced_removal i e)

end Difference

namespace Alignment

open Node Difference

/-! ### Attributes of recognised elements -/

theorem handlerId?_of_withKey {as : List (Attribute P)} {event : String} {h : Handler P}
    (hw : withKey as (.event event) = some (.handler h)) : handlerId? as event = some h.id := by
  induction as with
  | nil => exact nomatch hw
  | cons a as ih =>
    rw [withKey] at hw
    cases a with
    | plain name value =>
      rw [List.find?_cons_of_neg (by simp [Attribute.key])] at hw
      exact ih hw
    | handler k =>
      by_cases hk : k.event = event
      · rw [List.find?_cons_of_pos (by simp [Attribute.key, hk])] at hw
        obtain rfl := Attribute.handler.inj (Option.some.inj hw)
        simp [handlerId?, Attribute.handler?, hk]
      · rw [List.find?_cons_of_neg (by simpa [Attribute.key] using hk)] at hw
        rw [← ih hw]
        simp [handlerId?, Attribute.handler?, hk]

/-- A handler has the identity of the previous one for its event, if there is one. -/
theorem id_eq_of_mem_identify {owner : NodeId} {previous as : List (Attribute P)}
    {supply : IdSupply} {k : Handler P} {x : HandlerId}
    (hk : .handler k ∈ (identify owner previous supply as).1)
    (hx : handlerId? previous k.event = some x) : k.id = x := by
  induction as generalizing supply with
  | nil => exact absurd hk List.not_mem_nil
  | cons a as ih =>
    cases a with
    | plain name value =>
      rw [identify_plain, List.mem_cons] at hk
      rcases hk with hk | hk
      · split at hk <;> exact nomatch hk
      · exact ih hk
    | handler h =>
      rw [identify, List.mem_cons] at hk
      rcases hk with hk | hk
      · obtain rfl := Attribute.handler.inj hk
        have hev : handlerId? previous h.event = some x := hx
        rw [handlerIdFor_some hev]
      · exact ih hk

/-- The attributes of an aligned node are aligned with those of the node that was recognised, if
any was. -/
theorem attributes_node (o : Option (Node P)) (s : State) (f : Node P) :
    ∃ r : State, s.supply.Before r.supply ∧ (node o s f).1.attributes
      = (attributes (node o s f).1.id (((recognise o f).map Node.attributes).getD [])
        f.attributes r).1 := by
  cases f with
  | text i u => exact ⟨s, .refl _, rfl⟩
  | element i tag as cs => exact ⟨_, before_idFor o (.element i tag as cs) s, rfl⟩

/-! ### Agreement -/

section Agreement

variable {supply : IdSupply} {prev fresh : Node P}

theorem WellFormed.earlier (h : WellFormed supply prev) : Earlier supply prev :=
  ⟨h.nodup, fun _ hx => h.below _ (node_mem_marks_iff.mpr hx)⟩

theorem WellFormed.next (hp : WellFormed supply prev) (hf : fresh.DistinctKeys) :
    WellFormed (run (some prev) fresh supply).2.supply (run (some prev) fresh supply).1 :=
  wellFormed_run (fun _ hq => Option.some.inj hq ▸ hp) hf

/-- A handler of the aligned tree was drawn for it, or sits where it sat before. -/
theorem minted_or_stays (hp : WellFormed supply prev) (hf : fresh.DistinctKeys)
    {k : NodeId × Handler P} (hk : k ∈ (run (some prev) fresh supply).1.handlers) :
    IdSupply.Minted supply (run (some prev) fresh supply).2.supply (.handler k.2.id)
      ∨ ∃ a b, Stays prev (run (some prev) fresh supply).1 a b ∧ b.id = k.1
        ∧ ∃ j, .handler j ∈ a.attributes ∧ j.id = k.2.id ∧ j.event = k.2.event := by
  -- an identity that is not above the supply was not drawn, so its handler was recognised
  by_cases hknown : k.2.id.val ≤ supply.handlers
  · have hoffered : Offered supply (some prev).toList :=
      WellFormed.offered fun _ hq => Option.some.inj hq ▸ hp
    rcases settled_node supply.handlers (some prev) { supply := supply } hf hoffered (Nat.le_refl _)
      with ⟨q, hq, -, hr⟩ | hnew
    · obtain rfl := List.mem_singleton.mp hq
      exact Or.inr (hr.stays hk hknown)
    · exact absurd hknown (hnew k hk)
  · exact Or.inl ⟨Nat.lt_of_not_le hknown, Nat.lt_succ_iff.mp ((hp.next hf).handlers k hk).2⟩

variable [DecidableEq P]

theorem minted_of_handlersIn (hp : WellFormed supply prev) (hf : fresh.DistinctKeys) {p : Patch P}
    (hmem : p ∈ patches prev (run (some prev) fresh supply).1) {h : Handler P}
    (hh : h ∈ p.handlersIn) :
    IdSupply.Minted supply (run (some prev) fresh supply).2.supply (.handler h.id) := by
  have ho := hp.nodup
  have hn := (hp.next hf).nodup
  unfold Patch.handlersIn at hh
  split at hh
  · rename_i x a
    cases a with
    | plain name value => exact absurd hh List.not_mem_nil
    | handler k =>
      obtain rfl := List.mem_singleton.mp hh
      obtain ⟨o, n, stays, hattr, hnone⟩ := exists_of_addAttribute ho hn hmem
      have hk := mem_handlers_iff.mpr ⟨n, stays.mem_new, rfl, hattr⟩
      refine (minted_or_stays hp hf hk).resolve_right ?_
      rintro ⟨a, b, stays', hid, j, hj, -, hev⟩
      obtain rfl := eq_of_id_eq hn stays'.mem_new stays.mem_new hid
      obtain rfl := eq_of_id_eq ho stays'.mem_old stays.mem_old (stays'.id_eq.trans stays.id_eq.symm)
      exact hnone j hj hev
  · obtain ⟨k, hk, rfl⟩ := List.mem_map.mp hh
    cases hc : p.entering with
    | none =>
      rw [hc] at hk
      exact absurd hk List.not_mem_nil
    | some c =>
      rw [hc] at hk
      have hk : k ∈ c.handlers := hk
      have hsub := mem_subtrees_of_entering ho hn hmem hc
      refine (minted_or_stays hp hf (handlers_subset_of_mem hsub hk)).resolve_right ?_
      rintro ⟨a, b, stays, hid, -⟩
      -- what comes in does not stay, but the owner of the handler comes in
      refine (exists_stays_iff ho hn stays.mem_new).mp ⟨a, stays⟩ p hmem ?_
      obtain ⟨m, hm, hmid, -⟩ := mem_handlers_iff.mp hk
      rw [Patch.brings, hc]
      exact mem_ids_iff.mpr ⟨m, hm, hmid.trans hid.symm⟩

theorem id_eq_of_updateAttribute (hp : WellFormed supply prev) (hf : fresh.DistinctKeys)
    {x : NodeId} {h k : Handler P} (hmem : .updateAttribute x (.handler h) (.handler k)
      ∈ patches prev (run (some prev) fresh supply).1) :
    k.id = h.id ∧ k.event = h.event ∧ k.payload ≠ h.payload := by
  obtain ⟨o, n, stays, hk, hw, hne⟩ := exists_of_updateAttribute hp.nodup (hp.next hf).nodup hmem
  obtain ⟨g, r, -, hsame, rfl⟩ := aligned_of_stays (s := { supply := supply }) hp.earlier stays
  obtain ⟨r', -, he⟩ := attributes_node (some o) r g
  rw [recognise_of_matches hsame] at he
  rw [he] at hk
  have hid := id_eq_of_mem_identify hk (handlerId?_of_withKey hw)
  have hev : h.event = k.event := by
    have hkey := List.find?_some hw
    exact AttributeKey.event.inj (of_decide_eq_true hkey)
  refine ⟨hid, hev.symm, fun hpay => hne ?_⟩
  cases h
  cases k
  simp_all

/-- Below the root, a node is replaced only in a place that its key tells. -/
theorem isKeyed_of_replaceChild (hp : WellFormed supply prev) (hf : fresh.DistinctKeys)
    {x : NodeId} {c d : Node P}
    (hmem : .replaceChild (some x) c d ∈ patches prev (run (some prev) fresh supply).1) :
    c.id.isKeyed = true ∧ d.id = c.id ∧ ¬c.SameShape d := by
  obtain ⟨o, n, stays, hc, hd, hid, hshape⟩ :=
    exists_of_replaceChild hp.nodup (hp.next hf).nodup hmem
  refine ⟨?_, hid.symm, hshape⟩
  obtain ⟨g, r, hr, hsame, rfl⟩ := aligned_of_stays (s := { supply := supply }) hp.earlier stays
  obtain ⟨i, hi⟩ := List.mem_iff_getElem?.mp hd
  have ho := hp.earlier.of_mem stays.mem_old hr
  obtain ⟨g', -, -, r', hr', rfl⟩ := partner_of_id_eq ho hsame hi hc hid
  have hb := (ho.of_mem (mem_subtrees_of_mem_children (self_mem_subtrees _) hc) hr').below_id
  rcases key_or_recognised hb hid with ⟨hk, he⟩ | ⟨-, q, hq, hm, -⟩
  · exact he ▸ hk
  · obtain rfl := Option.some.inj hq
    exact absurd (roots_of_matches hm r').2 hshape

/-- Alignment and differences agree on what is the same node. Between a well-formed tree and the
tree that is aligned with it, the node in a place is changed in place iff the fresh node in that
place was recognised, and then from the node that it was recognised in; every other node is brought
in. Handlers that come in were drawn on the way and occur nowhere before, an updated handler gets
another payload only, and below the root only nodes with a key are replaced, by nodes of another
shape. -/
theorem agrees_with_difference (hp : WellFormed supply prev) (hf : fresh.DistinctKeys) :
    let next := run (some prev) fresh supply
    let ps := patches prev next.1
    (∀ path o, Recognised prev fresh path o
        ↔ ∃ n, next.1.nodeAt? path = some n ∧ Stays prev next.1 o n)
      ∧ (∀ n ∈ next.1.subtrees, (∃ o, Stays prev next.1 o n) ↔ ∀ p ∈ ps, n.id ∉ p.brings)
      ∧ (∀ p ∈ ps, ∀ h ∈ p.handlersIn, IdSupply.Minted supply next.2.supply (.handler h.id)
        ∧ ∀ k ∈ prev.handlers, k.2.id ≠ h.id)
      ∧ (∀ x h k, .updateAttribute x (.handler h) (.handler k) ∈ ps →
        k.id = h.id ∧ k.event = h.event ∧ k.payload ≠ h.payload)
      ∧ ∀ x c d, .replaceChild (some x) c d ∈ ps →
        c.id.isKeyed = true ∧ d.id = c.id ∧ ¬c.SameShape d := by
  intro next ps
  have hnext := hp.next hf
  refine ⟨fun path o => recognised_iff (s := { supply := supply }) hp.earlier hnext.nodup,
    fun n hn => exists_stays_iff hp.nodup hnext.nodup hn, fun p hmem h hh => ?_,
    fun x h k hmem => id_eq_of_updateAttribute hp hf hmem,
    fun x c d hmem => isKeyed_of_replaceChild hp hf hmem⟩
  have hminted := minted_of_handlersIn hp hf hmem hh
  refine ⟨hminted, fun k hk he => hminted.not_below ?_⟩
  exact hp.below _ (handler_mem_marks_iff.mpr ⟨rfl, k, hk, he⟩)

end Agreement

/-- Among keyed items that change places, a text is recognised by its rank; one item becomes a
section, the other one gets a second handler. -/
theorem agrees_with_difference_of_items :
    let first : Node Nat := .element .unassigned "ul" [.plain "id" "old"]
      [.element (.keyed "a") "li" [.handler ⟨"click", ⟨0⟩, 5⟩] [.text .unassigned "x"],
        .element (.keyed "b") "li" [] [], .text .unassigned "y"]
    let second : Node Nat := .element (.generated 7) "ul" [.plain "id" "stale"]
      [.text .unassigned "z", .element (.keyed "b") "section" [.handler ⟨"click", ⟨1⟩, 6⟩] [],
        .element (.keyed "a") "li" [.handler ⟨"click", ⟨9⟩, 7⟩, .handler ⟨"input", ⟨0⟩, 9⟩] [],
        .text .unassigned "w"]
    let r := run none first {}
    let next := run (some r.1) second r.2.supply
    let ps := patches r.1 next.1
    (WellFormed r.2.supply r.1 ∧ second.DistinctKeys)
      ∧ (∃ n, next.1.nodeAt? [0] = some n ∧ Stays r.1 next.1 (.text (.generated 3) "y") n
        ∧ ∀ p ∈ ps, n.id ∉ p.brings)
      ∧ (.addAttribute (.keyed "a") (.handler ⟨"input", ⟨3⟩, 9⟩) ∈ ps
        ∧ IdSupply.Minted r.2.supply next.2.supply (.handler ⟨3⟩)
        ∧ ∀ k ∈ r.1.handlers, k.2.id ≠ ⟨3⟩)
      ∧ (∃ x h k, .updateAttribute x (.handler h) (.handler k) ∈ ps
        ∧ k.id = h.id ∧ k.event = h.event ∧ k.payload ≠ h.payload)
      ∧ ∃ x c d, .replaceChild (some x) c d ∈ ps
        ∧ c.id.isKeyed = true ∧ d.id = c.id ∧ ¬c.SameShape d := by
  intro first second r next ps
  have hfirst : first.DistinctKeys := by decide
  have hf : second.DistinctKeys := by decide
  have hnone : ∀ p ∈ (none : Option (Node Nat)), WellFormed {} p := nofun
  have hp : WellFormed r.2.supply r.1 := wellFormed_run hnone hfirst
  obtain ⟨hplaces, hbrought, hdrawn, hupdated, hreplaced⟩ := agrees_with_difference hp hf
  have hroot : Matches r.1 second := by decide
  have htext : Matches (.text (.generated 3) "y" : Node Nat) (.text .unassigned "z") := by decide
  have hpartner : partner? r.1.children second.children 0 (.text .unassigned "z")
      = some (.text (.generated 3) "y") := rfl
  have hrec : Recognised r.1 second [0] (.text (.generated 3) "y") :=
    .child hroot rfl hpartner (.root htext)
  obtain ⟨n, hn, hstays⟩ := (hplaces _ _).mp hrec
  have hadded : .addAttribute (.keyed "a") (.handler ⟨"input", ⟨3⟩, 9⟩) ∈ ps := by
    decide
  have hchanged : .updateAttribute (.keyed "a") (.handler ⟨"click", ⟨1⟩, 5⟩)
      (.handler ⟨"click", ⟨1⟩, 7⟩) ∈ ps := by decide
  have hapart : .replaceChild (some (.generated 1)) (.element (.keyed "b") "li" [] [])
      (.element (.keyed "b") "section" [.handler ⟨"click", ⟨2⟩, 6⟩] []) ∈ ps := by decide
  exact ⟨⟨hp, hf⟩, ⟨n, hn, hstays, (hbrought n hstays.mem_new).mp ⟨_, hstays⟩⟩,
    ⟨hadded, hdrawn _ hadded _ (List.mem_singleton_self _)⟩,
    ⟨_, _, _, hchanged, hupdated _ _ _ hchanged⟩, ⟨_, _, _, hapart, hreplaced _ _ _ hapart⟩⟩

end Alignment

end ViewLoop
