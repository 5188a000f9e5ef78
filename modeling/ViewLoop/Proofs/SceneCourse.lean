import ViewLoop.Proofs.HandlerTable

/-!
# Courses of a scene

The steps of a patch take the handlers that go out of the table before the surface changes, and put
those that come into it afterwards. So the scene is sound before and after each single step
(`Scene.Safe`), and after the last one the table holds the handlers of the new tree
(`Scene.InStep.take`).
-/

namespace ViewLoop

namespace Scene

variable {P : Type} {s s₁ s' : Scene P} {t t' : Node P}

/-! ### The steps of a patch -/

/-- The steps take the handlers of the given identities out of the table, in one step at most. -/
inductive Clears : List (SceneStep P) → List HandlerId → Prop
  | nothing : Clears [] []
  | handler (x : HandlerId) : Clears [.unregister x] [x]
  | tree (n : Node P) : Clears [.unregisterTree n] n.handlerIds

theorem clears_leaving (a : Attribute P) :
    Clears (SceneStep.leaving a) (a.handler?.map Handler.id).toList := by
  cases a with
  | plain name value => exact .nothing
  | handler h => exact .handler h.id

theorem entering_eq (a : Attribute P) (x : NodeId) :
    SceneStep.entering a = (a.handler?.map (x, ·)).toList.map fun k => .register k.2 := by
  cases a <;> rfl

/-- A patch gives a handler a new payload, or first clears what goes and in the end registers what
comes. -/
theorem ofPatch_cases (p : Patch P) :
    (∃ x j h, p = .updateAttribute x (.handler j) (.handler h) ∧ j.id = h.id
        ∧ SceneStep.ofPatch p = [.patch p, .replace h])
      ∨ ∃ before, Clears before p.outgoing
        ∧ SceneStep.ofPatch p = before ++ .patch p :: p.incoming.map fun k => .register k.2 := by
  cases p with
  | updateAttribute x old new =>
    cases hr : SceneStep.retained? old new with
    | some h =>
      refine Or.inl ?_
      cases old with
      | plain name value => exact nomatch hr
      | handler j =>
        cases new with
        | plain name value => exact nomatch hr
        | handler l =>
          have hif : (if j.id = l.id then some l else none) = some h := hr
          split at hif
          · rename_i hid
            obtain rfl := Option.some.inj hif
            refine ⟨x, j, l, rfl, hid, ?_⟩
            rw [SceneStep.ofPatch, hr]
          · exact nomatch hif
    | none =>
      refine Or.inr ⟨_, clears_leaving old, ?_⟩
      rw [SceneStep.ofPatch, hr, Patch.incoming, ← entering_eq]
  | addChild x i c => exact Or.inr ⟨_, .nothing, rfl⟩
  | addText x i c => exact Or.inr ⟨_, .nothing, rfl⟩
  | removeChild x c => exact Or.inr ⟨_, .tree c, rfl⟩
  | removeText x y => exact Or.inr ⟨_, .nothing, rfl⟩
  | replaceChild x old new => exact Or.inr ⟨_, .tree old, rfl⟩
  | reorderChildren x order => exact Or.inr ⟨_, .nothing, rfl⟩
  | addAttribute x a =>
    refine Or.inr ⟨_, .nothing, ?_⟩
    rw [SceneStep.ofPatch, Patch.incoming, ← entering_eq]
    rfl
  | removeAttribute x a => exact Or.inr ⟨_, clears_leaving a, rfl⟩
  | updateText x u => exact Or.inr ⟨_, .nothing, rfl⟩

/-! ### The table along the way -/

/-- The table finds handlers of the tree only. -/
def Knows (s : Scene P) (t : Node P) : Prop :=
  ∀ id h, s.table.get? id = some h → ∃ w, (w, h) ∈ t.handlers ∧ h.id = id

theorem Knows.backed (h : s.Knows t) (hm : s.surface.Mirrors t) (ht : t.Labelled) : s.Backed t := by
  refine ⟨hm, ht, fun id j hj => ?_⟩
  obtain ⟨w, hw, hid⟩ := h id j hj
  exact ⟨(w, j), hw, hid, rfl⟩

theorem run_onSurface {α : Type} {edit : Surface.Edit α} {a : α} {f : Surface}
    (h : edit.run s.surface = .ok a f) :
    (onSurface edit).run s = .ok a { s with surface := f } := by
  rw [run_onSurface_eq, h]

variable [DecidableEq P]

/-! ### Safe runs of steps -/

/-- Every step is taken, and the scene is sound before and after each of them. -/
inductive Safe : Scene P → List (SceneStep P) → Scene P → Prop
  | nil {s : Scene P} (sound : s.Sound) : Safe s [] s
  | cons {s s₁ s' : Scene P} {a : SceneStep P} {rest : List (SceneStep P)} (sound : s.Sound)
      (taken : (step a).run s = .ok () s₁) (safe : Safe s₁ rest s') : Safe s (a :: rest) s'

theorem Safe.append {l l' : List (SceneStep P)} (h : Safe s l s₁) (h' : Safe s₁ l' s') :
    Safe s (l ++ l') s' := by
  induction h with
  | nil => exact h'
  | cons sound taken _ ih => exact .cons sound taken (ih h')

theorem Safe.sound_start {l : List (SceneStep P)} (h : Safe s l s') : s.Sound := by
  cases h with
  | nil sound => exact sound
  | cons sound _ _ => exact sound

theorem Safe.sound_end {l : List (SceneStep P)} (h : Safe s l s') : s'.Sound := by
  induction h with
  | nil sound => exact sound
  | cons _ _ _ ih => exact ih

theorem Safe.single {a : SceneStep P} (sound : s.Sound) (taken : (step a).run s = .ok () s')
    (sound' : s'.Sound) : Safe s [a] s' := .cons sound taken (.nil sound')

theorem Safe.run_eq {l : List (SceneStep P)} (h : Safe s l s') : (run l).run s = .ok () s' := by
  induction h with
  | nil => rfl
  | cons _ taken _ ih =>
    rw [run_cons, run_bind_of_ok taken]
    exact ih

/-- A safe run passes through a sound scene at each place. -/
theorem Safe.split {l l' : List (SceneStep P)} (h : Safe s (l ++ l') s') :
    ∃ s₁, Safe s l s₁ ∧ Safe s₁ l' s' := by
  induction l generalizing s with
  | nil => exact ⟨s, .nil h.sound_start, h⟩
  | cons a l ih =>
    cases h with
    | cons sound taken safe =>
      obtain ⟨s₁, h, h'⟩ := ih safe
      exact ⟨s₁, .cons sound taken h, h'⟩

/-! ### Single steps -/

theorem run_register {h : Handler P} {r : Registry P} (hr : s.table.register h = .ok r) :
    (step (.register h)).run s = .ok () { s with table := r } := by
  rw [step, run_register_eq, hr]

/-- Handlers of the mirrored tree are registered one after another. -/
theorem exists_safe_registrations (hm : s.surface.Mirrors t) (ht : t.Labelled)
    (hn : (t.marks true).Nodup) (hk : s.Knows t) {ks : List (NodeId × Handler P)}
    (hks : ks ⊆ t.handlers) :
    ∃ s', Safe s (ks.map fun k => .register k.2) s' ∧ s'.surface = s.surface
      ∧ ∀ id h, s'.table.get? id = some h
        ↔ s.table.get? id = some h ∨ ∃ k ∈ ks, k.2 = h ∧ h.id = id := by
  induction ks generalizing s with
  | nil => exact ⟨s, .nil (hk.backed hm ht).sound, rfl, fun id h => by simp⟩
  | cons k ks ih =>
    have hkt : k ∈ t.handlers := hks List.mem_cons_self
    obtain ⟨r, hr, hget⟩ := Registry.register_eq (r := s.table) (h := k.2) fun j hj => by
      obtain ⟨w, hw, hid⟩ := hk _ j hj
      exact congrArg Prod.snd (Node.handler_eq_of_id_eq hn hw hkt hid)
    have hk' : Knows { s with table := r } t := by
      intro id j hj
      rcases (hget id j).mp hj with hj | ⟨rfl, hid⟩
      · exact hk id j hj
      · exact ⟨k.1, hkt, hid⟩
    obtain ⟨s', hsafe, hsurface, hget'⟩ := ih (s := { s with table := r }) hm hk'
      fun l hl => hks (List.mem_cons_of_mem _ hl)
    refine ⟨s', .cons (hk.backed hm ht).sound (run_register hr) hsafe, hsurface, fun id h => ?_⟩
    rw [hget', hget]
    constructor
    · rintro ((h | h) | ⟨l, hl, h⟩)
      · exact Or.inl h
      · exact Or.inr ⟨k, List.mem_cons_self, h.1, h.1 ▸ h.2⟩
      · exact Or.inr ⟨l, List.mem_cons_of_mem _ hl, h⟩
    · rintro (h | ⟨l, hl, h, hid⟩)
      · exact Or.inl (Or.inl h)
      · rcases List.mem_cons.mp hl with rfl | hl
        · exact Or.inl (Or.inr ⟨h, h ▸ hid⟩)
        · exact Or.inr ⟨l, hl, h, hid⟩

/-! ### The scene along a patch -/

theorem InStep.clear (h : s.InStep t) {before : List (SceneStep P)} {out : List HandlerId}
    (hc : Clears before out) :
    ∃ s₀, Safe s before s₀ ∧ s₀.surface = s.surface
      ∧ ∀ id j, s₀.table.get? id = some j ↔ s.table.get? id = some j ∧ id ∉ out := by
  have hknows : ∀ (s₀ : Scene P), s₀.surface = s.surface →
      (∀ id j, s₀.table.get? id = some j → s.table.get? id = some j) → s₀.Sound := by
    intro s₀ hsurface hget
    have hk : s₀.Knows t := fun id j hj => (h.holds id j).mp (hget id j hj)
    exact (hk.backed (hsurface ▸ h.mirrors) h.labelled).sound
  cases hc with
  | nothing => exact ⟨s, .nil h.backed.sound, rfl, fun id j => by simp⟩
  | handler x =>
    have hget : ∀ id j, (s.table.unregister x).get? id = some j
        ↔ s.table.get? id = some j ∧ id ∉ [x] := by
      intro id j
      rw [Registry.get?_unregister, List.mem_singleton]
      split
      · rename_i hid
        simp [hid]
      · rename_i hid
        exact (and_iff_left hid).symm
    refine ⟨{ s with table := s.table.unregister x }, ?_, rfl, hget⟩
    exact .single h.backed.sound rfl (hknows _ rfl fun id j hj => ((hget id j).mp hj).1)
  | tree n =>
    have hget : ∀ id j, (s.table.unregisterTree n).get? id = some j
        ↔ s.table.get? id = some j ∧ id ∉ n.handlerIds := by
      intro id j
      rw [Registry.get?_unregisterTree]
      split
      · rename_i hid
        simp [hid]
      · rename_i hid
        exact (and_iff_left hid).symm
    refine ⟨{ s with table := s.table.unregisterTree n }, ?_, rfl, hget⟩
    exact .single h.backed.sound rfl (hknows _ rfl fun id j hj => ((hget id j).mp hj).1)

/-- A patch that clears what goes and registers what comes leads from one tree to the other, if
the surface takes it there. -/
theorem InStep.turn (h : s.InStep t) {p : Patch P} {f : Surface}
    (hrun : (Surface.apply p).run s.surface = .ok () f) (hm : f.Mirrors t') (ht : t'.Labelled)
    (hn : (t'.marks true).Nodup)
    (hturn : ∀ k, k ∈ t'.handlers ↔ (k ∈ t.handlers ∧ k.2.id ∉ p.outgoing) ∨ k ∈ p.incoming)
    {before : List (SceneStep P)} (hc : Clears before p.outgoing) :
    ∃ s', Safe s (before ++ .patch p :: p.incoming.map fun k => .register k.2) s'
      ∧ s'.surface = f ∧ s'.InStep t' := by
  -- Less is registered at first, then the surface changes, and then the rest is registered: the table
  -- never holds more than what listens.
  obtain ⟨s₀, hsafe, hsurface, hget⟩ := h.clear hc
  have hrun₀ : (step (.patch p)).run s₀ = .ok () { s₀ with surface := f } :=
    run_onSurface (hsurface ▸ hrun)
  have hknows : Knows { s₀ with surface := f } t' := by
    intro id j hj
    obtain ⟨hj, hout⟩ := (hget id j).mp hj
    obtain ⟨w, hw, hid⟩ := (h.holds id j).mp hj
    exact ⟨w, (hturn (w, j)).mpr (Or.inl ⟨hw, fun hx => hout (hid ▸ hx)⟩), hid⟩
  have hincoming : p.incoming ⊆ t'.handlers := fun k hk => (hturn k).mpr (Or.inr hk)
  obtain ⟨s', hsafe', hsurface', hget'⟩ := exists_safe_registrations hm ht hn hknows hincoming
  refine ⟨s', hsafe.append (.cons hsafe.sound_end hrun₀ hsafe'), hsurface', ?_⟩
  refine ⟨hsurface' ▸ hm, ht, hn, fun id j => ?_⟩
  rw [hget', hget, h.holds]
  constructor
  · rintro (⟨⟨w, hw, hid⟩, hout⟩ | ⟨k, hk, rfl, hid⟩)
    · exact ⟨w, (hturn (w, j)).mpr (Or.inl ⟨hw, fun hx => hout (hid ▸ hx)⟩), hid⟩
    · exact ⟨k.1, hincoming hk, hid⟩
  · rintro ⟨w, hw, hid⟩
    rcases (hturn (w, j)).mp hw with ⟨hw, hout⟩ | hk
    · exact Or.inl ⟨⟨w, hw, hid⟩, fun hx => hout (hid ▸ hx)⟩
    · exact Or.inr ⟨(w, j), hk, rfl, hid⟩

/-- A patch that gives a handler a new payload leaves it in the table until the surface has
changed. -/
theorem InStep.retain (h : s.InStep t) {x : NodeId} {j k : Handler P} {f : Surface}
    (hrun : (Surface.apply (.updateAttribute x (.handler j) (.handler k))).run s.surface
      = .ok () f)
    (hm : f.Mirrors t') (ht : t'.Labelled) (hn : (t'.marks true).Nodup)
    (hturn : ∀ l, l ∈ t'.handlers ↔ (l ∈ t.handlers ∧ l.2.id ≠ j.id) ∨ l = (x, k))
    (hold : (x, j) ∈ t.handlers) (hid : j.id = k.id) (hev : j.event = k.event) :
    ∃ s', Safe s [.patch (.updateAttribute x (.handler j) (.handler k)), .replace k] s'
      ∧ s'.surface = f ∧ s'.InStep t' := by
  have hknew : (x, k) ∈ t'.handlers := (hturn _).mpr (Or.inr rfl)
  -- Between the two steps the table has the old payload, which soundness does not ask about.
  have hmiddle : Backed { s with surface := f } t' := by
    refine ⟨hm, ht, fun id l hl => ?_⟩
    obtain ⟨w, hw, hlid⟩ := (h.holds id l).mp hl
    by_cases hsame : l.id = j.id
    · have heq := Node.handler_eq_of_id_eq h.marks hw hold hsame
      obtain rfl : l = j := congrArg Prod.snd heq
      exact ⟨(x, k), hknew, hid.symm.trans hlid, hev.symm⟩
    · exact ⟨(w, l), (hturn _).mpr (Or.inl ⟨hw, hsame⟩), hlid, rfl⟩
  have hstep : (step (.replace k)).run { s with surface := f }
      = .ok () { surface := f, table := s.table.replace k } := rfl
  have hin : InStep { surface := f, table := s.table.replace k } t' :=
    ⟨hm, ht, hn, h.holds.replace hn hturn hid⟩
  exact ⟨_, .cons h.backed.sound (run_onSurface hrun) (.single hmiddle.sound hstep hin.backed.sound),
    rfl, hin⟩

/-- The steps of a patch lead the scene from one tree to the next. -/
theorem InStep.patch (h : s.InStep t) {p : Patch P} (hp : p.Leads true t t') :
    ∃ s', Safe s (SceneStep.ofPatch p) s' ∧ s.surface.NodesOnly s'.surface ∧ s'.InStep t' := by
  obtain ⟨f, hrun, hnodes, hm⟩ := h.mirrors.apply hp (Node.nodup_ids_of_marks h.marks)
  have ht := hp.labelled h.labelled
  have hn := hp.nodup_marks h.marks
  have hturn := hp.mem_handlers_iff h.marks
  rcases ofPatch_cases p with ⟨x, j, k, rfl, hid, hsteps⟩ | ⟨before, hc, hsteps⟩
  · have hkey : j.event = k.event := by
      cases hp with
      | intro C n target suits clear => exact (AttributeKey.event.inj suits.2.2.1).symm
    have hturn' : ∀ l, l ∈ t'.handlers ↔ (l ∈ t.handlers ∧ l.2.id ≠ j.id) ∨ l = (x, k) :=
      fun l => (hturn l).trans
        (or_congr (and_congr_right fun _ => not_congr List.mem_singleton) List.mem_singleton)
    obtain ⟨s', hsafe, hsurface, hin⟩ :=
      h.retain hrun hm ht hn hturn' hp.old_mem_handlers hid hkey
    rw [hsteps]
    exact ⟨s', hsafe, hsurface ▸ hnodes, hin⟩
  · obtain ⟨s', hsafe, hsurface, hin⟩ := h.turn hrun hm ht hn hturn hc
    rw [hsteps]
    exact ⟨s', hsafe, hsurface ▸ hnodes, hin⟩

/-- The steps of a course lead the scene from its first tree to its last. -/
theorem InStep.take (h : s.InStep t) {ps : List (Patch P)} (hps : Course true t ps t') :
    ∃ s', Safe s (ps.flatMap SceneStep.ofPatch) s' ∧ s.surface.NodesOnly s'.surface
      ∧ s'.InStep t' := by
  induction hps generalizing s with
  | nil => exact ⟨s, .nil h.backed.sound, .refl _, h⟩
  | cons hp _ ih =>
    obtain ⟨s₁, hsafe, hnodes, hin⟩ := h.patch hp
    obtain ⟨s', hsafe', hnodes', hin'⟩ := ih hin
    exact ⟨s', hsafe.append hsafe', hnodes.trans hnodes', hin'⟩

/-! ### Whole differences -/

/-- The patches between two trees of the same root lead the scene from the one to the other, and so
does the replacement of a root. -/
theorem InStep.take_patches {old new : Node P} (h : s.InStep old) (hnew : new.Tidy)
    (hn : (new.marks true).Nodup) {known : HandlerId → Prop}
    (hrev : old.id = new.id → Revision true known new.ids old new) :
    ∃ s', Safe s ((Difference.patches old new).flatMap SceneStep.ofPatch) s'
      ∧ s.surface.NodesOnly s'.surface ∧ s'.InStep new := by
  by_cases hroot : old.id = new.id ∧ old.SameShape new
  · obtain ⟨t, hcourse, halike⟩ := Difference.course_patches (hrev hroot.1) hroot.2
    obtain ⟨s', hsafe, hnodes, hin⟩ := h.take hcourse
    exact ⟨s', hsafe, hnodes, hin.of_alike halike⟩
  · rw [Difference.patches_apart hroot, List.flatMap_singleton]
    obtain ⟨f, hrun, hnodes, hm⟩ := h.mirrors.apply_of_fits (Patch.fits_replaceRoot hnew)
      fun _ _ he => nomatch he
    have hturn : ∀ k, k ∈ new.handlers ↔ (k ∈ old.handlers
        ∧ k.2.id ∉ (Patch.replaceChild none old new).outgoing)
        ∨ k ∈ (Patch.replaceChild none old new).incoming := by
      refine fun k => ⟨Or.inr, fun hk => hk.resolve_left ?_⟩
      rintro ⟨hk, hno⟩
      exact hno (List.mem_map_of_mem hk)
    obtain ⟨s', hsafe, hsurface, hin⟩ := h.turn hrun hm hnew.keys hn hturn (.tree old)
    exact ⟨s', hsafe, hsurface ▸ hnodes, hin⟩

/-- The steps of a first tree lead the scene to it. -/
theorem exists_safe_ofTree {root : Node P} (hroot : s.surface.IsEmpty)
    (htable : ∀ id, s.table.get? id = none) (ht : root.Tidy) (hn : (root.marks true).Nodup) :
    ∃ s', Safe s (SceneStep.ofTree root) s' ∧ s.surface.NodesOnly s'.surface
      ∧ s'.InStep root := by
  have hempty : ∀ f : Surface, Sound { s with surface := f } := by
    intro f id j hj
    rw [show Scene.table { s with surface := f } = s.table from rfl, htable] at hj
    exact nomatch hj
  obtain ⟨a, r, handle, hrun, hshows⟩ :=
    (Surface.render_decides hroot.1 hroot.2 root .first).accepts ⟨ht.assigned, ht.nodup⟩
  have hnodes : s.surface.NodesOnly { s.surface with arena := a, root := r, handle } :=
    ⟨a, r, handle, rfl⟩
  generalize { s.surface with arena := a, root := r, handle } = f at hrun hshows hnodes
  have hm : f.Mirrors root := ⟨root.erased, hshows, .refl _⟩
  have hknows : Knows { s with surface := f } root := by
    intro id j hj
    rw [show Scene.table { s with surface := f } = s.table from rfl, htable] at hj
    exact nomatch hj
  obtain ⟨s', hsafe, hsurface, hget⟩ := exists_safe_registrations hm ht.keys hn hknows
    (List.Subset.refl _)
  refine ⟨s', .cons (hempty s.surface) (run_onSurface hrun) hsafe, hsurface ▸ hnodes, ?_⟩
  refine ⟨hsurface ▸ hm, ht.keys, hn, fun id j => ?_⟩
  rw [hget]
  constructor
  · rintro (hj | ⟨k, hk, rfl, hid⟩)
    · exact hknows id j hj
    · exact ⟨k.1, hk, hid⟩
  · rintro ⟨w, hw, hid⟩
    exact Or.inr ⟨(w, j), hw, rfl, hid⟩

end Scene

end ViewLoop
