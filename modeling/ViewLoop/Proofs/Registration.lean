import Mathlib.Data.List.Induction
import ViewLoop.Proofs.HandlerTable

/-!
# Registration of a tree

Registering a tree adds its handlers to the table one after another. A handler conflicts if another
one has its identity, in the table or before it in the tree (`Registry.Conflicts`). Without a
conflict the table ends with all handlers of the tree, and otherwise with those before the first
conflict, which the error names. Taking the tree out again undoes a registration that found none of
its identities in the table (`Registry.registerTree_unites`).

A scene registers the handlers of a tree in steps of their own; together they do what a registration
of the tree does (`Registry.run_registrations`).
-/

namespace ViewLoop

variable {P : Type}

namespace Registry

variable {r r' : Registry P} {before after hs : List (Handler P)} {h : Handler P} {n : Node P}

/-- A handler other than `h` has the identity of `h`, in the table or before it. -/
def Conflicts (r : Registry P) (before : List (Handler P)) (h : Handler P) : Prop :=
  ∃ other, (r.get? h.id = some other ∨ other ∈ before ∧ other.id = h.id) ∧ other ≠ h

/-- None of the handlers conflicts with the table or with one before it. -/
def Admits (r : Registry P) (hs : List (Handler P)) : Prop :=
  ∀ before h after, hs = before ++ h :: after → ¬r.Conflicts before h

/-- The table `r'` finds what `r` finds and the handlers, each under its identity, and no more. -/
def Extends (r' r : Registry P) (hs : List (Handler P)) : Prop :=
  ∀ id h, r'.get? id = some h ↔ r.get? id = some h ∨ h ∈ hs ∧ h.id = id

/-! ### The first conflict -/

theorem admits_nil (r : Registry P) : r.Admits [] := by
  intro before h after hsplit
  exact absurd hsplit (by simp)

theorem admits_concat_iff : r.Admits (hs ++ [h]) ↔ r.Admits hs ∧ ¬r.Conflicts hs h := by
  constructor
  · intro hadmits
    refine ⟨fun before k after hsplit => ?_, hadmits hs h [] rfl⟩
    exact hadmits before k (after ++ [h]) (by rw [hsplit, List.append_assoc, List.cons_append])
  · rintro ⟨hadmits, hlast⟩ before k after hsplit
    rcases List.eq_nil_or_concat after with rfl | ⟨after, x, rfl⟩
    · obtain ⟨rfl, heq⟩ := List.append_inj' hsplit rfl
      obtain rfl := List.singleton_inj.mp heq
      exact hlast
    · rw [List.concat_eq_append, ← List.cons_append, ← List.append_assoc] at hsplit
      exact hadmits before k after (List.append_inj' hsplit rfl).1

theorem exists_first_conflict (hc : ¬r.Admits hs) :
    ∃ before h after, hs = before ++ h :: after ∧ r.Admits before ∧ r.Conflicts before h := by
  induction hs using List.reverseRecOn with
  | nil => exact absurd (admits_nil r) hc
  | append_singleton hs h ih =>
    by_cases hadmits : r.Admits hs
    · have hlast : r.Conflicts hs h :=
        by_contra fun hno => hc (admits_concat_iff.mpr ⟨hadmits, hno⟩)
      exact ⟨hs, h, [], rfl, hadmits, hlast⟩
    · obtain ⟨before, k, after, rfl, hbefore, hk⟩ := ih hadmits
      exact ⟨before, k, after ++ [h], by rw [List.append_assoc, List.cons_append], hbefore, hk⟩

/-! ### One handler -/

theorem Extends.refl (r : Registry P) : r.Extends r [] := by
  intro id h
  simp

theorem Extends.conflicts_iff (hr : r'.Extends r before) :
    r.Conflicts before h ↔ ∃ other, r'.get? h.id = some other ∧ other ≠ h := by
  refine exists_congr fun other => and_congr_left fun _ => ?_
  exact (hr h.id other).symm

section Registering

variable [DecidableEq P]

theorem Extends.register_of_not_conflicts (hr : r'.Extends r before)
    (hfree : ¬r.Conflicts before h) :
    ∃ r'', r'.register h = .ok r'' ∧ r''.Extends r (before ++ [h]) := by
  rw [hr.conflicts_iff] at hfree
  obtain ⟨r'', hok, hget⟩ := register_eq fun j hj => by_contra fun hne => hfree ⟨j, hj, hne⟩
  refine ⟨r'', hok, fun id j => ?_⟩
  have hlast : h = j ∧ h.id = id ↔ j = h ∧ j.id = id := by
    constructor <;>
    · rintro ⟨rfl, rfl⟩
      exact ⟨rfl, rfl⟩
  rw [hget, hr, hlast, List.mem_append, List.mem_singleton, or_and_right, or_assoc]

theorem Extends.register_of_conflicts (hr : r'.Extends r before) (hc : r.Conflicts before h) :
    r'.register h = .error ⟨h.id, h.event⟩ := by
  obtain ⟨other, hother, hne⟩ := hr.conflicts_iff.mp hc
  simp only [register, hother, if_neg hne]

/-! ### Handlers one after another -/

theorem registerAll_append (hok : r.registerAll before = (r', .ok ())) (after : List (Handler P)) :
    r.registerAll (before ++ after) = r'.registerAll after := by
  induction before generalizing r with
  | nil =>
    obtain ⟨rfl, -⟩ := Prod.mk.inj hok
    rfl
  | cons h before ih =>
    rw [registerAll] at hok
    rw [List.cons_append, registerAll]
    cases hr : r.register h with
    | ok r₁ =>
      rw [hr] at hok
      exact ih hok
    | error e =>
      rw [hr] at hok
      exact nomatch hok

theorem registerAll_of_admits (hs : List (Handler P)) (hadmits : r.Admits hs) :
    ∃ r', r.registerAll hs = (r', .ok ()) ∧ r'.Extends r hs := by
  induction hs using List.reverseRecOn with
  | nil => exact ⟨r, rfl, .refl r⟩
  | append_singleton hs h ih =>
    obtain ⟨hbefore, hfree⟩ := admits_concat_iff.mp hadmits
    obtain ⟨r₁, hok, hr₁⟩ := ih hbefore
    obtain ⟨r', hok', hr'⟩ := hr₁.register_of_not_conflicts hfree
    refine ⟨r', ?_, hr'⟩
    rw [registerAll_append hok, registerAll, hok']
    rfl

theorem registerAll_of_conflicts (hadmits : r.Admits before) (hc : r.Conflicts before h)
    (after : List (Handler P)) :
    ∃ r', r.registerAll (before ++ h :: after) = (r', .error ⟨h.id, h.event⟩)
      ∧ r'.Extends r before := by
  obtain ⟨r', hok, hr'⟩ := registerAll_of_admits before hadmits
  refine ⟨r', ?_, hr'⟩
  rw [registerAll_append hok, registerAll, hr'.register_of_conflicts hc]

end Registering

/-! ### What is left when the tree goes -/

theorem handlers_replace (hfree : r.get? h.id = none) :
    (r.replace h).handlers = r.handlers ++ [h] := by
  rw [replace, unregister, List.filter_eq_self.mpr]
  intro k hk
  have hno := List.find?_eq_none.mp hfree k hk
  simpa using hno

/-- Registering handlers changes nothing of what the table holds before. -/
theorem exists_handlers_registerAll [DecidableEq P] (r : Registry P) (hs : List (Handler P)) :
    ∃ added, (r.registerAll hs).1.handlers = r.handlers ++ added ∧ added ⊆ hs := by
  induction hs generalizing r with
  | nil => exact ⟨[], (List.append_nil _).symm, List.Subset.refl _⟩
  | cons h hs ih =>
    rw [registerAll]
    cases hr : r.register h with
    | error e => exact ⟨[], (List.append_nil _).symm, List.nil_subset _⟩
    | ok r₁ =>
      obtain ⟨added, heq, hsub⟩ := ih r₁
      cases hg : r.get? h.id with
      | none =>
        simp only [register, hg, Except.ok.injEq] at hr
        subst hr
        refine ⟨h :: added, ?_, List.cons_subset_cons h hsub⟩
        rw [heq, handlers_replace hg, List.append_assoc, List.singleton_append]
      | some other =>
        simp only [register, hg] at hr
        split at hr
        · obtain rfl := Except.ok.inj hr
          exact ⟨added, heq, fun k hk => List.mem_cons_of_mem _ (hsub hk)⟩
        · cases hr

/-- A tree none of whose identities was taken leaves no trace in the table. -/
theorem unregisterTree_registerTree [DecidableEq P] (hfree : ∀ id ∈ n.handlerIds, r.get? id = none) :
    (r.registerTree n).1.unregisterTree n = r := by
  obtain ⟨added, heq, hsub⟩ := exists_handlers_registerAll r (n.handlers.map Prod.snd)
  have hold : r.handlers.filter (fun h => h.id ∉ n.handlerIds) = r.handlers := by
    refine List.filter_eq_self.mpr fun k hk => decide_eq_true fun hmem => ?_
    exact List.find?_eq_none.mp (hfree _ hmem) k hk (decide_eq_true rfl)
  have hnew : added.filter (fun h => h.id ∉ n.handlerIds) = [] := by
    refine List.filter_eq_nil_iff.mpr fun k hk => ?_
    have hmem : k.id ∈ n.handlerIds := n.map_id_handlers ▸ List.mem_map_of_mem (hsub hk)
    simpa using hmem
  have hhandlers : ((r.registerTree n).1.unregisterTree n).handlers = r.handlers := by
    rw [handlers_unregisterTree, registerTree, heq, List.filter_append, hold, hnew,
      List.append_nil]
  cases r
  exact congrArg Registry.mk hhandlers

/-! ### Registration in steps -/

theorem run_registrations [DecidableEq P] (f : Surface) (r : Registry P) (n : Node P) :
    (Scene.run (SceneStep.registrations n)).run ⟨f, r⟩ = match r.registerTree n with
      | (table, .ok ()) => .ok () ⟨f, table⟩
      | (table, .error e) => .error (.duplicateHandler e) ⟨f, table⟩ := by
  rw [SceneStep.registrations, registerTree]
  generalize n.handlers = hs
  induction hs generalizing r with
  | nil => rfl
  | cons h hs ih =>
    have hstep : (Scene.step (.register h.2)).run ⟨f, r⟩ = _ := Scene.run_register_eq h.2 ⟨f, r⟩
    dsimp only at hstep
    rw [List.map_cons, List.map_cons, Scene.run_cons, registerAll]
    cases hr : r.register h.2 with
    | ok table =>
      rw [hr] at hstep
      rw [run_bind_of_ok hstep, ih]
    | error e =>
      rw [hr] at hstep
      rw [run_bind_of_error hstep]

/-! ### Whole trees -/

/-- The registration of a tree succeeds iff no handler conflicts, and adds them all then; otherwise
it adds those before the first conflict and names this one. The steps with which a scene registers
a tree come to the same. Once registered, the tree can be taken out: exactly its identities go,
which leaves the table of before if it had none of them. -/
theorem registerTree_unites [DecidableEq P] (r : Registry P) (n : Node P) :
    let hs := n.handlers.map Prod.snd
    let r' := (r.registerTree n).1
    let steps := SceneStep.registrations n
    ((r.registerTree n).2 = .ok () ↔ r.Admits hs)
      ∧ ((r.registerTree n).2 = .ok () → r'.Extends r hs
        ∧ (∀ f : Surface, (Scene.run steps).run ⟨f, r⟩ = .ok () ⟨f, r'⟩)
        ∧ (∀ id, (r'.unregisterTree n).get? id
          = if id ∈ hs.map Handler.id then none else r'.get? id)
        ∧ ((∀ id ∈ hs.map Handler.id, r.get? id = none) → r'.unregisterTree n = r))
      ∧ ∀ e, (r.registerTree n).2 = .error e →
        (∃ before h after, hs = before ++ h :: after
          ∧ r.Admits before ∧ r.Conflicts before h ∧ e = ⟨h.id, h.event⟩ ∧ r'.Extends r before)
        ∧ ∀ f : Surface, (Scene.run steps).run ⟨f, r⟩ = .error (.duplicateHandler e) ⟨f, r'⟩ := by
  intro hs r' steps
  have hids : hs.map Handler.id = n.handlerIds := n.map_id_handlers
  by_cases hadmits : r.Admits hs
  · obtain ⟨r₁, hrun, hextends⟩ := registerAll_of_admits hs hadmits
    rw [← registerTree] at hrun
    have hr' : r' = r₁ := congrArg Prod.fst hrun
    have hok : (r.registerTree n).2 = .ok () := congrArg Prod.snd hrun
    refine ⟨iff_of_true hok hadmits, fun _ => ⟨hr' ▸ hextends, fun f => ?_, ?_, ?_⟩, fun e he => ?_⟩
    · rw [run_registrations, hr', hrun]
    · exact fun id => hids.symm ▸ get?_unregisterTree r' n id
    · exact fun hfree => unregisterTree_registerTree (hids ▸ hfree)
    · rw [hok] at he
      cases he
  · obtain ⟨before, h, after, hsplit, hbefore, hc⟩ := exists_first_conflict hadmits
    obtain ⟨r₁, hrun, hextends⟩ := registerAll_of_conflicts hbefore hc after
    rw [← hsplit, ← registerTree] at hrun
    have hr' : r' = r₁ := congrArg Prod.fst hrun
    have herror : (r.registerTree n).2 = .error ⟨h.id, h.event⟩ := congrArg Prod.snd hrun
    have hnot : (r.registerTree n).2 ≠ .ok () := by
      rw [herror]
      exact nofun
    refine ⟨iff_of_false hnot hadmits, fun hok => absurd hok hnot, fun e he => ?_⟩
    obtain rfl : ⟨h.id, h.event⟩ = e := Except.error.inj (herror.symm.trans he)
    refine ⟨⟨before, h, after, hsplit, hbefore, hc, rfl, hr' ▸ hextends⟩, fun f => ?_⟩
    rw [run_registrations, hr', hrun]

/-- An equal handler may come again. One with another payload is refused, and what comes after it is
not registered although nothing stands in its way. -/
example :
    let click (payload : Nat) : Handler Nat := ⟨"click", ⟨1⟩, payload⟩
    let form (payload : Nat) : Node Nat := .element (.keyed "form") "form"
      [.handler ⟨"submit", ⟨2⟩, 0⟩] [.element (.keyed "save") "button" [.handler (click payload)] [],
        .element (.keyed "name") "input" [.handler ⟨"input", ⟨3⟩, 0⟩] []]
    let r : Registry Nat := ⟨[click 7]⟩
    (r.registerTree (form 7)).2 = .ok () ∧ (r.registerTree (form 7)).1.size = 3
      ∧ (r.registerTree (form 8)).2 = .error ⟨⟨1⟩, "click"⟩
      ∧ (r.registerTree (form 8)).1.size = 2 := by
  decide

end Registry

end ViewLoop
