import ViewLoop.Proofs.Ledger
import ViewLoop.Proofs.Surroundings

/-!
# Cycles that commit

A cycle commits all or nothing. Where its rendering fails, what was live stays live, nothing is
counted, and no part of the command is carried out; where it succeeds, the next document is live
and counted, whatever becomes of the command (`Session.commits_all_or_nothing`). So the version of a
surface tells how many messages were processed, wherever calls that failed and calls that succeeded
have brought a session (`Session.Called.inCount`).
-/

namespace ViewLoop

variable {Flags Model M D E X α : Type}

theorem Surface.preserves_navigation (url : String) :
    ∀ edit ∈ [pushUrl url, replaceUrl url, loadUrl url], Preserves version edit := by
  have hplace : ∀ place : Url → Surface → Surface, (∀ next s, (place next s).version = s.version) →
      Preserves version (do
        let next ← require ((← get).resolve url)
        modify (place next)
        return next) := fun place h =>
    preserves_reading (fun s => s.resolve url) fun next =>
      Heeds.bind (.modify fun s => h next s) fun _ => .pure next
  intro edit hedit
  simp only [List.mem_cons, List.not_mem_nil, or_false] at hedit
  rcases hedit with rfl | rfl | rfl
  · exact hplace
      (fun next s => { s with history := s.history ++ [next], current := next }) fun _ _ => rfl
  · exact hplace (fun next s =>
      { s with history := s.history.dropLast ++ [next], current := next }) fun _ _ => rfl
  · exact hplace (fun next s =>
      { s with loads := s.loads ++ [next], history := s.history ++ [next], current := next })
      fun _ _ => rfl

namespace Session

/-! ### Renderings -/

/-- From the first session to the second nothing was committed, and nothing was asked of the
outside: the same document is live, as many messages were processed, and the surface has the same
version and is in the same place. -/
structure Uncommitted (s t : Session Model M D X) : Prop where
  live : t.live = s.live
  processed : t.processed = s.processed
  version : t.scene.surface.version = s.scene.surface.version
  mailbox : t.mailbox = s.mailbox
  executor : t.executor = s.executor
  current : t.scene.surface.current = s.scene.surface.current
  history : t.scene.surface.history = s.scene.surface.history
  loads : t.scene.surface.loads = s.scene.surface.loads

/-- What a surface tells of its batches and of its place. -/
def course (f : Surface) : Version × Url × List Url × List Url :=
  (f.version, f.current, f.history, f.loads)

theorem unseen_course : Surface.Unseen course :=
  ⟨fun _ _ _ _ => rfl, fun _ _ => rfl, fun _ _ => rfl⟩

theorem uncommitted_of_same {s t : Session Model M D X} (h : Same (around course) s t) :
    s.Uncommitted t := by
  simp only [Same, around, course, Prod.mk.injEq] at h
  obtain ⟨hmailbox, hexecutor, hlive, hprocessed, hversion, hcurrent, hhistory, hloads⟩ := h
  exact ⟨hlive, hprocessed, hversion, hmailbox, hexecutor, hcurrent, hhistory, hloads⟩

/-- The document went live, and its batch is counted. -/
structure Shown (next : Live Model (Response D M)) (s t : Session Model M D X) : Prop where
  live : t.live = some next
  version : t.scene.surface.version = s.scene.surface.version.next
  processed : t.processed = s.processed
  mailbox : t.mailbox = s.mailbox
  executor : t.executor = s.executor

/-- A rendering shows the document, or it fails before the end of the batch and commits nothing. -/
theorem shown_or_uncommitted {p : Program Flags Model M D E X} {model : Model}
    {change : Action Model M D X (Version × Node (Response D M))} {body : Node (Response D M)}
    {s : Session Model M D X} (hchange : s.Uncommitted (finalState (change.run s)))
    (hstart : ∀ r t, change.run s = .ok r t → r = (s.scene.surface.version, body)) :
    (∃ t, (change >>= fun r => conclude p model r.1 r.2).run s = .ok () t
        ∧ Shown ⟨model, (p.view model).title, (p.view model).head, body⟩ s t)
      ∨ ∃ e t, (change >>= fun r => conclude p model r.1 r.2).run s = .error e t
        ∧ s.Uncommitted t := by
  cases h : change.run s with
  | ok r t =>
    rw [h] at hchange
    obtain rfl := hstart r t h
    have hsame : t.scene.surface.version = s.scene.surface.version := hchange.version
    have hrun := run_conclude p model body t
    rw [hsame] at hrun
    exact Or.inl ⟨_, (run_bind_of_ok h _).trans hrun, rfl, rfl, hchange.processed,
      hchange.mailbox, hchange.executor⟩
  | error e t =>
    rw [h] at hchange
    exact Or.inr ⟨e, t, run_bind_of_error h _, hchange⟩

variable [DecidableEq M] [DecidableEq D] {p : Program Flags Model M D E X}
  {live : Live Model (Response D M)} {model : Model} {s t : Session Model M D X}

theorem uncommitted_changeFirst (p : Program Flags Model M D E X) (model : Model)
    (s : Session Model M D X) : s.Uncommitted (finalState ((changeFirst p model).run s)) :=
  uncommitted_of_same ((preserves_changeFirst unseen_course p model).state s)

theorem uncommitted_changeNext (p : Program Flags Model M D E X) (live : Live Model (Response D M))
    (model : Model) (s : Session Model M D X) :
    s.Uncommitted (finalState ((changeNext p live model).run s)) :=
  uncommitted_of_same ((preserves_changeNext unseen_course p live model).state s)

theorem start_of_changeFirst {r : Version × Node (Response D M)}
    (h : (changeFirst p model).run s = .ok r t) :
    r = (s.scene.surface.version, (upcoming p none s.supply model).body) := by
  rw [changeFirst, run_bind_of_ok (run_align _ _), run_get_bind] at h
  obtain ⟨_, _, -, h⟩ := exists_of_run_bind_eq_ok h
  obtain ⟨_, _, -, h⟩ := exists_of_run_bind_eq_ok h
  obtain ⟨_, _, -, h⟩ := exists_of_run_bind_eq_ok h
  exact (EStateM.Result.ok.inj h).1.symm

theorem start_of_changeNext {r : Version × Node (Response D M)}
    (h : (changeNext p live model).run s = .ok r t) :
    r = (s.scene.surface.version, (upcoming p (some live.body) s.supply model).body) := by
  rw [changeNext, run_bind_of_ok (run_align _ _), run_get_bind] at h
  obtain ⟨_, _, -, h⟩ := exists_of_run_bind_eq_ok h
  dsimp only at h
  split at h
  · obtain ⟨_, _, -, h⟩ := exists_of_run_bind_eq_ok h
    obtain ⟨_, _, -, h⟩ := exists_of_run_bind_eq_ok h
    exact (EStateM.Result.ok.inj h).1.symm
  · obtain ⟨_, _, -, h⟩ := exists_of_run_bind_eq_ok h
    exact (EStateM.Result.ok.inj h).1.symm

theorem renderFirst_cases (p : Program Flags Model M D E X) (model : Model)
    (s : Session Model M D X) :
    (∃ t, (renderFirst p model).run s = .ok () t ∧ Shown (upcoming p none s.supply model) s t)
      ∨ ∃ e t, (renderFirst p model).run s = .error e t ∧ s.Uncommitted t := by
  rw [renderFirst_eq]
  exact shown_or_uncommitted (uncommitted_changeFirst p model s) fun _ _ => start_of_changeFirst

theorem renderNext_cases (p : Program Flags Model M D E X) (live : Live Model (Response D M))
    (model : Model) (s : Session Model M D X) :
    (∃ t, (renderNext p live model).run s = .ok () t
        ∧ Shown (upcoming p (some live.body) s.supply model) s t)
      ∨ ∃ e t, (renderNext p live model).run s = .error e t ∧ s.Uncommitted t := by
  rw [renderNext_eq]
  exact shown_or_uncommitted (uncommitted_changeNext p live model s) fun _ _ => start_of_changeNext

theorem shown_of_renderNext (h : (renderNext p live model).run s = .ok () t) :
    Shown (upcoming p (some live.body) s.supply model) s t := by
  rcases renderNext_cases p live model s with ⟨t', hrun, hshown⟩ | ⟨e, t', hrun, -⟩
  · rw [h] at hrun
    obtain ⟨-, rfl⟩ := EStateM.Result.ok.inj hrun
    exact hshown
  · rw [h] at hrun
    exact nomatch hrun

theorem uncommitted_of_renderNext {e : LoopError}
    (h : (renderNext p live model).run s = .error e t) : s.Uncommitted t := by
  rcases renderNext_cases p live model s with ⟨t', hrun, -⟩ | ⟨e', t', hrun, hsame⟩
  · rw [h] at hrun
    exact nomatch hrun
  · rw [h] at hrun
    obtain ⟨-, rfl⟩ := EStateM.Result.error.inj hrun
    exact hsame

/-- The end of a batch does not fail where the changes have been made. -/
theorem endBatch_of_changeFirst {start : Version} {body : Node (Response D M)}
    (h : (changeFirst p model).run s = .ok (start, body) t) :
    ∃ t', (endBatch start).run t = .ok () t' := by
  have hsame := uncommitted_changeFirst p model s
  rw [h] at hsame
  obtain ⟨rfl, -⟩ := Prod.mk.inj (start_of_changeFirst h)
  exact ⟨_, hsame.version ▸ run_endBatch t⟩

theorem endBatch_of_changeNext {start : Version} {body : Node (Response D M)}
    (h : (changeNext p live model).run s = .ok (start, body) t) :
    ∃ t', (endBatch start).run t = .ok () t' := by
  have hsame := uncommitted_changeNext p live model s
  rw [h] at hsame
  obtain ⟨rfl, -⟩ := Prod.mk.inj (start_of_changeNext h)
  exact ⟨_, hsame.version ▸ run_endBatch t⟩

/-! ### Cycles -/

/-- The document is live, and the cycle is counted. -/
structure Committed (next : Live Model (Response D M)) (s t : Session Model M D X) : Prop where
  live : t.live = some next
  processed : t.processed = s.processed + 1
  version : t.scene.surface.version = s.scene.surface.version.next

/-- What a cycle commits to. -/
def record (s : Session Model M D X) : Option (Live Model (Response D M)) × Nat × Version :=
  (s.live, s.processed, s.scene.surface.version)

omit [DecidableEq M] [DecidableEq D] in
/-- A command does not touch what was committed. -/
theorem preserves_dispatch (p : Program Flags Model M D E X) (c : Command E) :
    Preserves record (dispatch p c : Action Model M D X Unit) := by
  refine heeds_dispatch (fun url edit hedit => ?_) (fun m => .modify fun _ => rfl) (fun e => ?_) c
  · have haround : Preserves (around Surface.version) (onSurface edit : Action Model M D X Url) :=
      preserves_onSurface (Surface.preserves_navigation url edit hedit)
    exact haround.told fun t => (t.2.2.1, t.2.2.2.1, t.2.2.2.2)
  · rw [perform]
    split
    · exact .modify fun _ => rfl
    · refine .get_bind fun s => Heeds.bind (.modify fun _ => rfl) fun _ => ?_
      split
      · exact .pure ()
      · exact Heeds.bind (.modify fun _ => rfl) fun _ => .modify fun _ => rfl

theorem process_of_error (hlive : s.live = some live) {m : M} {e : LoopError}
    (h : (renderNext p live (p.update m live.model).1).run s = .error e t) :
    (process p m).run s = .error e t := by
  rw [run_process_of_some p m hlive]
  exact run_bind_of_error h _

theorem process_of_ok (hlive : s.live = some live) {m : M}
    (h : (renderNext p live (p.update m live.model).1).run s = .ok () t) :
    (process p m).run s
      = (dispatch p (p.update m live.model).2).run { t with processed := t.processed + 1 } := by
  rw [run_process_of_some p m hlive, run_bind_of_ok h, run_bind_of_ok (run_modify _)]

theorem committed_of_process (hlive : s.live = some live) {m : M}
    (h : (renderNext p live (p.update m live.model).1).run s = .ok () t) :
    Committed (upcoming p (some live.body) s.supply (p.update m live.model).1) s
      (finalState ((process p m).run s)) := by
  have hshown := shown_of_renderNext h
  have hrecord := (preserves_dispatch p (p.update m live.model).2).state
    { t with processed := t.processed + 1 }
  rw [process_of_ok hlive h]
  simp only [Same, record, Prod.mk.injEq] at hrecord
  obtain ⟨hlive', hprocessed, hversion⟩ := hrecord
  exact ⟨hlive'.trans hshown.live, hprocessed.trans (congrArg (· + 1) hshown.processed),
    hversion.trans hshown.version⟩

/-! ### Any calls -/

/-- The sessions that come about from a fresh one by any calls, whether they end well or not. In
between, the host may do what it likes with the mailbox, the executor and the handler table. -/
inductive Called (p : Program Flags Model M D E X) : Session Model M D X → Prop
  | fresh (settings : Settings) (url : Url) (executor : X) :
    Called p (fresh settings url executor)
  | start {s : Session Model M D X} (h : Called p s) (flags : Flags) :
    Called p (finalState ((start p flags).run s))
  | process {s : Session Model M D X} (h : Called p s) (m : M) :
    Called p (finalState ((process p m).run s))
  | step {s : Session Model M D X} (h : Called p s) : Called p (finalState ((step p).run s))
  | quiesce {s : Session Model M D X} (h : Called p s) : Called p (finalState ((quiesce p).run s))
  | run {s : Session Model M D X} (h : Called p s) (fuel : Nat) :
    Called p (finalState ((run p fuel).run s))
  | host {s : Session Model M D X} (h : Called p s) (mailbox : Mailbox M) (executor : X)
    (warnings : List Warning) (table : Registry (Response D M)) :
    Called p { s with mailbox, executor, warnings, scene := { s.scene with table } }

/-- The batches of the surface are those of the first document and of the messages processed. -/
structure InCount (s : Session Model M D X) : Prop where
  idle : s.live = none → s.processed = 0 ∧ s.scene.surface.version = .initial
  started : s.live.isSome = true →
    s.scene.surface.version.val.toNat = (s.processed + 1) % UInt64.size

omit [DecidableEq M] [DecidableEq D] in
theorem InCount.of_record (h : s.InCount) (hrecord : t.record = s.record) : t.InCount := by
  simp only [record, Prod.mk.injEq] at hrecord
  obtain ⟨hlive, hprocessed, hversion⟩ := hrecord
  refine ⟨fun ht => ?_, fun ht => ?_⟩
  · rw [hprocessed, hversion]
    exact h.idle (hlive ▸ ht)
  · rw [hprocessed, hversion]
    exact h.started (hlive ▸ ht)

omit [DecidableEq M] [DecidableEq D] in
theorem Uncommitted.inCount (h : s.Uncommitted t) (hs : s.InCount) : t.InCount :=
  hs.of_record (by rw [record, h.live, h.processed, h.version]; rfl)

omit [DecidableEq M] [DecidableEq D] in
theorem inCount_fresh (settings : Settings) (url : Url) (executor : X) :
    (fresh settings url executor : Session Model M D X).InCount :=
  ⟨fun _ => ⟨rfl, rfl⟩, fun h => nomatch h⟩

theorem inCount_start (hs : s.InCount) (flags : Flags) :
    (finalState ((start p flags).run s)).InCount := by
  cases hlive : s.live with
  | some live =>
    have hrun : (start p flags).run s = .error .alreadyStarted s := by
      rw [start, run_get_bind, hlive]
      rfl
    rw [hrun]
    exact hs
  | none =>
    rw [run_start_of_none p flags hlive]
    rcases renderFirst_cases p (p.init flags s.scene.surface.current).1 s with
      ⟨t, hrender, hshown⟩ | ⟨e, t, hrender, hsame⟩
    · rw [run_bind_of_ok hrender]
      obtain ⟨hprocessed, hversion⟩ := hs.idle hlive
      have ht : t.InCount := by
        refine ⟨fun h => absurd (hshown.live.symm.trans h) (Option.some_ne_none _), fun _ => ?_⟩
        rw [hshown.version, hshown.processed, hversion, hprocessed]
        rfl
      exact ht.of_record ((preserves_dispatch p _).state t)
    · rw [run_bind_of_error hrender]
      exact hsame.inCount hs

theorem inCount_process (hs : s.InCount) (m : M) :
    (finalState ((process p m).run s)).InCount := by
  cases hlive : s.live with
  | none =>
    rw [process_of_not_started hlive]
    exact hs
  | some live =>
    rcases renderNext_cases p live (p.update m live.model).1 s with
      ⟨t, hrender, -⟩ | ⟨e, t, hrender, hsame⟩
    · have hcommitted := committed_of_process hlive hrender
      have hversion := hs.started (by rw [hlive]; rfl)
      refine ⟨fun h => absurd (hcommitted.live.symm.trans h) (Option.some_ne_none _), fun _ => ?_⟩
      rw [hcommitted.version, hcommitted.processed, Version.toNat_val_next, hversion]
      exact Nat.mod_add_mod (s.processed + 1) UInt64.size 1
    · rw [process_of_error hlive hrender]
      exact hsame.inCount hs

theorem Happens.inCount {h : Happening M} (hh : Happens p s h t) (hs : s.InCount) : t.InCount := by
  cases hh with
  | arrival waiting workers queue => exact hs.of_record rfl
  | @passed m rest live added _ next live_eq run queue =>
    have hrest : ({ s with mailbox := rest } : Session Model M D X).InCount := hs.of_record rfl
    exact run ▸ inCount_process hrest m
  | lost next => exact hs.of_record rfl

theorem Unfolds.inCount {hs : List (Happening M)} (h : Unfolds p s hs t) (hin : s.InCount) :
    t.InCount := by
  induction h with
  | nil s => exact hin
  | cons first rest ih => exact ih (first.inCount hin)

theorem Called.inCount (h : Called p s) : s.InCount := by
  induction h with
  | fresh settings url executor => exact inCount_fresh settings url executor
  | start h flags ih => exact inCount_start ih flags
  | process h m ih => exact inCount_process ih m
  | @step s h ih =>
    obtain ⟨hs, haccounted⟩ := exists_accounted_step (p := p) (s := s)
    exact haccounted.unfolds.inCount ih
  | @quiesce s h ih =>
    obtain ⟨hs, haccounted⟩ := exists_accounted_quiesceWithin (p := p) (s := s) 0
      s.settings.maxMessages
    exact haccounted.unfolds.inCount ih
  | @run s h fuel ih =>
    obtain ⟨hs, haccounted⟩ := exists_accounted_run (p := p) (s := s) fuel
    exact haccounted.unfolds.inCount ih
  | host h mailbox executor warnings table ih => exact ih.of_record rfl

/-- A cycle whose rendering fails commits nothing, and does not touch its command. One whose
rendering succeeds commits to the next document, even where its command fails. The end of the batch
is no reason for a rendering to fail. So the version of the surface is that of the first document
and of the messages processed, after any calls, whether they ended well or not. -/
theorem commits_all_or_nothing (p : Program Flags Model M D E X) :
    (∀ (s : Session Model M D X) (live : Live Model (Response D M)) (m : M),
      s.live = some live →
      let next := p.update m live.model
      (∀ e t, (renderNext p live next.1).run s = .error e t →
        (process p m).run s = .error e t ∧ s.Uncommitted t)
      ∧ ∀ t, (renderNext p live next.1).run s = .ok () t →
        (process p m).run s = (dispatch p next.2).run { t with processed := t.processed + 1 }
        ∧ Committed (upcoming p (some live.body) s.supply next.1) s
          (finalState ((process p m).run s)))
    ∧ (∀ (model : Model), (renderFirst p model : Action Model M D X Unit) = (do
        let (start, body) ← changeFirst p model
        endBatch start
        commit model (p.view model) body)
      ∧ ∀ (s t : Session Model M D X) (start : Version) (body : Node (Response D M)),
        (changeFirst p model).run s = .ok (start, body) t →
        ∃ t', (endBatch start).run t = .ok () t')
    ∧ (∀ (live : Live Model (Response D M)) (model : Model),
      (renderNext p live model : Action Model M D X Unit) = (do
        let (start, body) ← changeNext p live model
        endBatch start
        commit model (p.view model) body)
      ∧ ∀ (s t : Session Model M D X) (start : Version) (body : Node (Response D M)),
        (changeNext p live model).run s = .ok (start, body) t →
        ∃ t', (endBatch start).run t = .ok () t')
    ∧ ∀ s : Session Model M D X, Called p s → s.live.isSome = true →
      s.scene.surface.version.val.toNat = (s.processed + 1) % UInt64.size := by
  refine ⟨fun s live m hlive => ⟨fun e t h => ?_, fun t h => ?_⟩, fun model => ⟨?_, ?_⟩,
    fun live model => ⟨?_, ?_⟩, ?_⟩
  · exact ⟨process_of_error hlive h, uncommitted_of_renderNext h⟩
  · exact ⟨process_of_ok hlive h, committed_of_process hlive h⟩
  · exact renderFirst_eq p model
  · exact fun s t start body h => endBatch_of_changeFirst h
  · exact renderNext_eq p live model
  · exact fun s t start body h => endBatch_of_changeNext h
  · exact fun s hs => hs.inCount.started

/-- A program that shows the number it was told last. For 1 the head has a key twice, and the
rendering fails after the text was changed; for 2 the document goes live, and then the command goes
astray. -/
theorem commits_all_or_nothing_of_failures :
    let p : Program Unit Nat Nat Empty Empty Unit := {
      init := fun _ _ => (0, .none)
      update := fun m _ => (m, .pushUrl "http://[")
      view := fun n => {
        title := "", head := if n = 1 then [.base "/", .base "/"] else []
        body := .text (.keyed "page") (toString n) }
      urlChanged := fun _ => 0
      effectFailed := fun _ => 0
      execute := none }
    let home : Url := { scheme := "app", path := .segments [] }
    let s : Session Nat Nat Empty Unit := finalState ((start p ()).run (fresh {} home ()))
    let failed := finalState ((process p 1).run s)
    let astray := finalState ((process p 2).run failed)
    s.live.map Live.model = some 0
      ∧ failed.live = s.live ∧ failed.scene.surface.version = s.scene.surface.version
      ∧ failed.scene.surface.textOf? (.keyed "page") = some "1"
      ∧ (∀ t, (process p 2).run failed ≠ .ok () t) ∧ astray.processed = failed.processed + 1
      ∧ astray.scene.surface.version.val.toNat = 2 := by
  intro p home s failed astray
  obtain ⟨hcycle, -, -, hcalled⟩ := commits_all_or_nothing p
  have hmodel : s.live.map Live.model = some 0 := by decide +kernel
  obtain ⟨live, hlive, -⟩ := Option.map_eq_some_iff.mp hmodel
  have hfailed : s.Uncommitted failed := by
    cases h : (renderNext p live 1).run s with
    | ok u t =>
      have hcommitted := ((hcycle s live 1 hlive).2 t h).2
      have hstill : failed.processed = s.processed := by decide +kernel
      have hcounted : failed.processed = s.processed + 1 := hcommitted.processed
      omega
    | error e t =>
      obtain ⟨hrun, hsame⟩ := (hcycle s live 1 hlive).1 e t h
      have hend : failed = t := congrArg finalState hrun
      exact hend ▸ hsame
  have hastray : astray.processed = failed.processed + 1 := by
    cases h : (renderNext p live 2).run failed with
    | ok u t => exact ((hcycle failed live 2 (hfailed.live.trans hlive)).2 t h).2.processed
    | error e t =>
      obtain ⟨hrun, hsame⟩ := (hcycle failed live 2 (hfailed.live.trans hlive)).1 e t h
      have hend : astray = t := congrArg finalState hrun
      have hstill : astray.live = failed.live := hend ▸ hsame.live
      have hother : astray.live.map Live.model = some 2 := by decide +kernel
      rw [hstill, hfailed.live, hmodel] at hother
      cases hother
  have hversion := hcalled astray (.process (.process (.start (.fresh {} home ()) ()) 1) 2)
    (by decide +kernel)
  refine ⟨hmodel, hfailed.live, hfailed.version, by decide +kernel, fun t h => ?_, hastray, ?_⟩
  · have hfails : (match (process p 2).run failed with
        | .ok _ _ => false
        | .error _ _ => true) = true := by decide +kernel
    rw [h] at hfails
    cases hfails
  · have hprocessed : astray.processed = 1 := by decide +kernel
    have htwo : (1 + 1) % UInt64.size = 2 := by decide
    rw [hversion, hprocessed, htwo]

end Session

end ViewLoop
