import ViewLoop.Proofs.Bounds
import ViewLoop.Session.Loop

/-!
# What becomes of messages

An account of the messages that wait when the loop is called, and of those that come while it has
control. They are passed to the program in the order in which they came, and those that were not
taken still wait when the call ends, but for one: the loop takes a message before it looks whether
the program was started, or whether the limit allows one more, and where it gives up there the
message goes nowhere (`Session.loop_accounted`).
-/

namespace ViewLoop

/-- What happens to messages while the loop has control. -/
inductive Happening (M : Type) where
  /-- A worker finishes while the loop waits, and these messages join the queue. -/
  | arrival (added : List M)
  /-- The oldest message is taken and passed to the program, and its cycle adds these. -/
  | passed (m : M) (added : List M)
  /-- The oldest message is taken, and goes nowhere. -/
  | lost (m : M)

namespace Happening

variable {M : Type}

def enqueued : Happening M → List M
  | arrival added => added
  | passed _ added => added
  | lost _ => []

def taken : Happening M → List M
  | arrival _ => []
  | passed m _ => [m]
  | lost m => [m]

/-- The message that the program is given to update its model. -/
def updated : Happening M → List M
  | arrival _ => []
  | passed m _ => [m]
  | lost _ => []

end Happening

theorem Mailbox.queue_of_next? {M : Type} {b rest : Mailbox M} {m : M}
    (h : b.next? = some (m, rest)) : b.queue = m :: rest.queue := by
  rw [next?] at h
  split at h
  · cases h
  · obtain ⟨rfl, rfl⟩ := Prod.mk.inj (Option.some.inj h)
    assumption

namespace Session

variable {Flags Model M D E X α : Type} [DecidableEq M] [DecidableEq D]
  {p : Program Flags Model M D E X} {s s₁ s' : Session Model M D X}

/-- One happening leads from the first session to the second. -/
inductive Happens (p : Program Flags Model M D E X) :
    Session Model M D X → Happening M → Session Model M D X → Prop
  | arrival {s : Session Model M D X} {ms added : List M} {rest : List (List M)}
      (waiting : s.mailbox.queue = []) (workers : s.mailbox.workers = ms :: rest)
      (queue : (s.mailbox.finishWorker ms rest).queue = added) :
      Happens p s (.arrival added) { s with mailbox := s.mailbox.finishWorker ms rest }
  | passed {s : Session Model M D X} {m : M} {rest : Mailbox M}
      {live : Live Model (Response D M)} {added : List M} {s' : Session Model M D X}
      (next : s.mailbox.next? = some (m, rest)) (live_eq : s.live = some live)
      (run : finalState ((process p m).run { s with mailbox := rest }) = s')
      (queue : s'.mailbox.queue = rest.queue ++ added) : Happens p s (.passed m added) s'
  | lost {s : Session Model M D X} {m : M} {rest : Mailbox M}
      (next : s.mailbox.next? = some (m, rest)) :
      Happens p s (.lost m) { s with mailbox := rest }

/-- Happenings in order lead from the first session to the second. -/
inductive Unfolds (p : Program Flags Model M D E X) :
    Session Model M D X → List (Happening M) → Session Model M D X → Prop
  | nil (s : Session Model M D X) : Unfolds p s [] s
  | cons {s s₁ s' : Session Model M D X} {h : Happening M} {hs : List (Happening M)}
      (first : Happens p s h s₁) (rest : Unfolds p s₁ hs s') : Unfolds p s (h :: hs) s'

/-- Nothing else comes into the queue or leaves it, and all in order. -/
theorem Happens.balance {h : Happening M} (hh : Happens p s h s') :
    s.mailbox.queue ++ h.enqueued = h.taken ++ s'.mailbox.queue := by
  cases hh with
  | arrival waiting workers queue => rw [waiting, List.nil_append]; exact queue.symm
  | passed next live_eq run queue =>
    rw [Mailbox.queue_of_next? next, queue]
    rfl
  | lost next =>
    rw [Mailbox.queue_of_next? next]
    simp [Happening.enqueued, Happening.taken]

theorem Unfolds.balance {hs : List (Happening M)} (h : Unfolds p s hs s') :
    s.mailbox.queue ++ hs.flatMap Happening.enqueued
      = hs.flatMap Happening.taken ++ s'.mailbox.queue := by
  induction h with
  | nil s => simp
  | cons first rest ih =>
    rw [List.flatMap_cons, List.flatMap_cons, ← List.append_assoc, first.balance,
      List.append_assoc, ih, List.append_assoc]

theorem Unfolds.append {hs hs' : List (Happening M)} (h : Unfolds p s hs s₁)
    (h' : Unfolds p s₁ hs' s') : Unfolds p s (hs ++ hs') s' := by
  induction h with
  | nil s => exact h'
  | cons first rest ih => exact .cons first (ih h')

/-! ### Accounts -/

/-- The call failed where it had taken a message and not passed it on. -/
def GaveUp (r : EStateM.Result LoopError (Session Model M D X) α) : Prop :=
  ∃ e s', r = .error e s' ∧ e.GivesUp

/-- The happenings lead to where the call ended. The messages passed to the program and those that
still wait are those that waited and those that came, in this order; if the call gave up, one is
missing between the two. -/
structure Accounted (p : Program Flags Model M D E X) (s : Session Model M D X)
    (r : EStateM.Result LoopError (Session Model M D X) α) (hs : List (Happening M)) : Prop where
  unfolds : Unfolds p s hs (finalState r)
  kept : ¬GaveUp r → s.mailbox.queue ++ hs.flatMap Happening.enqueued
    = hs.flatMap Happening.updated ++ (finalState r).mailbox.queue
  missing : GaveUp r → ∃ m, s.mailbox.queue ++ hs.flatMap Happening.enqueued
    = hs.flatMap Happening.updated ++ m :: (finalState r).mailbox.queue

theorem accounted_nil {r : EStateM.Result LoopError (Session Model M D X) α}
    (hr : ¬GaveUp r) (hs : finalState r = s) : Accounted p s r [] := by
  subst hs
  exact ⟨.nil _, fun _ => by simp, fun h => absurd h hr⟩

theorem accounted_lost {m : M} {rest : Mailbox M} (hnext : s.mailbox.next? = some (m, rest))
    {e : LoopError} (he : e.GivesUp) :
    Accounted p s (.error e { s with mailbox := rest } : EStateM.Result _ _ α) [.lost m] := by
  refine ⟨.cons (.lost hnext) (.nil _), fun h => absurd ⟨e, _, rfl, he⟩ h, fun _ => ⟨m, ?_⟩⟩
  simp [Mailbox.queue_of_next? hnext, Happening.enqueued, Happening.updated, finalState]

/-- What happened before, with no message lost, is put before an account. -/
theorem Accounted.after {r : EStateM.Result LoopError (Session Model M D X) α}
    {hs hs' : List (Happening M)} (h : Accounted p s₁ r hs') (hbefore : Unfolds p s hs s₁)
    (hsame : hs.flatMap Happening.taken = hs.flatMap Happening.updated) :
    Accounted p s r (hs ++ hs') := by
  have hbalance := hbefore.balance
  rw [hsame] at hbalance
  refine ⟨hbefore.append h.unfolds, fun hr => ?_, fun hr => ?_⟩
  · rw [List.flatMap_append, List.flatMap_append, ← List.append_assoc, hbalance,
      List.append_assoc, h.kept hr, List.append_assoc]
  · obtain ⟨m, hm⟩ := h.missing hr
    refine ⟨m, ?_⟩
    rw [List.flatMap_append, List.flatMap_append, ← List.append_assoc, hbalance,
      List.append_assoc, hm, List.append_assoc]

/-! ### The loop -/

theorem process_of_not_started (hlive : s.live = none) (m : M) :
    (process p m).run s = .error .notStarted s := by
  rw [process, run_get_bind, hlive]
  rfl

/-- A cycle of a started session adds to the queue, and does not fail as if it had taken a
message. -/
theorem process_of_live {live : Live Model (Response D M)} (hlive : s.live = some live) (m : M) :
    (∃ added, (finalState ((process p m).run s)).mailbox.queue = s.mailbox.queue ++ added)
      ∧ ∀ e s', (process p m).run s = .error e s' → ¬e.GivesUp := by
  obtain ⟨rest, hrest, hrun⟩ := exists_confines_process (p := p) hlive m rfl
    fun q hq h hh => List.mem_flatMap.mpr ⟨q, hq, hh⟩
  rw [hrun]
  obtain ⟨added, hadded⟩ := (hrest.state _).queue
  exact ⟨⟨added, hadded.symm⟩, hrest.failure _⟩

/-- A message that was taken is passed to the program, or lost if nothing is live. -/
theorem exists_accounted_process {m : M} {rest : Mailbox M}
    (hnext : s.mailbox.next? = some (m, rest)) {f : Unit → Action Model M D X α}
    (hf : ∀ s, ∃ hs, Accounted p s ((f ()).run s) hs) :
    ∃ hs, Accounted p s ((process p m >>= f).run { s with mailbox := rest }) hs := by
  rcases Option.eq_none_or_eq_some s.live with hlive | ⟨live, hlive⟩
  · have hrun := process_of_not_started (p := p) (s := { s with mailbox := rest }) hlive m
    rw [run_bind_of_error hrun]
    exact ⟨_, accounted_lost hnext trivial⟩
  · obtain ⟨⟨added, hadded⟩, hfail⟩ :=
      process_of_live (p := p) (s := { s with mailbox := rest }) hlive m
    have hfirst : Unfolds p s [.passed m added]
        (finalState ((process p m).run { s with mailbox := rest })) :=
      .cons (.passed hnext hlive rfl hadded) (.nil _)
    cases hrun : (process p m).run { s with mailbox := rest } with
    | ok u s₁ =>
      rw [hrun] at hfirst
      obtain ⟨hs, h⟩ := hf s₁
      rw [run_bind_of_ok hrun]
      exact ⟨_, h.after hfirst rfl⟩
    | error e s₁ =>
      rw [hrun] at hfirst
      rw [run_bind_of_error hrun]
      have hgo : ¬GaveUp (.error e s₁ : EStateM.Result LoopError (Session Model M D X) α) := by
        rintro ⟨e', s', he, hgives⟩
        exact hfail e s₁ hrun ((EStateM.Result.error.inj he).1 ▸ hgives)
      exact ⟨_, (accounted_nil hgo rfl).after hfirst rfl⟩

/-- While the loop waits, workers finish, until there is a message to be taken or none to wait
for. -/
theorem exists_unfolds_await (p : Program Flags Model M D E X) (idle : Mailbox M → Bool)
    (s : Session Model M D X) (workers : List (List M)) (hworkers : s.mailbox.workers = workers) :
    ∃ hs b, Unfolds p s hs { s with mailbox := b }
      ∧ hs.flatMap Happening.taken = hs.flatMap Happening.updated
      ∧ ((∃ m rest, b.next? = some (m, rest)
            ∧ Mailbox.await idle s.mailbox workers = (.message m, rest))
          ∨ ∃ w, (∀ m, w ≠ .message m) ∧ Mailbox.await idle s.mailbox workers = (w, b)) := by
  induction workers generalizing s with
  | nil =>
    refine ⟨[], s.mailbox, .nil s, rfl, ?_⟩
    rw [Mailbox.await]
    cases hnext : s.mailbox.next? with
    | some q => exact Or.inl ⟨q.1, q.2, rfl, rfl⟩
    | none =>
      refine Or.inr ⟨_, fun m => ?_, rfl⟩
      split <;> simp
  | cons ms workers ih =>
    rw [Mailbox.await]
    cases hnext : s.mailbox.next? with
    | some q => exact ⟨[], s.mailbox, .nil s, rfl, Or.inl ⟨q.1, q.2, hnext, rfl⟩⟩
    | none =>
      dsimp only
      split
      · exact ⟨[], s.mailbox, .nil s, rfl, Or.inr ⟨.quiescent, by simp, rfl⟩⟩
      · obtain ⟨hs, b, hrest, hsame, hend⟩ :=
          ih { s with mailbox := s.mailbox.finishWorker ms workers } rfl
        refine ⟨.arrival _ :: hs, b, .cons (.arrival ?_ hworkers rfl) hrest, hsame, hend⟩
        exact Mailbox.next?_eq_none_iff.mp hnext

theorem exists_accounted_await (idle : Mailbox M → Bool) {f : Wait M → Action Model M D X α}
    (hmessage : ∀ (s : Session Model M D X) m rest, s.mailbox.next? = some (m, rest) →
      ∃ hs, Accounted p s ((f (.message m)).run { s with mailbox := rest }) hs)
    (hend : ∀ s w, (∀ m, w ≠ .message m) → ∃ hs, Accounted p s ((f w).run s) hs) :
    ∃ hs, Accounted p s ((await (fun b => b.await idle b.workers) >>= f).run s) hs := by
  have hrun : (await (fun b => b.await idle b.workers) >>= f).run s
      = (f (Mailbox.await idle s.mailbox s.mailbox.workers).1).run
        { s with mailbox := (Mailbox.await idle s.mailbox s.mailbox.workers).2 } := rfl
  rw [hrun]
  obtain ⟨hs, b, hbefore, hsame, ⟨m, rest, hnext, hawait⟩ | ⟨w, hw, hawait⟩⟩ :=
    exists_unfolds_await p idle s _ rfl
  · rw [hawait]
    obtain ⟨hs', h⟩ := hmessage { s with mailbox := b } m rest hnext
    exact ⟨_, h.after hbefore hsame⟩
  · rw [hawait]
    obtain ⟨hs', h⟩ := hend { s with mailbox := b } w hw
    exact ⟨_, h.after hbefore hsame⟩

theorem exists_accounted_pure (s : Session Model M D X) (a : α) :
    ∃ hs, Accounted p s ((pure a : Action Model M D X α).run s) hs := by
  refine ⟨[], accounted_nil ?_ rfl⟩
  rintro ⟨e, s', he, -⟩
  exact nomatch he

theorem exists_accounted_quiesceWithin (done fuel : Nat) :
    ∃ hs, Accounted p s ((quiesceWithin p done fuel).run s) hs := by
  induction fuel generalizing done s with
  | zero =>
    rw [quiesceWithin]
    refine exists_accounted_await Mailbox.isIdle (fun s m rest hnext => ?_) fun s w hw => ?_
    · exact ⟨_, accounted_lost hnext trivial⟩
    · cases w with
      | message m => exact absurd rfl (hw m)
      | quiescent => exact exists_accounted_pure s _
      | blocked => exact exists_accounted_pure s _
  | succ fuel ih =>
    rw [quiesceWithin]
    refine exists_accounted_await Mailbox.isIdle (fun s m rest hnext => ?_) fun s w hw => ?_
    · exact exists_accounted_process hnext fun s => ih (done + 1)
    · cases w with
      | message m => exact absurd rfl (hw m)
      | quiescent => exact exists_accounted_pure s _
      | blocked => exact exists_accounted_pure s _

theorem exists_accounted_run (fuel : Nat) : ∃ hs, Accounted p s ((run p fuel).run s) hs := by
  induction fuel generalizing s with
  | zero => exact exists_accounted_pure s _
  | succ fuel ih =>
    rw [run]
    refine exists_accounted_await (fun b => b.isIdle && b.senders == 0)
      (fun s m rest hnext => ?_) fun s w hw => ?_
    · exact exists_accounted_process hnext fun s => ih
    · cases w with
      | message m => exact absurd rfl (hw m)
      | quiescent => exact exists_accounted_pure s _
      | blocked => exact exists_accounted_pure s _

theorem exists_accounted_step : ∃ hs, Accounted p s ((step p).run s) hs := by
  rw [step, run_get_bind]
  cases hnext : s.mailbox.next? with
  | none => exact exists_accounted_pure s false
  | some q => exact exists_accounted_process hnext fun s => exists_accounted_pure s true

/-- Whatever the session and the program, a call of the loop can be accounted for: every message
that waited or came was passed to the program or still waits, in order, but for the one that is
lost if the call gave up. -/
theorem loop_accounted (p : Program Flags Model M D E X) (s : Session Model M D X) :
    (∃ hs, Accounted p s ((step p).run s) hs) ∧ ∃ hs, Accounted p s ((quiesce p).run s) hs :=
  ⟨exists_accounted_step, exists_accounted_quiesceWithin 0 s.settings.maxMessages⟩

/-- Of two messages that wait, a call that may process one passes on the first and loses the second:
the program has not seen it, and it does not wait afterwards. One that waits for a session that was
not started is lost to the first step. -/
theorem loop_loses :
    let p : Program Unit (List Nat) Nat Empty Empty Unit := {
      init := fun _ _ => ([], .none)
      update := fun m seen => (seen ++ [m], .none)
      view := fun _ => { title := "", head := [], body := .text (.keyed "page") "" }
      urlChanged := fun _ => 0
      effectFailed := fun _ => 0
      execute := none }
    let new := fresh { maxMessages := 1 } { scheme := "app", path := .segments [] } ()
    let started := finalState ((start p ()).run new)
    (∃ s', (quiesce p).run { started with mailbox := { started.mailbox with queue := [1, 2] } }
        = .error (.messageLimit 1) s'
      ∧ s'.live.map Live.model = some [1] ∧ s'.mailbox.queue = [])
      ∧ ∃ s', (step p).run { new with mailbox := { new.mailbox with queue := [1] } }
          = .error .notStarted s' ∧ s'.mailbox.queue = [] := by
  intro p new started
  exact ⟨⟨_, rfl, rfl, rfl⟩, ⟨_, rfl, rfl⟩⟩

end Session

end ViewLoop
