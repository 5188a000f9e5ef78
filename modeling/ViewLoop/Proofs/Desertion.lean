import ViewLoop.Proofs.Commitment
import ViewLoop.Proofs.Traffic
import Mathlib.Logic.Relation

/-!
# Desertion

The loop that runs until nobody is left makes one read at a time, and those who hold senders and
guards go on between any two of them, also while a message is processed (`Shift.Step`). It waits
for a message up to a time. When that has run out it counts the senders, then the guards, and then
looks into the queue. Where it ends nobody is left, the queue is empty, and every message that was
ever sent or posted was processed, in order (`Session.deserted_at_end`).
-/

namespace ViewLoop

variable {Flags Model M D E X α β : Type}

/-- The command goes to an address. -/
def Command.goes : Command E → Bool
  | .pushUrl _ => true
  | .replaceUrl _ => true
  | .loadUrl _ => true
  | .none => false
  | .batch _ => false
  | .effect _ => false

/-! ### What a cycle does to the mailbox -/

namespace Session

/-- The second session has the same document, and what is new in its mailbox are messages. -/
def Puts (s s' : Session Model M D X) : Prop :=
  s'.live = s.live
    ∧ ∃ added, s'.mailbox = { s.mailbox with queue := s.mailbox.queue ++ added }

theorem puts_refl (s : Session Model M D X) : s.Puts s := ⟨rfl, [], by rw [List.append_nil]⟩

instance : IsPreorder (Session Model M D X) Puts where
  refl := puts_refl
  trans := by
    rintro s s₁ s' ⟨hlive, added, hadded⟩ ⟨hlive', added', hadded'⟩
    refine ⟨hlive'.trans hlive, added ++ added', ?_⟩
    rw [hadded', hadded]
    simp only [List.append_assoc]

theorem puts_onSurface (edit : Surface.Edit α) :
    Heeds Puts (fun _ => True) (onSurface edit : Action Model M D X α) := by
  refine ⟨fun s => ?_, fun _ _ _ _ => trivial⟩
  rw [run_onSurface]
  cases edit.run s.scene.surface <;> exact puts_refl s

theorem puts_post (m : M) : Heeds Puts (fun _ => True) (post m : Action Model M D X Unit) :=
  .modify fun _ => ⟨rfl, [m], rfl⟩

theorem puts_dispatch (p : Program Flags Model M D E X) {c : Command E} (hc : c.goes = true) :
    Heeds Puts (fun _ => True) (dispatch p c : Action Model M D X Unit) := by
  cases c with
  | pushUrl url =>
    rw [dispatch]
    exact (puts_onSurface _).bind fun _ => puts_post _
  | replaceUrl url =>
    rw [dispatch]
    exact (puts_onSurface _).bind fun _ => puts_post _
  | loadUrl url =>
    rw [dispatch]
    exact (puts_onSurface _).bind fun _ => .pure ()
  | none => cases hc
  | batch commands => cases hc
  | effect e => cases hc

end Session

/-! ### Shifts -/

/-- What the loop does next. -/
inductive Turn (M E : Type) where
  /-- It waits for a message, up to a time that may run out at any moment. -/
  | receiving
  /-- It counts the senders. -/
  | counting
  /-- It counts the guards. -/
  | checking
  /-- It looks into the queue. -/
  | looking
  | ended
  /-- It has a message to pass to the program. -/
  | cycle (m : M)
  /-- It carries out commands. -/
  | obeying (commands : List (Command E))
  /-- The executor has control, with commands to be carried out afterwards. -/
  | executing (commands : List (Command E))

namespace Turn

/-- It was read that nobody holds a sender, and the loop has not had a message since. -/
def sendersCounted : Turn M E → Bool
  | checking => true
  | looking => true
  | ended => true
  | _ => false

/-- It was read after that that nobody holds a guard. -/
def guardsCounted : Turn M E → Bool
  | looking => true
  | ended => true
  | _ => false

/-- It carries out what the program asked for. -/
def working : Turn M E → Bool
  | obeying _ => true
  | executing _ => true
  | _ => false

/-- The message that was taken and not yet passed on. -/
def inHand : Turn M E → List M
  | cycle m => [m]
  | _ => []

theorem inHand_of_working {turn : Turn M E} (h : turn.working = true) : turn.inHand = [] := by
  cases turn <;> first | rfl | cases h

theorem sendersCounted_of_working {turn : Turn M E} (h : turn.working = true) :
    turn.sendersCounted = false := by
  cases turn <;> first | rfl | cases h

theorem guardsCounted_of_working {turn : Turn M E} (h : turn.working = true) :
    turn.guardsCounted = false := by
  cases turn <;> first | rfl | cases h

end Turn

/-- A session whose loop runs, those who hold senders and guards of its mailbox, and two records:
all messages that were sent or posted, and those that were passed to the program. -/
structure Shift (Model M D E X : Type) where
  session : Session Model M D X
  holders : List Holder
  sent : List M
  processed : List M := []
  turn : Turn M E := .receiving

namespace Shift

/-- The loop begins, with what waits in the queue. -/
def begin (s : Session Model M D X) (holders : List Holder) : Shift Model M D E X :=
  { session := s, holders, sent := s.mailbox.queue }

def traffic (w : Shift Model M D E X) : Traffic M := ⟨w.session.mailbox, w.holders, w.sent⟩

def withTraffic (w : Shift Model M D E X) (t : Traffic M) : Shift Model M D E X :=
  { w with session := { w.session with mailbox := t.mailbox }, holders := t.holders, sent := t.sent }

/-- What holders and the loop do next. Holders may do anything at any time. A cycle that fails has
no next step, as the loop does not go on then. -/
inductive Step [DecidableEq M] [DecidableEq D] (p : Program Flags Model M D E X) :
    Shift Model M D E X → Shift Model M D E X → Prop
  | act {w : Shift Model M D E X} {t : Traffic M}
      (deed : Traffic.Deed (fun _ => true) w.traffic t) : Step p w (w.withTraffic t)
  | take {w : Shift Model M D E X} {m : M} {rest : Mailbox M} (turn : w.turn = .receiving)
      (next : w.session.mailbox.next? = some (m, rest)) :
      Step p w { w with session := { w.session with mailbox := rest }, turn := .cycle m }
  | timeout {w : Shift Model M D E X} (turn : w.turn = .receiving) :
      Step p w { w with turn := .counting }
  | countSenders {w : Shift Model M D E X} (turn : w.turn = .counting) :
      Step p w { w with
        turn := if w.session.mailbox.senders = 0 then .checking else .receiving }
  | countGuards {w : Shift Model M D E X} (turn : w.turn = .checking) :
      Step p w { w with turn := if w.session.mailbox.isIdle then .looking else .receiving }
  | find {w : Shift Model M D E X} {m : M} {rest : Mailbox M} (turn : w.turn = .looking)
      (next : w.session.mailbox.next? = some (m, rest)) :
      Step p w { w with session := { w.session with mailbox := rest }, turn := .cycle m }
  | stop {w : Shift Model M D E X} (turn : w.turn = .looking)
      (next : w.session.mailbox.next? = none) : Step p w { w with turn := .ended }
  | update {w : Shift Model M D E X} {m : M} {live : Live Model (Response D M)}
      {s : Session Model M D X} (turn : w.turn = .cycle m) (live_eq : w.session.live = some live)
      (shown : (Session.renderNext p live (p.update m live.model).1).run w.session = .ok () s) :
      Step p w { w with
        session := { s with processed := s.processed + 1 }
        processed := w.processed ++ [m]
        turn := .obeying (p.update m live.model).2.leaves }
  | navigate {w : Shift Model M D E X} {c : Command E} {rest : List (Command E)}
      {s : Session Model M D X} {added : List M} (turn : w.turn = .obeying (c :: rest))
      (goes : c.goes = true) (done : (Session.dispatch p c).run w.session = .ok () s)
      (queue : s.mailbox.queue = w.session.mailbox.queue ++ added) :
      Step p w { w with session := s, sent := w.sent ++ added, turn := .obeying rest }
  | skip {w : Shift Model M D E X} {e : E} {rest : List (Command E)}
      (turn : w.turn = .obeying (.effect e :: rest)) (execute : p.execute = none) :
      Step p w { w with
        session := { w.session with warnings := w.session.warnings ++ [.effectDropped] }
        turn := .obeying rest }
  | handOver {w : Shift Model M D E X} {e : E} {rest : List (Command E)}
      (turn : w.turn = .obeying (.effect e :: rest)) (execute : p.execute.isSome = true) :
      Step p w { w.withTraffic w.traffic.grant with turn := .executing rest }
  | returns {w : Shift Model M D E X} {rest : List (Command E)} (turn : w.turn = .executing rest)
      (executor : X) :
      Step p w { w with session := { w.session with executor }, turn := .obeying rest }
  | breaksOff {w : Shift Model M D E X} {rest : List (Command E)} (turn : w.turn = .executing rest)
      (executor : X) (cause : CommandError) :
      Step p w { w with
        session := { w.session with
          executor
          warnings := w.session.warnings ++ [.effectFailed cause]
          mailbox := w.session.mailbox.post (p.effectFailed cause) }
        sent := w.sent ++ [p.effectFailed cause]
        turn := .obeying rest }
  | finish {w : Shift Model M D E X} (turn : w.turn = .obeying []) :
      Step p w { w with turn := .receiving }

abbrev Steps [DecidableEq M] [DecidableEq D] (p : Program Flags Model M D E X) :
    Shift Model M D E X → Shift Model M D E X → Prop := Relation.ReflTransGen (Step p)

/-! ### What the loop knows -/

/-- What holds at every turn: what was read of senders and guards is still so, and all messages are
accounted for. `first` is the model at the beginning. -/
structure Knows (p : Program Flags Model M D E X) (first : Option Model)
    (w : Shift Model M D E X) : Prop where
  tallied : w.traffic.Tallied
  split : w.traffic.Split (w.processed ++ w.turn.inHand)
  model : w.session.live.map Live.model
    = first.map fun model => w.processed.foldl (fun model m => (p.update m model).1) model
  senderless : w.turn.sendersCounted = true → w.traffic.Senderless
  guardless : w.turn.guardsCounted = true → w.traffic.Guardless
  queue : w.turn = .ended → w.session.mailbox.queue = []

variable {p : Program Flags Model M D E X} {first : Option Model} {w w' : Shift Model M D E X}

theorem knows_begin (p : Program Flags Model M D E X) {s : Session Model M D X}
    {holders : List Holder} (h : Traffic.Tallied ⟨s.mailbox, holders, s.mailbox.queue⟩) :
    Knows p (s.live.map Live.model) (begin s holders) := by
  refine ⟨h, rfl, ?_, nofun, nofun, nofun⟩
  rw [Option.map_map]
  rfl

theorem Knows.act (h : Knows p first w) {t : Traffic M}
    (hd : Traffic.Deed (fun _ => true) w.traffic t) : Knows p first (w.withTraffic t) where
  tallied := hd.tallied h.tallied
  split := hd.split h.split
  model := h.model
  senderless hturn := (hd.senderless (h.senderless hturn)).1
  guardless hturn := hd.guardless (h.guardless hturn)
  queue hended := by
    have hsenderless := h.senderless (congrArg Turn.sendersCounted hended)
    exact ((hd.senderless hsenderless).2).trans (h.queue hended)

/-- A message is taken from the queue. -/
theorem Knows.take (h : Knows p first w) (hand : w.turn.inHand = []) {m : M} {rest : Mailbox M}
    (next : w.session.mailbox.next? = some (m, rest)) :
    Knows p first { w with session := { w.session with mailbox := rest }, turn := .cycle m } := by
  have hsplit := h.split
  rw [hand, List.append_nil] at hsplit
  exact ⟨h.tallied.next? next, hsplit.next? next, h.model, nofun, nofun, nofun⟩

/-- The loop turns to something else where it knows nothing of who is left. -/
theorem Knows.turnTo (h : Knows p first w) {turn : Turn M E} (hand : turn.inHand = w.turn.inHand)
    (senderless : turn.sendersCounted = true → w.traffic.Senderless)
    (guardless : turn.guardsCounted = true → w.traffic.Guardless)
    (queue : turn = .ended → w.session.mailbox.queue = []) :
    Knows p first { w with turn } :=
  ⟨h.tallied, hand.symm ▸ h.split, h.model, senderless, guardless, queue⟩

/-- While the loop carries out commands, nothing is known of who is left. -/
theorem knows_of_working (working : w.turn.working = true) (tallied : w.traffic.Tallied)
    (split : w.traffic.Split w.processed)
    (model : w.session.live.map Live.model
      = first.map fun model => w.processed.foldl (fun model m => (p.update m model).1) model) :
    Knows p first w := by
  refine ⟨tallied, ?_, model, fun h => ?_, fun h => ?_, fun h => ?_⟩
  · rwa [Turn.inHand_of_working working, List.append_nil]
  · rw [Turn.sendersCounted_of_working working] at h
    cases h
  · rw [Turn.guardsCounted_of_working working] at h
    cases h
  · rw [h] at working
    cases working

theorem Knows.split_of_working (h : Knows p first w) (working : w.turn.working = true) :
    w.traffic.Split w.processed := by
  have hsplit := h.split
  rwa [Turn.inHand_of_working working, List.append_nil] at hsplit

/-- What is put into the queue on the side of the loop is sent after all that was sent before. -/
theorem Knows.put (h : Knows p first w) (working : w.turn.working = true)
    {s : Session Model M D X} (puts : w.session.Puts s) {added : List M}
    (queue : s.mailbox.queue = w.session.mailbox.queue ++ added) (rest : List (Command E)) :
    Knows p first
      { w with session := s, sent := w.sent ++ added, turn := .obeying rest } := by
  obtain ⟨hlive, added', hmailbox⟩ := puts
  refine knows_of_working rfl ⟨?_, ?_, ?_⟩ ?_ ?_
  · exact (congrArg Mailbox.isOpen hmailbox).trans h.tallied.isOpen
  · exact (congrArg Mailbox.senders hmailbox).trans h.tallied.senders
  · exact (congrArg Mailbox.inFlight hmailbox).trans h.tallied.guards
  · have hput := (h.split_of_working working).put added
    exact hput.trans (congrArg (w.processed ++ ·) queue.symm)
  · exact (congrArg (Option.map Live.model) hlive).trans h.model

variable [DecidableEq M] [DecidableEq D]

/-- The message in hand is passed to the program, and the next document is shown. -/
theorem Knows.update (h : Knows p first w) {m : M} {live : Live Model (Response D M)}
    {s : Session Model M D X} (turn : w.turn = .cycle m) (live_eq : w.session.live = some live)
    (shown : (Session.renderNext p live (p.update m live.model).1).run w.session = .ok () s) :
    Knows p first { w with
      session := { s with processed := s.processed + 1 }
      processed := w.processed ++ [m]
      turn := .obeying (p.update m live.model).2.leaves } := by
  have hsame : s.mailbox = w.session.mailbox := by
    have hstate := (Session.preserves_renderNext p live (p.update m live.model).1).state w.session
    rw [shown] at hstate
    exact (Prod.mk.inj hstate).1
  refine knows_of_working rfl ?_ ?_ ?_
  · exact ⟨hsame ▸ h.tallied.isOpen, hsame ▸ h.tallied.senders, hsame ▸ h.tallied.guards⟩
  · have hsplit : w.sent = w.processed ++ w.turn.inHand ++ w.session.mailbox.queue := h.split
    rw [turn, ← hsame] at hsplit
    exact hsplit
  · have hmodel := h.model
    rw [live_eq] at hmodel
    cases first with
    | none => cases hmodel
    | some model =>
      have hlive : live.model
          = w.processed.foldl (fun model m => (p.update m model).1) model := Option.some.inj hmodel
      have hnext := congrArg (Option.map Live.model) (Session.shown_of_renderNext shown).live
      rw [hlive] at hnext
      rw [Option.map_some, List.foldl_append]
      exact hnext

theorem Step.knows (hstep : Step p w w') (h : Knows p first w) : Knows p first w' := by
  cases hstep with
  | act deed => exact h.act deed
  | take turn next => exact h.take (by rw [turn]; rfl) next
  | timeout turn => exact h.turnTo (by rw [turn]; rfl) nofun nofun nofun
  | countSenders turn =>
    by_cases hzero : w.session.mailbox.senders = 0
    · rw [if_pos hzero]
      have hsenderless := h.tallied.senders_iff.mp hzero
      exact h.turnTo (by rw [turn]; rfl) (fun _ => hsenderless) nofun nofun
    · rw [if_neg hzero]
      exact h.turnTo (by rw [turn]; rfl) nofun nofun nofun
  | countGuards turn =>
    have hsenderless := h.senderless (by rw [turn]; rfl)
    by_cases hidle : w.session.mailbox.isIdle = true
    · rw [if_pos hidle]
      have hguardless := h.tallied.isIdle_iff.mp hidle
      exact h.turnTo (by rw [turn]; rfl) (fun _ => hsenderless) (fun _ => hguardless) nofun
    · rw [if_neg hidle]
      exact h.turnTo (by rw [turn]; rfl) nofun nofun nofun
  | find turn next => exact h.take (by rw [turn]; rfl) next
  | stop turn next =>
    have hsenderless := h.senderless (by rw [turn]; rfl)
    have hguardless := h.guardless (by rw [turn]; rfl)
    have hqueue := Mailbox.next?_eq_none_iff.mp next
    exact h.turnTo (by rw [turn]; rfl) (fun _ => hsenderless) (fun _ => hguardless) fun _ => hqueue
  | update turn live_eq shown => exact h.update turn live_eq shown
  | navigate turn goes done queue =>
    have hputs := (Session.puts_dispatch p goes).state w.session
    rw [done] at hputs
    exact h.put (by rw [turn]; rfl) hputs queue _
  | skip turn execute =>
    have hsplit := h.split_of_working (by rw [turn]; rfl)
    exact knows_of_working rfl h.tallied hsplit h.model
  | handOver turn execute =>
    have hsplit := h.split_of_working (by rw [turn]; rfl)
    exact knows_of_working rfl h.tallied.grant hsplit h.model
  | returns turn executor =>
    have hsplit := h.split_of_working (by rw [turn]; rfl)
    exact knows_of_working rfl h.tallied hsplit h.model
  | breaksOff turn executor cause =>
    have hput : w.session.Puts { w.session with
        executor
        warnings := w.session.warnings ++ [.effectFailed cause]
        mailbox := w.session.mailbox.post (p.effectFailed cause) } :=
      ⟨rfl, [p.effectFailed cause], rfl⟩
    exact h.put (by rw [turn]; rfl) hput rfl _
  | finish turn => exact h.turnTo (by rw [turn]; rfl) nofun nofun nofun

theorem Steps.knows (hsteps : Steps p w w') (h : Knows p first w) : Knows p first w' := by
  induction hsteps with
  | refl => exact h
  | tail _ hstep ih => exact hstep.knows ih

end Shift

/-! ### The loop as it is run -/

namespace Mailbox

/-- A wait that ends without a message ends where the queue is empty and nobody is left to wait
for. -/
theorem idle_of_await {idle : Mailbox M → Bool} {b rest : Mailbox M} {workers : List (List M)}
    (h : b.await idle workers = (.quiescent, rest)) : rest.queue = [] ∧ idle rest = true := by
  induction workers generalizing b with
  | nil =>
    rw [await] at h
    cases hnext : b.next? with
    | some q =>
      rw [hnext] at h
      cases h
    | none =>
      rw [hnext] at h
      cases hidle : idle b <;> rw [hidle] at h <;> cases h
      exact ⟨next?_eq_none_iff.mp hnext, hidle⟩
  | cons ms workers ih =>
    rw [await] at h
    cases hnext : b.next? with
    | some q =>
      rw [hnext] at h
      cases h
    | none =>
      rw [hnext] at h
      dsimp only at h
      cases hidle : idle b with
      | true =>
        rw [hidle] at h
        cases h
        exact ⟨next?_eq_none_iff.mp hnext, hidle⟩
      | false =>
        rw [hidle] at h
        exact ih h

end Mailbox

namespace Session

theorem run_await_bind (wait : Mailbox M → Wait M × Mailbox M)
    (f : Wait M → Action Model M D X α) (s : Session Model M D X) : (await wait >>= f).run s
      = (f (wait s.mailbox).1).run { s with mailbox := (wait s.mailbox).2 } := rfl

variable [DecidableEq M] [DecidableEq D] {p : Program Flags Model M D E X}
  {s s' : Session Model M D X}

theorem deserted_of_run {fuel : Nat} (h : (run p fuel).run s = .ok .finished s') :
    s'.mailbox.queue = [] ∧ s'.mailbox.senders = 0 ∧ s'.mailbox.inFlight = 0 := by
  induction fuel generalizing s with
  | zero => cases h
  | succ fuel ih =>
    rw [run, run_await_bind] at h
    rcases hawait : s.mailbox.nextOrDeserted with ⟨w, rest⟩
    rw [hawait] at h
    cases w with
    | message m =>
      obtain ⟨_, s₁, -, hrest⟩ := exists_of_run_bind_eq_ok h
      exact ih hrest
    | quiescent =>
      obtain ⟨-, rfl⟩ := EStateM.Result.ok.inj h
      obtain ⟨hqueue, hidle⟩ := Mailbox.idle_of_await hawait
      rw [Bool.and_eq_true, Mailbox.isIdle, beq_iff_eq, beq_iff_eq] at hidle
      exact ⟨hqueue, hidle.2, hidle.1⟩
    | blocked => cases h

/-- Where the loop ends, nobody holds a sender or a guard, the queue is empty, and every message that
was ever sent or posted was passed to the program, each once and in order. This is so whatever
those who hold senders and guards do between any two reads of the loop, and it is so of the loop as
it is run. -/
theorem deserted_at_end (p : Program Flags Model M D E X) :
    (∀ (s : Session Model M D X) (holders : List Holder),
      Traffic.Tallied ⟨s.mailbox, holders, s.mailbox.queue⟩ →
      ∀ w, Shift.Steps p (Shift.begin s holders) w → w.turn = .ended →
        (∀ h ∈ w.holders, h.sender = false ∧ h.guard = false)
          ∧ w.session.mailbox.senders = 0 ∧ w.session.mailbox.inFlight = 0
          ∧ w.session.mailbox.queue = [] ∧ w.processed = w.sent
          ∧ w.session.live.map Live.model = (s.live.map Live.model).map fun model =>
              w.processed.foldl (fun model m => (p.update m model).1) model)
    ∧ ∀ (fuel : Nat) (s s' : Session Model M D X), (run p fuel).run s = .ok .finished s' →
      s'.mailbox.senders = 0 ∧ s'.mailbox.inFlight = 0 ∧ s'.mailbox.queue = []
        ∧ ∃ hs, Unfolds p s hs s'
          ∧ s.mailbox.queue ++ hs.flatMap Happening.enqueued = hs.flatMap Happening.updated := by
  constructor
  · intro s holders htallied w hsteps hended
    have hw := hsteps.knows (Shift.knows_begin p htallied)
    have hsenderless := hw.senderless (congrArg Turn.sendersCounted hended)
    have hguardless := hw.guardless (congrArg Turn.guardsCounted hended)
    have hqueue := hw.queue hended
    refine ⟨fun h hh => ⟨hsenderless h hh, hguardless h hh⟩, hw.tallied.senders_iff.mpr hsenderless,
      beq_iff_eq.mp (hw.tallied.isIdle_iff.mpr hguardless), hqueue, ?_, hw.model⟩
    have hsplit : w.sent = w.processed ++ w.turn.inHand ++ w.session.mailbox.queue := hw.split
    rw [hended, hqueue, List.append_nil] at hsplit
    exact (hsplit.trans (List.append_nil w.processed)).symm
  · intro fuel s s' hrun
    obtain ⟨hqueue, hsenders, hguards⟩ := deserted_of_run hrun
    obtain ⟨hs, h⟩ := exists_accounted_run (p := p) (s := s) fuel
    rw [hrun] at h
    refine ⟨hsenders, hguards, hqueue, hs, h.unfolds, ?_⟩
    have hkept := h.kept (by rintro ⟨e, t, he, -⟩; cases he)
    have hend : (finalState (.ok RunEnd.finished s' : EStateM.Result LoopError _ _)).mailbox.queue
        = [] := hqueue
    rw [hend, List.append_nil] at hkept
    exact hkept

/-- The last subscriber sends a message and leaves, after a wait has run out. The message starts an
effect, whose context is used and given up while the loop counts. -/
theorem deserted_at_end_of_report :
    let p : Program Unit (List Nat) Nat Empty Unit Unit := {
      init := fun _ _ => ([], .none)
      update := fun m seen => (seen ++ [m], if m = 1 then .effect () else .none)
      view := fun _ => { title := "", head := [], body := .text (.keyed "page") "" }
      urlChanged := fun _ => 0
      effectFailed := fun _ => 0
      execute := some fun _ _ => { state := () } }
    let home : Url := { scheme := "app", path := .segments [] }
    let s : Session (List Nat) Nat Empty Unit := {
      settings := {}, scene := { surface := .fresh home }, mailbox := { senders := 1 }
      executor := (), live := some ⟨[], "", [], .text (.keyed "page") ""⟩ }
    ∃ w, Shift.Steps p (Shift.begin s [.subscriber]) w ∧ w.turn = .ended
      ∧ w.processed = [1, 2] ∧ w.sent = [1, 2] ∧ w.session.mailbox.queue = [] := by
  intro p home s
  let page : Node (Response Empty Nat) := .text (.keyed "page") ""
  let session (seen : List Nat) (version : Version) (mailbox : Mailbox Nat) :
      Session (List Nat) Nat Empty Unit := {
    settings := {}, scene := { surface := { Surface.fresh home with version } }, mailbox
    executor := (), live := some ⟨seen, "", [], page⟩, processed := seen.length }
  let first := Version.initial
  -- the message comes in between the end of the wait and the count
  have h₁ : Shift.Steps p (Shift.begin s [.subscriber])
      ⟨session [] first { queue := [1], senders := 1 }, [.subscriber], [1], [], .receiving⟩ :=
    ((Relation.ReflTransGen.refl.tail (.timeout rfl)).tail
      (.act (.send (m := 1) (List.mem_singleton_self _) rfl rfl rfl))).tail (.countSenders rfl)
  have h₂ : Shift.Steps p (Shift.begin s [.subscriber])
      ⟨session [1] first.next {}, [⟨false, false⟩], [1], [1], .obeying [.effect ()]⟩ :=
    ((h₁.tail (.act (.dropSender (l := []) rfl rfl))).tail (.take rfl rfl)).tail
      (.update (s := { session [1] first.next {} with processed := 0 }) rfl rfl rfl)
  have h₃ : Shift.Steps p (Shift.begin s [.subscriber])
      ⟨session [1] first.next { senders := 1, inFlight := 1 }, [⟨false, false⟩, .context], [1], [1],
        .counting⟩ :=
    (((h₂.tail (.handOver rfl rfl)).tail (.returns rfl ())).tail (.finish rfl)).tail (.timeout rfl)
  -- the context sends and gives up its sender before the senders are counted, the guard after it
  have h₄ : Shift.Steps p (Shift.begin s [.subscriber])
      ⟨session [1] first.next { queue := [2], inFlight := 1 },
        [⟨false, false⟩, ⟨false, true⟩], [1, 2], [1], .checking⟩ :=
    ((h₃.tail (.act (.send (m := 2) (h := .context) (by decide) rfl rfl rfl))).tail
      (.act (.dropSender (l := [⟨false, false⟩]) rfl rfl))).tail (.countSenders rfl)
  have h₅ : Shift.Steps p (Shift.begin s [.subscriber])
      ⟨session [1, 2] first.next.next {}, [⟨false, false⟩, ⟨false, false⟩], [1, 2], [1, 2],
        .obeying []⟩ :=
    (((h₄.tail (.countGuards rfl)).tail
      (.act (.dropGuard (l := [⟨false, false⟩]) rfl rfl))).tail (.take rfl rfl)).tail
      (.update (s := { session [1, 2] first.next.next {} with processed := 1 }) rfl rfl rfl)
  have h₆ := ((((h₅.tail (.finish rfl)).tail (.timeout rfl)).tail (.countSenders rfl)).tail
    (.countGuards rfl)).tail (.stop rfl rfl)
  obtain ⟨-, -, -, hqueue, hprocessed, -⟩ :=
    (deserted_at_end p).1 s [.subscriber] ⟨rfl, rfl, rfl⟩ _ h₆ rfl
  exact ⟨_, h₆, rfl, rfl, hprocessed ▸ rfl, hqueue⟩

end Session

end ViewLoop
