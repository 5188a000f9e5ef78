import ViewLoop.Session.Cycle

/-!
# The loop

Messages are taken from the mailbox one at a time, the oldest first, and each runs its whole cycle
before the next is taken. A message that was taken is not put back when its cycle fails.
-/

namespace ViewLoop.Session

variable {Flags Model M D E X : Type}

/-- Takes a message as `wait` says, and tells what waiting for it ended in. -/
def await (wait : Mailbox M → Wait M × Mailbox M) : Action Model M D X (Wait M) :=
  modifyGet fun s =>
    let r := wait s.mailbox
    (r.1, { s with mailbox := r.2 })

/-- Processes the oldest message, if one waits. The answer tells whether one did. -/
def step [DecidableEq M] [DecidableEq D] (p : Program Flags Model M D E X) :
    Action Model M D X Bool := do
  match (← get).mailbox.next? with
  | none => return false
  | some (m, rest) => do
    modify fun s => { s with mailbox := rest }
    process p m
    return true

inductive RunEnd where
  | finished
  | blocked
  | unfinished
  deriving DecidableEq, Repr

/-- Processes messages until none waits and nothing is in flight, at most `fuel` of them; one more
is taken, and is a failure. The answer holds the number of messages processed. -/
def quiesceWithin [DecidableEq M] [DecidableEq D] (p : Program Flags Model M D E X)
    (done : Nat) : (fuel : Nat) → Action Model M D X (RunEnd × Nat)
  | 0 => do
    match ← await Mailbox.nextOrQuiescent with
    | .quiescent => return (.finished, done)
    | .blocked => return (.blocked, done)
    | .message _ => throw (.messageLimit done)
  | fuel + 1 => do
    match ← await Mailbox.nextOrQuiescent with
    | .quiescent => return (.finished, done)
    | .blocked => return (.blocked, done)
    | .message m => do
      process p m
      quiesceWithin p (done + 1) fuel

/-- Processes messages until none waits and nothing is in flight, as many as the settings allow. -/
def quiesce [DecidableEq M] [DecidableEq D] (p : Program Flags Model M D E X) :
    Action Model M D X (RunEnd × Nat) := do
  quiesceWithin p 0 (← get).settings.maxMessages

/-- Processes messages until none waits and nobody is left who could send one, at most `fuel` of
them. -/
def run [DecidableEq M] [DecidableEq D] (p : Program Flags Model M D E X) :
    (fuel : Nat) → Action Model M D X RunEnd
  | 0 => return .unfinished
  | fuel + 1 => do
    match ← await Mailbox.nextOrDeserted with
    | .quiescent => return .finished
    | .blocked => return .blocked
    | .message m => do
      process p m
      run p fuel

end ViewLoop.Session
