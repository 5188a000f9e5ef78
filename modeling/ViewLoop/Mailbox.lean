/-!
# The mailbox

The queue between those who report and the one loop that listens. Messages are delivered in the
order in which they came. The mailbox counts its senders and the guards of work in flight, so the
loop can tell whether anything may still arrive.

Work in the background is known by what it is going to send: a worker holds a sender and a guard,
sends its messages, and gives up both. Workers finish in the order in which they were started,
and only while the loop waits.
-/

namespace ViewLoop

/-- Messages that wait, and counts of those who may add to them. -/
structure Mailbox (M : Type) where
  queue : List M := []
  isOpen : Bool := true
  senders : Nat := 0
  inFlight : Nat := 0
  /-- The workers, each by the messages it is going to send. -/
  workers : List (List M) := []
  deriving Repr

inductive Wait (M : Type) where
  | message (m : M)
  | quiescent
  /-- The queue is empty, and the work in flight never ends. -/
  | blocked
  deriving Repr

namespace Mailbox

variable {M : Type}

def isIdle (b : Mailbox M) : Bool := b.inFlight == 0

def addSender (b : Mailbox M) : Mailbox M := { b with senders := b.senders + 1 }

def dropSender (b : Mailbox M) : Mailbox M := { b with senders := b.senders - 1 }

def addGuard (b : Mailbox M) : Mailbox M := { b with inFlight := b.inFlight + 1 }

def dropGuard (b : Mailbox M) : Mailbox M := { b with inFlight := b.inFlight - 1 }

def addContext (b : Mailbox M) : Mailbox M := b.addSender.addGuard

def dropContext (b : Mailbox M) : Mailbox M := b.dropSender.dropGuard

/-- Adds a message from the side of the loop. -/
def post (b : Mailbox M) (m : M) : Mailbox M := { b with queue := b.queue ++ [m] }

/-- Sends a message; a closed mailbox takes none. -/
def send? (b : Mailbox M) (m : M) : Option (Mailbox M) :=
  if b.isOpen then some (b.post m) else none

def sendAll (b : Mailbox M) (ms : List M) : Mailbox M :=
  if b.isOpen then { b with queue := b.queue ++ ms } else b

def startWorker (b : Mailbox M) (ms : List M) : Mailbox M :=
  { b.addContext with workers := b.workers ++ [ms] }

def next? (b : Mailbox M) : Option (M × Mailbox M) :=
  match b.queue with
  | [] => none
  | m :: rest => some (m, { b with queue := rest })

/-- Closes the mailbox; what waits is lost. -/
def close (b : Mailbox M) : Mailbox M := { b with isOpen := false, queue := [] }

/-- Lets the oldest worker send its messages and give up its sender and guard. -/
def finishWorker (b : Mailbox M) (ms : List M) (rest : List (List M)) : Mailbox M :=
  { (b.sendAll ms).dropContext with workers := rest }

def joinWorkers (b : Mailbox M) : List (List M) → Mailbox M
  | [] => b
  | ms :: rest => (b.finishWorker ms rest).joinWorkers rest

def settled (b : Mailbox M) : Mailbox M := b.joinWorkers b.workers

/-- Takes the oldest message that waits or that a worker of `workers` sends, letting workers
finish one by one while nothing waits. The second part tells what the wait ended in. -/
def await (idle : Mailbox M → Bool) (b : Mailbox M) :
    (workers : List (List M)) → Wait M × Mailbox M
  | [] =>
    match b.next? with
    | some (m, rest) => (.message m, rest)
    | none => (if idle b then .quiescent else .blocked, b)
  | ms :: rest =>
    match b.next? with
    | some (m, left) => (.message m, left)
    | none => if idle b then (.quiescent, b) else await idle (b.finishWorker ms rest) rest

/-- The next message, or the news that none will come from work in flight: the queue is empty and
no guard is held. -/
def nextOrQuiescent (b : Mailbox M) : Wait M × Mailbox M := b.await isIdle b.workers

/-- The next message, or the news that none can come at all: the queue is empty, and there is
neither a guard nor a sender. -/
def nextOrDeserted (b : Mailbox M) : Wait M × Mailbox M :=
  b.await (fun b => b.isIdle && b.senders == 0) b.workers

theorem next?_eq_none_iff {b : Mailbox M} : b.next? = none ↔ b.queue = [] := by
  unfold next?
  split <;> simp_all

/-! ### Who may send -/

theorem isOpen_sendAll (b : Mailbox M) (ms : List M) : (b.sendAll ms).isOpen = b.isOpen := by
  rw [sendAll]
  split <;> rfl

theorem isOpen_finishWorker (b : Mailbox M) (ms : List M) (rest : List (List M)) :
    (b.finishWorker ms rest).isOpen = b.isOpen := isOpen_sendAll b ms

theorem isOpen_next? {b rest : Mailbox M} {m : M} (h : b.next? = some (m, rest)) :
    rest.isOpen = b.isOpen := by
  rw [next?] at h
  split at h
  · cases h
  · obtain ⟨-, rfl⟩ := Prod.mk.inj (Option.some.inj h)
    rfl

theorem isOpen_await (idle : Mailbox M → Bool) (b : Mailbox M) (workers : List (List M)) :
    (await idle b workers).2.isOpen = b.isOpen := by
  induction workers generalizing b with
  | nil =>
    rw [await]
    cases hnext : b.next? with
    | none => rfl
    | some q => exact isOpen_next? hnext
  | cons ms workers ih =>
    rw [await]
    cases hnext : b.next? with
    | none =>
      dsimp only
      split
      · rfl
      · rw [ih, isOpen_finishWorker]
    | some q => exact isOpen_next? hnext

end Mailbox

end ViewLoop
