import ViewLoop.Proofs.Traffic
import Mathlib.Logic.Relation

/-!
# Quiescence

A call for the next message, or for the news that work in flight will send none, makes one read at
a time, and workers go on between any two of them (`Watch.Step`). It looks whether a guard is held
before it looks into the queue. So where it tells that nothing will come, nothing does: the queue
is empty, no guard is held, and all that was sent is delivered (`Watch.told_in_time`).

The call as it is run, where workers finish one by one and only while it waits, is one of these
interleavings (`Watch.exists_steps_await`).
-/

namespace ViewLoop

/-- How far a call has come. -/
inductive Position (M : Type) where
  /-- There is no call. -/
  | away
  /-- The guards are to be counted. -/
  | reading
  /-- The queue is to be looked into. -/
  | polling (idle : Bool)
  /-- The next message is waited for, up to a time that may run out at any moment. -/
  | waiting
  | answered (answer : Option M)

/-- A mailbox with its workers, a call, and the messages that were taken from the mailbox, in
order. -/
structure Watch (M : Type) where
  traffic : Traffic M := {}
  position : Position M := .away
  delivered : List M := []

namespace Watch

variable {M : Type} {w w' : Watch M} {m : M}

/-- What workers, the call, and its host do next. Workers send while they hold a guard, and the host
gives out contexts and uses the mailbox while there is no call. -/
inductive Step : Watch M → Watch M → Prop
  | work {w : Watch M} {t : Traffic M} (deed : Traffic.Deed Holder.guard w.traffic t) :
      Step w { w with traffic := t }
  | hire {w : Watch M} (away : w.position = .away) : Step w { w with traffic := w.traffic.grant }
  | post {w : Watch M} (away : w.position = .away) (m : M) :
      Step w { w with traffic := { w.traffic with
        mailbox := w.traffic.mailbox.post m, sent := w.traffic.sent ++ [m] } }
  | take {w : Watch M} {m : M} {rest : Mailbox M} (away : w.position = .away)
      (next : w.traffic.mailbox.next? = some (m, rest)) :
      Step w { w with
        traffic := { w.traffic with mailbox := rest }, delivered := w.delivered ++ [m] }
  | call {w : Watch M} (away : w.position = .away) : Step w { w with position := .reading }
  | leave {w : Watch M} {answer : Option M} (answered : w.position = .answered answer) :
      Step w { w with position := .away }
  | read {w : Watch M} (reading : w.position = .reading) :
      Step w { w with position := .polling w.traffic.mailbox.isIdle }
  | find {w : Watch M} {idle : Bool} {m : M} {rest : Mailbox M}
      (polling : w.position = .polling idle)
      (next : w.traffic.mailbox.next? = some (m, rest)) :
      Step w { w with
        traffic := { w.traffic with mailbox := rest }, position := .answered (some m),
        delivered := w.delivered ++ [m] }
  | miss {w : Watch M} {idle : Bool} (polling : w.position = .polling idle)
      (next : w.traffic.mailbox.next? = none) :
      Step w { w with position := if idle then .answered none else .waiting }
  | receive {w : Watch M} {m : M} {rest : Mailbox M} (waiting : w.position = .waiting)
      (next : w.traffic.mailbox.next? = some (m, rest)) :
      Step w { w with
        traffic := { w.traffic with mailbox := rest }, position := .answered (some m),
        delivered := w.delivered ++ [m] }
  | timeout {w : Watch M} (waiting : w.position = .waiting) :
      Step w { w with position := .reading }

abbrev Steps : Watch M → Watch M → Prop := Relation.ReflTransGen Step

/-- What workers, calls and a host can lead to. -/
def Reachable (w : Watch M) : Prop := Steps {} w

/-! ### What a call knows -/

/-- What holds wherever a call is: after it has read that no guard is held, none is, and after it
has not found a message either, there is none. -/
structure Knows (w : Watch M) : Prop where
  tallied : w.traffic.Tallied
  split : w.traffic.Split w.delivered
  idle : w.position = .polling true → w.traffic.Guardless
  quiet : w.position = .answered none → w.traffic.Guardless ∧ w.traffic.mailbox.queue = []
  last : ∀ m, w.position = .answered (some m) → ∃ before, w.delivered = before ++ [m]

theorem knows_start : Knows ({} : Watch M) :=
  ⟨⟨rfl, rfl, rfl⟩, rfl, nofun, nofun, nofun⟩

/-- Without a call there is nothing to know but the counts and the order. -/
theorem knows_of_away (ht : w.traffic.Tallied) (hs : w.traffic.Split w.delivered)
    (haway : w.position = .away) : w.Knows := by
  constructor <;> simp [haway, ht, hs]

theorem Knows.take (h : w.Knows) {rest : Mailbox M}
    (next : w.traffic.mailbox.next? = some (m, rest)) :
    Knows { w with
      traffic := { w.traffic with mailbox := rest }, position := .answered (some m),
      delivered := w.delivered ++ [m] } := by
  refine ⟨h.tallied.next? next, h.split.next? next, nofun, nofun, fun m' hm => ⟨w.delivered, ?_⟩⟩
  obtain rfl := Option.some.inj (Position.answered.inj hm)
  rfl

theorem Knows.work (h : w.Knows) {t : Traffic M} (hd : Traffic.Deed Holder.guard w.traffic t) :
    Knows { w with traffic := t } where
  tallied := hd.tallied h.tallied
  split := hd.split h.split
  idle hidle := hd.guardless (h.idle hidle)
  quiet hquiet := by
    obtain ⟨hguards, hqueue⟩ := h.quiet hquiet
    exact ⟨hd.guardless hguards, (hd.silent hguards).trans hqueue⟩
  last := h.last

theorem Step.knows (hstep : Step w w') (h : w.Knows) : w'.Knows := by
  cases hstep with
  | work deed => exact h.work deed
  | hire away => exact knows_of_away h.tallied.grant h.split away
  | post away m =>
    exact knows_of_away ⟨h.tallied.isOpen, h.tallied.senders, h.tallied.guards⟩ (h.split.put [m])
      away
  | take away next => exact knows_of_away (h.tallied.next? next) (h.split.next? next) away
  | call away => exact ⟨h.tallied, h.split, nofun, nofun, nofun⟩
  | leave answered => exact ⟨h.tallied, h.split, nofun, nofun, nofun⟩
  | read reading =>
    refine ⟨h.tallied, h.split, fun hidle => ?_, nofun, nofun⟩
    exact h.tallied.isIdle_iff.mp (Position.polling.inj hidle)
  | find polling next => exact h.take next
  | @miss idle polling next =>
    cases idle with
    | false => exact ⟨h.tallied, h.split, nofun, nofun, nofun⟩
    | true =>
      have hqueue := Mailbox.next?_eq_none_iff.mp next
      exact ⟨h.tallied, h.split, nofun, fun _ => ⟨h.idle polling, hqueue⟩, nofun⟩
  | receive waiting next => exact h.take next
  | timeout waiting => exact ⟨h.tallied, h.split, nofun, nofun, nofun⟩

theorem Reachable.knows (h : w.Reachable) : w.Knows := by
  induction h with
  | refl => exact knows_start
  | tail _ hstep ih => exact hstep.knows ih

end Watch

/-! ### The call as it is run -/

namespace Mailbox

variable {M : Type}

/-- The mailbox without the workers that it knows of. -/
def bare (b : Mailbox M) : Mailbox M := { b with workers := [] }

theorem next?_bare (b : Mailbox M) : b.bare.next? = b.next?.map fun r => (r.1, r.2.bare) := by
  rw [next?, next?, bare]
  cases b.queue <;> rfl

theorem bare_sendAll {b : Mailbox M} (h : b.isOpen = true) (ms : List M) :
    (b.sendAll ms).bare = { b.bare with queue := b.queue ++ ms } := by
  rw [sendAll, if_pos h]
  rfl

end Mailbox

/-- Where a call stands once the wait has ended. -/
def Wait.position {M : Type} : Wait M → Position M
  | .message m => .answered (some m)
  | .quiescent => .answered none
  | .blocked => .waiting

namespace Traffic

variable {M : Type}

/-- A holder may send any messages while a guard is held. -/
theorem deeds_send {t : Traffic M} {h : Holder} (held : h ∈ t.holders) (sender : h.sender = true)
    (guard : h.guard = true) (isOpen : t.mailbox.isOpen = true) (ms : List M) :
    Relation.ReflTransGen (Deed Holder.guard) t { t with
      mailbox := { t.mailbox with queue := t.mailbox.queue ++ ms }, sent := t.sent ++ ms } := by
  induction ms generalizing t with
  | nil =>
    simp only [List.append_nil]
    exact .refl
  | cons m ms ih =>
    have hfirst : Deed Holder.guard t
        { t with mailbox := t.mailbox.post m, sent := t.sent ++ [m] } :=
      .send held sender guard (by rw [Mailbox.send?, if_pos isOpen])
    have hrest := ih (t := { t with mailbox := t.mailbox.post m, sent := t.sent ++ [m] }) held isOpen
    simp only [Mailbox.post, List.append_assoc, List.singleton_append] at hrest
    exact .head hfirst hrest

/-- What a worker does that sends its messages and gives up its context. -/
theorem exists_deeds_finishWorker {t : Traffic M} {b : Mailbox M} {before after : List Holder}
    (hmailbox : t.mailbox = b.bare) (isOpen : b.isOpen = true)
    (holders : t.holders = before ++ .context :: after) (ms : List M) (rest : List (List M)) :
    ∃ t', Relation.ReflTransGen (Deed Holder.guard) t t'
      ∧ t'.mailbox = (b.finishWorker ms rest).bare
      ∧ t'.holders = before ++ ⟨false, false⟩ :: after := by
  have hheld : Holder.context ∈ t.holders := by
    rw [holders]
    exact List.mem_append_right _ List.mem_cons_self
  have hsends := deeds_send hheld rfl rfl (by rw [hmailbox]; exact isOpen) ms
  have hsender := hsends.tail (.dropSender holders rfl)
  have hguard := hsender.tail (.dropGuard rfl rfl)
  refine ⟨_, hguard, ?_, rfl⟩
  have hbare : (b.finishWorker ms rest).bare = (b.sendAll ms).bare.dropSender.dropGuard := rfl
  rw [hbare, Mailbox.bare_sendAll isOpen]
  dsimp only
  rw [hmailbox]
  rfl

end Traffic

namespace Watch

variable {M : Type} {w : Watch M}

theorem steps_of_deeds {t : Traffic M}
    (h : Relation.ReflTransGen (Traffic.Deed Holder.guard) w.traffic t) :
    Steps w { w with traffic := t } := by
  induction h with
  | refl => exact .refl
  | tail _ hdeed ih => exact ih.tail (.work hdeed)

/-- A call that looks and finds a message ends with it. -/
theorem exists_steps_of_next? {b rest : Mailbox M} {m : M}
    (hmailbox : w.traffic.mailbox = b.bare) (reading : w.position = .reading)
    (next : b.next? = some (m, rest)) :
    ∃ w', Steps w w' ∧ w'.position = .answered (some m) ∧ w'.traffic.mailbox = rest.bare := by
  have hfind : w.traffic.mailbox.next? = some (m, rest.bare) := by
    rw [hmailbox, Mailbox.next?_bare, next]
    rfl
  have hread : Step w _ := .read reading
  exact ⟨_, .head hread (.single (.find rfl hfind)), rfl, rfl⟩

/-- A call that looks and finds none ends if no guard was held, and waits otherwise. -/
theorem steps_of_next?_none {b : Mailbox M} (hmailbox : w.traffic.mailbox = b.bare)
    (reading : w.position = .reading) (next : b.next? = none) :
    Steps w { w with position := if b.isIdle then .answered none else .waiting } := by
  have hmiss : w.traffic.mailbox.next? = none := by
    rw [hmailbox, Mailbox.next?_bare, next]
    rfl
  have hidle : w.traffic.mailbox.isIdle = b.isIdle := by
    rw [hmailbox]
    rfl
  rw [← hidle]
  have hread : Step w _ := .read reading
  exact .head hread (.single (.miss rfl hmiss))

theorem exists_steps_await (b : Mailbox M) (workers : List (List M)) (before : List Holder)
    (hmailbox : w.traffic.mailbox = b.bare) (isOpen : b.isOpen = true)
    (holders : w.traffic.holders = before ++ workers.map fun _ => .context)
    (reading : w.position = .reading) :
    ∃ w', Steps w w' ∧ w'.position = (b.await Mailbox.isIdle workers).1.position
      ∧ w'.traffic.mailbox = (b.await Mailbox.isIdle workers).2.bare := by
  induction workers generalizing b w before with
  | nil =>
    rw [Mailbox.await]
    cases hnext : b.next? with
    | some q => exact exists_steps_of_next? hmailbox reading hnext
    | none =>
      refine ⟨_, steps_of_next?_none hmailbox reading hnext, ?_, hmailbox⟩
      cases b.isIdle <;> rfl
  | cons ms workers ih =>
    rw [Mailbox.await]
    cases hnext : b.next? with
    | some q => exact exists_steps_of_next? hmailbox reading hnext
    | none =>
      have hlook := steps_of_next?_none hmailbox reading hnext
      dsimp only
      cases hidle : b.isIdle with
      | true =>
        rw [hidle] at hlook
        exact ⟨_, hlook, rfl, hmailbox⟩
      | false =>
        rw [hidle] at hlook
        -- the time runs out only after the worker is done
        obtain ⟨t, hdeeds, hbox, hholders⟩ :=
          Traffic.exists_deeds_finishWorker hmailbox isOpen holders ms workers
        have hworked := hlook.trans (steps_of_deeds hdeeds)
        have hagain := hworked.tail (.timeout rfl)
        obtain ⟨w', hrest, hposition, hend⟩ :=
          ih (b.finishWorker ms workers) (before ++ [⟨false, false⟩])
            (w := { w with traffic := t, position := .reading }) hbox
            ((Mailbox.isOpen_finishWorker b ms workers).trans isOpen)
            (by rw [hholders, List.append_assoc]; rfl) rfl
        exact ⟨w', hagain.trans hrest, hposition, hend⟩

/-! ### What is told -/

/-- A call that ends without a message ends where the queue is empty, no guard is held, and all that
was ever sent is delivered, in the order in which it was sent. One that ends with a message ends
with the oldest that was not delivered before. The call as it is run is one of these: with the
mailbox, and a context for each of its workers, it gets to the same answer and leaves the same
mailbox behind. -/
theorem told_in_time (h : w.Reachable) :
    (w.position = .answered none → w.traffic.mailbox.queue = [] ∧ w.traffic.mailbox.inFlight = 0
      ∧ (∀ k ∈ w.traffic.holders, k.guard = false) ∧ w.delivered = w.traffic.sent)
    ∧ (∀ m, w.position = .answered (some m) → ∃ before, w.delivered = before ++ [m]
      ∧ w.traffic.sent = before ++ m :: w.traffic.mailbox.queue)
    ∧ ∀ (b : Mailbox M) (others : List Holder), w.position = .reading →
      w.traffic.mailbox = b.bare → b.isOpen = true →
      w.traffic.holders = others ++ b.workers.map (fun _ => .context) →
        ∃ w', Steps w w' ∧ w'.position = b.nextOrQuiescent.1.position
          ∧ w'.traffic.mailbox = b.nextOrQuiescent.2.bare := by
  have hw := h.knows
  refine ⟨fun hnone => ?_, fun m hm => ?_, fun b others reading hmailbox isOpen holders => ?_⟩
  · obtain ⟨hguards, hqueue⟩ := hw.quiet hnone
    refine ⟨hqueue, ?_, hguards, ?_⟩
    · exact beq_iff_eq.mp (hw.tallied.isIdle_iff.mpr hguards)
    · have hsplit : w.traffic.sent = w.delivered ++ w.traffic.mailbox.queue := hw.split
      rw [hsplit, hqueue, List.append_nil]
  · obtain ⟨before, hdelivered⟩ := hw.last m hm
    refine ⟨before, hdelivered, ?_⟩
    have hsplit : w.traffic.sent = w.delivered ++ w.traffic.mailbox.queue := hw.split
    rw [hsplit, hdelivered, List.append_assoc]
    rfl
  · exact exists_steps_await b b.workers others hmailbox isOpen holders reading

/-- A worker reports while the call waits. The call ends with the report, and the next one tells that
nothing more will come. As it is run, the call ends with the report too. -/
theorem told_in_time_of_late :
    (∃ w : Watch Nat, w.Reachable ∧ w.position = .answered none ∧ w.traffic.sent = [7]
      ∧ w.traffic.mailbox.queue = [] ∧ w.delivered = [7])
    ∧ ∃ w : Watch Nat, w.Reachable ∧ w.position = .answered (some 7) ∧ w.traffic.mailbox = {} := by
  have h₀ : Reachable ({} : Watch Nat) := .refl
  have hcall := (h₀.tail (.hire rfl)).tail (.call rfl)
  have h₁ := (hcall.tail (.read rfl)).tail (.miss rfl rfl)
  have h₂ := (h₁.tail (.work (.send (m := 7) (List.mem_singleton_self _) rfl rfl rfl))).tail
    (.work (.dropGuard (l := []) rfl rfl))
  have h₃ := ((h₂.tail (.receive rfl rfl)).tail (.leave rfl)).tail (.call rfl)
  have h₄ := (h₃.tail (.read rfl)).tail (.miss rfl rfl)
  obtain ⟨hqueue, -, -, hdelivered⟩ := (told_in_time h₄).1 rfl
  obtain ⟨w, hsteps, hposition, hmailbox⟩ :=
    (told_in_time hcall).2.2 { senders := 1, inFlight := 1, workers := [[7]] } [] rfl rfl rfl rfl
  exact ⟨⟨_, h₄, rfl, rfl, hqueue, hdelivered⟩, w, hcall.trans hsteps, hposition, hmailbox⟩

end Watch

end ViewLoop
