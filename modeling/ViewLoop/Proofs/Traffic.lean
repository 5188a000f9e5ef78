import ViewLoop.Mailbox

/-!
# Traffic of a mailbox

Who holds senders and guards of a mailbox, and what these holders can do at any time: send, get
another sender, give up a sender or a guard (`Traffic.Deed`). The counts of the mailbox tell how
many senders and guards are held (`Traffic.Tallied`), so that a count of zero tells that nobody is
left (`Traffic.Tallied.senders_iff`, `Traffic.Tallied.isIdle_iff`), and from then on nobody is
(`Traffic.Deed.senderless`, `Traffic.Deed.guardless`). What was taken from the queue and what waits
in it are together all that was ever put there, in order (`Traffic.Split`).
-/

namespace ViewLoop

/-- Someone outside the loop: whether a sender is held, and whether a guard is. -/
structure Holder where
  sender : Bool
  guard : Bool
  deriving DecidableEq, Repr

/-- The holder of a new context. -/
def Holder.context : Holder := ⟨true, true⟩

/-- The holder of a sender that was taken from another one. -/
def Holder.subscriber : Holder := ⟨true, false⟩

/-- A mailbox, those who hold senders and guards of it, and the messages that were put into it, in
order. -/
structure Traffic (M : Type) where
  mailbox : Mailbox M := {}
  holders : List Holder := []
  sent : List M := []

namespace Traffic

variable {M : Type} {may : Holder → Bool} {t t' : Traffic M} {taken : List M} {m : M}

/-- What a holder does. Of those who hold a sender, `may` tells who sends. -/
inductive Deed (may : Holder → Bool) : Traffic M → Traffic M → Prop
  | send {t : Traffic M} {h : Holder} {m : M} {b : Mailbox M} (held : h ∈ t.holders)
      (sender : h.sender = true) (allowed : may h = true)
      (accepted : t.mailbox.send? m = some b) :
      Deed may t { t with mailbox := b, sent := t.sent ++ [m] }
  | clone {t : Traffic M} {h : Holder} (held : h ∈ t.holders) (sender : h.sender = true) :
      Deed may t
        { t with mailbox := t.mailbox.addSender, holders := t.holders ++ [.subscriber] }
  | dropSender {t : Traffic M} {h : Holder} {l r : List Holder}
      (held : t.holders = l ++ h :: r) (sender : h.sender = true) :
      Deed may t { t with
        mailbox := t.mailbox.dropSender
        holders := l ++ { h with sender := false } :: r }
  | dropGuard {t : Traffic M} {h : Holder} {l r : List Holder}
      (held : t.holders = l ++ h :: r) (guard : h.guard = true) :
      Deed may t { t with
        mailbox := t.mailbox.dropGuard
        holders := l ++ { h with guard := false } :: r }

/-! ### Counts -/

/-- The mailbox takes messages, and its counts are those of the senders and the guards that are
held. -/
structure Tallied (t : Traffic M) : Prop where
  isOpen : t.mailbox.isOpen = true
  senders : t.mailbox.senders = t.holders.countP Holder.sender
  guards : t.mailbox.inFlight = t.holders.countP Holder.guard

/-- Nobody holds a sender. -/
def Senderless (t : Traffic M) : Prop := ∀ h ∈ t.holders, h.sender = false

/-- Nobody holds a guard. -/
def Guardless (t : Traffic M) : Prop := ∀ h ∈ t.holders, h.guard = false

theorem countP_eq_zero_iff {f : Holder → Bool} {l : List Holder} :
    l.countP f = 0 ↔ ∀ h ∈ l, f h = false := by
  simp only [List.countP_eq_zero, Bool.not_eq_true]

theorem forall_replaced {f : Holder → Bool} {h k : Holder} {before after : List Holder}
    (hall : ∀ x ∈ before ++ h :: after, f x = false) (hk : f h = false → f k = false) :
    ∀ x ∈ before ++ k :: after, f x = false := by
  simp only [List.forall_mem_append, List.forall_mem_cons] at hall ⊢
  exact ⟨hall.1, hk hall.2.1, hall.2.2⟩

theorem Tallied.senders_iff (h : t.Tallied) : t.mailbox.senders = 0 ↔ t.Senderless := by
  rw [h.senders, countP_eq_zero_iff]
  rfl

theorem Tallied.isIdle_iff (h : t.Tallied) : t.mailbox.isIdle = true ↔ t.Guardless := by
  rw [Mailbox.isIdle, beq_iff_eq, h.guards, countP_eq_zero_iff]
  rfl

/-- What was taken from the queue and what waits there are all that was put into it. -/
def Split (taken : List M) (t : Traffic M) : Prop := t.sent = taken ++ t.mailbox.queue

theorem Split.put (h : t.Split taken) (added : List M) :
    t.sent ++ added = taken ++ (t.mailbox.queue ++ added) := by
  rw [h, List.append_assoc]

/-! ### The side of the loop -/

theorem Tallied.next? (h : t.Tallied) {rest : Mailbox M} (hnext : t.mailbox.next? = some (m, rest)) :
    Tallied { t with mailbox := rest } := by
  rw [Mailbox.next?] at hnext
  split at hnext
  · cases hnext
  · obtain ⟨-, rfl⟩ := Prod.mk.inj (Option.some.inj hnext)
    exact ⟨h.isOpen, h.senders, h.guards⟩

theorem Split.next? (h : t.Split taken) {rest : Mailbox M}
    (hnext : t.mailbox.next? = some (m, rest)) :
    Split (taken ++ [m]) { t with mailbox := rest } := by
  rw [Mailbox.next?] at hnext
  split at hnext
  · cases hnext
  · rename_i hqueue
    obtain ⟨rfl, rfl⟩ := Prod.mk.inj (Option.some.inj hnext)
    rw [Split, h, hqueue, List.append_assoc]
    rfl

/-- Gives out a context: a sender and a guard. -/
def grant (t : Traffic M) : Traffic M :=
  { t with mailbox := t.mailbox.addContext, holders := t.holders ++ [.context] }

theorem Tallied.grant (h : t.Tallied) : t.grant.Tallied := by
  refine ⟨h.isOpen, ?_, ?_⟩
  · simp [Traffic.grant, Mailbox.addContext, Mailbox.addSender, Mailbox.addGuard, h.senders,
      Holder.context]
  · simp [Traffic.grant, Mailbox.addContext, Mailbox.addSender, Mailbox.addGuard, h.guards,
      Holder.context]

/-! ### Deeds -/

namespace Deed

theorem tallied (hd : Deed may t t') (h : t.Tallied) : t'.Tallied := by
  cases hd with
  | send held sender allowed accepted =>
    rw [Mailbox.send?, if_pos h.isOpen] at accepted
    obtain rfl := Option.some.inj accepted
    exact ⟨h.isOpen, h.senders, h.guards⟩
  | clone held sender =>
    refine ⟨h.isOpen, ?_, ?_⟩
    · simp [Mailbox.addSender, h.senders, Holder.subscriber]
    · simp [Mailbox.addSender, h.guards, Holder.subscriber]
  | dropSender held sender =>
    refine ⟨h.isOpen, ?_, ?_⟩
    · simp [Mailbox.dropSender, h.senders, held, sender]
    · simp [Mailbox.dropSender, h.guards, held, List.countP_cons]
  | dropGuard held guard =>
    refine ⟨h.isOpen, ?_, ?_⟩
    · simp [Mailbox.dropGuard, h.senders, held, List.countP_cons]
    · simp [Mailbox.dropGuard, h.guards, held, guard]

theorem split (hd : Deed may t t') (h : t.Split taken) : t'.Split taken := by
  cases hd with
  | send held sender allowed accepted =>
    rw [Mailbox.send?] at accepted
    split at accepted
    · obtain rfl := Option.some.inj accepted
      exact h.put _
    · cases accepted
  | clone held sender => exact h
  | dropSender held sender => exact h
  | dropGuard held guard => exact h

theorem guardless (hd : Deed may t t') (h : t.Guardless) : t'.Guardless := by
  cases hd with
  | send held sender allowed accepted => exact h
  | clone held sender =>
    intro k hk
    rcases List.mem_append.mp hk with hk | hk
    · exact h k hk
    · obtain rfl := List.mem_singleton.mp hk
      rfl
  | dropSender held sender =>
    rw [Guardless, held] at h
    exact forall_replaced h id
  | dropGuard held guard =>
    rw [Guardless, held] at h
    exact forall_replaced h fun _ => rfl

/-- Where nobody holds a sender, all that can be done is to give up a guard. -/
theorem senderless (hd : Deed may t t') (h : t.Senderless) :
    t'.Senderless ∧ t'.mailbox.queue = t.mailbox.queue := by
  cases hd with
  | send held sender allowed accepted =>
    rw [h _ held] at sender
    cases sender
  | clone held sender =>
    rw [h _ held] at sender
    cases sender
  | dropSender held sender =>
    rw [Senderless, held] at h
    rw [h _ (by simp)] at sender
    cases sender
  | dropGuard held guard =>
    rw [Senderless, held] at h
    exact ⟨forall_replaced h id, rfl⟩

/-- If those who hold a guard are the only ones to send, nothing is sent where nobody does. -/
theorem silent (hd : Deed Holder.guard t t') (h : t.Guardless) :
    t'.mailbox.queue = t.mailbox.queue := by
  cases hd with
  | send held sender allowed accepted =>
    rw [h _ held] at allowed
    cases allowed
  | clone held sender => rfl
  | dropSender held sender => rfl
  | dropGuard held guard => rfl

end Deed

end Traffic

end ViewLoop
