import ViewLoop.Proofs.Reachable
import Mathlib.Order.Defs.Unbundled

/-!
# Actions within bounds

What an action may do to the state, however it ends, and what it may fail with: `Heeds R Q x`. The
bounds hold of a sequence of actions if they hold of each, so that a bound on the smallest changes
is one on all that is made of them.
-/

namespace ViewLoop

variable {ε σ α β : Type} {R : σ → σ → Prop} {Q : ε → Prop}

/-- However the action ends, the state that it leaves is related to the first one, and its failures
are of a kind. -/
structure Heeds (R : σ → σ → Prop) (Q : ε → Prop) (x : EStateM ε σ α) : Prop where
  state : ∀ s, R s (finalState (x.run s))
  failure : ∀ s e s', x.run s = .error e s' → Q e

namespace Heeds

theorem of_ok {x : EStateM ε σ α} (h : ∀ s, ∃ a s', x.run s = .ok a s' ∧ R s s') :
    Heeds R Q x := by
  refine ⟨fun s => ?_, fun s e s' he => ?_⟩
  · obtain ⟨a, s', hrun, hR⟩ := h s
    rw [hrun]
    exact hR
  · obtain ⟨a, s₁, hrun, -⟩ := h s
    rw [hrun] at he
    exact nomatch he

theorem modify {f : σ → σ} (h : ∀ s, R s (f s)) : Heeds R Q (modify f : EStateM ε σ Unit) :=
  of_ok fun s => ⟨(), f s, rfl, h s⟩

theorem get_bind {f : σ → EStateM ε σ β} (h : ∀ s, Heeds R Q (f s)) : Heeds R Q (get >>= f) :=
  ⟨fun s => (h s).state s, fun s => (h s).failure s⟩

section Preorder

variable [IsPreorder σ R]

theorem pure (a : α) : Heeds R Q (pure a : EStateM ε σ α) := of_ok fun s => ⟨a, s, rfl, refl_of R s⟩

theorem throw {e : ε} (he : Q e) : Heeds R Q (throw e : EStateM ε σ α) := by
  refine ⟨fun s => refl_of R s, fun s e' s' hrun => ?_⟩
  exact (EStateM.Result.error.inj hrun).1 ▸ he

theorem bind {x : EStateM ε σ α} {f : α → EStateM ε σ β} (hx : Heeds R Q x)
    (hf : ∀ a, Heeds R Q (f a)) : Heeds R Q (x >>= f) := by
  refine ⟨fun s => ?_, fun s e s' he => ?_⟩
  · have hfirst := hx.state s
    cases h : x.run s with
    | ok a s₁ =>
      rw [h] at hfirst
      rw [run_bind_of_ok h]
      exact trans_of R hfirst ((hf a).state s₁)
    | error e s₁ =>
      rw [h] at hfirst
      rw [run_bind_of_error h]
      exact hfirst
  · cases h : x.run s with
    | ok a s₁ =>
      rw [run_bind_of_ok h] at he
      exact (hf a).failure s₁ e s' he
    | error e₁ s₁ =>
      rw [run_bind_of_error h] at he
      exact (EStateM.Result.error.inj he).1 ▸ hx.failure s e₁ s₁ h

theorem forM {f : α → EStateM ε σ Unit} {l : List α} (h : ∀ a ∈ l, Heeds R Q (f a)) :
    Heeds R Q (l.forM f) := by
  induction l with
  | nil => exact pure ()
  | cons a l ih =>
    have hrest := ih fun b hb => h b (List.mem_cons_of_mem _ hb)
    exact (h a List.mem_cons_self).bind fun _ => hrest

end Preorder

end Heeds

end ViewLoop
