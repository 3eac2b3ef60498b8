import Mathlib

/-!
# Fallible computations

Rewriting rules for `Except` and for state passing over it: how a bind runs
when its first part succeeds or fails, and what a successful bind means.
-/

namespace SheepShear

variable {ε σ α β : Type}

@[simp] theorem Except.ok_bind (a : α) (f : α → Except ε β) : (Except.ok a >>= f) = f a := rfl

@[simp] theorem Except.error_bind (e : ε) (f : α → Except ε β) :
    (Except.error e >>= f) = Except.error e := rfl

@[simp] theorem Except.pure_eq_ok (a : α) : (pure a : Except ε α) = Except.ok a := rfl

theorem Except.bind_eq_ok {x : Except ε α} {f : α → Except ε β} :
    (x >>= f) = .ok b ↔ ∃ a, x = .ok a ∧ f a = .ok b := by
  cases x <;> simp

theorem StateT.bind_apply (x : StateT σ (Except ε) α) (f : α → StateT σ (Except ε) β) (s : σ) :
    (x >>= f) s = x s >>= fun p => f p.1 p.2 := rfl

theorem StateT.pure_apply (a : α) (s : σ) : (pure a : StateT σ (Except ε) α) s = .ok (a, s) := rfl

theorem StateT.throw_apply (e : ε) (s : σ) :
    (throw e : StateT σ (Except ε) α) s = .error e := rfl

theorem StateT.bind_eq_ok {x : StateT σ (Except ε) α} {f : α → StateT σ (Except ε) β} {s s' : σ} :
    (x >>= f) s = .ok (b, s') ↔ ∃ a s₁, x s = .ok (a, s₁) ∧ f a s₁ = .ok (b, s') := by
  rw [StateT.bind_apply, Except.bind_eq_ok]
  simp

end SheepShear
