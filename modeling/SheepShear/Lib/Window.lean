import Mathlib

/-!
# Sliding windows

A ring of `n` slots that holds the last `n` values of a sequence, and copies out
of it. A slot is named by its index in the ring; the lag of a value is the number
of values that have been appended after it. A copy that is longer than its lag
goes on with values it has appended itself.
-/

namespace SheepShear.Window

variable {α : Type} {n start : Nat} {dict : Nat → α} {out : List α}

/-- Values are appended, each time the one that has the lag then. -/
def copyBack (lag : Nat) : Nat → List α → Option (List α)
  | 0, out => some out
  | count + 1, out =>
    match out.reverse[lag]? with
    | some c => copyBack lag count (out ++ [c])
    | none => none

/-- The lag of the value in slot `idx` when the next one goes to slot `pos`. -/
def lagOf (n pos idx : Nat) : Nat := (pos + (n - 1) - idx) % n

/-- The ring holds the end of the sequence, whose first value went to slot `start`. -/
def Holds (n start : Nat) (dict : Nat → α) (out : List α) : Prop :=
  ∀ lag < n, ∀ c, out.reverse[lag]? = some c →
    dict ((start + out.length + (n - 1 - lag)) % n) = c

theorem holds_nil (n start : Nat) (dict : Nat → α) : Holds n start dict [] := by
  intro lag _ c hc
  cases hc

theorem Holds.append (h : Holds n start dict out) (c : α) :
    Holds n start (Function.update dict ((start + out.length) % n) c) (out ++ [c]) := by
  intro lag hlag x hx
  rw [List.reverse_append, List.reverse_singleton, List.singleton_append] at hx
  rw [List.length_append, List.length_singleton]
  cases lag with
  | zero =>
    obtain rfl : c = x := by simpa using hx
    have hslot : start + (out.length + 1) + (n - 1 - 0) = start + out.length + n := by omega
    rw [hslot, Nat.add_mod_right, Function.update_self]
  | succ lag =>
    rw [List.getElem?_cons_succ] at hx
    have hslot : start + (out.length + 1) + (n - 1 - (lag + 1)) = start + out.length + (n - 1 - lag) := by
      omega
    have hne : (start + out.length + (n - 1 - lag)) % n ≠ (start + out.length) % n := by
      intro heq
      have hdvd := (Nat.modEq_iff_dvd' (Nat.le_add_right ..)).mp (Eq.symm heq)
      rw [Nat.add_sub_cancel_left] at hdvd
      have hle := Nat.le_of_dvd (by omega) hdvd
      omega
    rw [hslot, Function.update_of_ne hne]
    exact h lag (by omega) x hx

theorem lagOf_lt (hn : 0 < n) (pos idx : Nat) : lagOf n pos idx < n := Nat.mod_lt _ hn

/-- The slot at a lag, and the lag of a slot. -/
theorem slot_lagOf {idx : Nat} (hidx : idx < n) (pos : Nat) :
    (pos + (n - 1 - lagOf n pos idx)) % n = idx := by
  have hlt := lagOf_lt (by omega : 0 < n) pos idx
  have hdiv := Nat.div_add_mod (pos + (n - 1) - idx) n
  have heq : pos + (n - 1 - lagOf n pos idx) = n * ((pos + (n - 1) - idx) / n) + idx := by
    unfold lagOf at hlt ⊢
    omega
  rw [heq, Nat.mul_add_mod, Nat.mod_eq_of_lt hidx]

theorem Holds.read (h : Holds n start dict out) {idx : Nat} (hidx : idx < n) {c : α}
    (hc : out.reverse[lagOf n (start + out.length) idx]? = some c) : dict idx = c := by
  have hread := h _ (lagOf_lt (by omega) ..) c hc
  rwa [slot_lagOf hidx] at hread

/-- Both indices of a copy move on together. -/
theorem lagOf_succ {idx : Nat} (hidx : idx < n) (pos : Nat) :
    lagOf n (pos + 1) ((idx + 1) % n) = lagOf n pos idx := by
  unfold lagOf
  by_cases hlast : idx + 1 = n
  · have hwrap : pos + 1 + (n - 1) - 0 = pos + (n - 1) - idx + n := by omega
    rw [hlast, Nat.mod_self, hwrap, Nat.add_mod_right]
  · have hstep : pos + 1 + (n - 1) - (idx + 1) = pos + (n - 1) - idx := by omega
    rw [Nat.mod_eq_of_lt (by omega : idx + 1 < n), hstep]

theorem copyBack_length {lag count : Nat} {out out' : List α} (h : copyBack lag count out = some out') :
    out'.length = out.length + count := by
  induction count generalizing out with
  | zero =>
    cases h
    rfl
  | succ count ih =>
    rw [copyBack] at h
    split at h
    · rw [ih h, List.length_append, List.length_singleton]
      omega
    · cases h

end SheepShear.Window
