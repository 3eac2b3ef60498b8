import Mathlib

/-!
# The Gregorian calendar

Leap years and the number of days between the beginnings of two years, which is
the sum of the lengths of the years between them.
-/

namespace SheepShear.Calendar

def IsLeap (year : Int) : Prop := 4 ∣ year ∧ (¬ 100 ∣ year ∨ 400 ∣ year)

instance (year : Int) : Decidable (IsLeap year) := inferInstanceAs (Decidable (_ ∧ _))

def yearDays (year : Int) : Int := if IsLeap year then 366 else 365

/-- The days of `n` years from `start` on. -/
def daysOfYears (start : Int) : Nat → Int
  | 0 => 0
  | n + 1 => daysOfYears start n + yearDays (start + n)

/-- The leap years before a year, counted from the year 1. -/
def leapsBefore (year : Int) : Int := (year - 1) / 4 - (year - 1) / 100 + (year - 1) / 400

theorem leapsBefore_succ (year : Int) :
    leapsBefore (year + 1) = leapsBefore year + if IsLeap year then 1 else 0 := by
  unfold leapsBefore
  by_cases hleap : IsLeap year
  · rw [if_pos hleap]
    unfold IsLeap at hleap
    omega
  · rw [if_neg hleap]
    unfold IsLeap at hleap
    omega

theorem daysOfYears_eq (start : Int) (n : Nat) :
    daysOfYears start n = 365 * n + (leapsBefore (start + n) - leapsBefore start) := by
  induction n with
  | zero => simp [daysOfYears]
  | succ n ih =>
    have hnext : start + ((n + 1 : Nat) : Int) = start + n + 1 := by push_cast; ring
    rw [daysOfYears, ih, hnext, leapsBefore_succ, yearDays]
    push_cast
    split <;> ring

theorem yearDays_le (year : Int) : yearDays year ≤ 366 := by
  unfold yearDays
  split <;> omega

/-- A year that has not ended ends before a later one begins. -/
theorem daysOfYears_lt (start : Int) {n k : Nat} (h : n < k) :
    daysOfYears start n + yearDays (start + n) ≤ daysOfYears start k := by
  obtain ⟨d, rfl⟩ : ∃ d, k = n + 1 + d := ⟨k - (n + 1), by omega⟩
  induction d with
  | zero => rfl
  | succ d ih =>
    have hyear : 0 ≤ yearDays (start + (n + 1 + d : Nat)) := by
      unfold yearDays
      split <;> omega
    have hprev := ih (by omega)
    rw [← Nat.add_assoc, daysOfYears]
    omega

end SheepShear.Calendar
