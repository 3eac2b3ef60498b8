import SheepShear.Lib.Bytes
import SheepShear.Lib.Calendar

/-!
# Times of the Mac

`TimeToMacTime`, from a broken-down local time to the seconds since 1904 that
the Mac counts in 32 bits. The leap days come from quotients of the year in
`int` arithmetic, which wraps.
-/

namespace SheepShear.Timer

open Calendar

/-- The fields of `struct tm` that are read, as `localtime` fills them in from 1904 on. -/
structure Tm where
  tmSec : Word
  tmMin : Word
  tmHour : Word
  tmYday : Word
  tmYear : Word
  sec_le : 0 ≤ tmSec.toInt ∧ tmSec.toInt ≤ 60
  min_lt : 0 ≤ tmMin.toInt ∧ tmMin.toInt < 60
  hour_lt : 0 ≤ tmHour.toInt ∧ tmHour.toInt < 24
  yday_lt : 0 ≤ tmYday.toInt ∧ tmYday.toInt < yearDays (tmYear.toInt + 1900)
  year_ge : 1904 ≤ tmYear.toInt + 1900

def Tm.year (t : Tm) : Int := t.tmYear.toInt + 1900

/-- A truth value of C. -/
def truth (P : Prop) [Decidable P] : Word := if P then 1 else 0

def timeToMacTime (t : Tm) : Word :=
  let tmEpochYear : Word := 1900
  let macEpochYear : Word := 1904
  let a4 := (t.tmYear + tmEpochYear).sshiftRight 2 - truth (t.tmYear &&& 3 = 0)
  let b4 := macEpochYear.sshiftRight 2 - truth (macEpochYear &&& 3 = 0)
  let a100 := a4.sdiv 25 - truth ((a4.srem 25).slt 0)
  let b100 := b4.sdiv 25 - truth ((b4.srem 25).slt 0)
  let a400 := a100.sshiftRight 2
  let b400 := b100.sshiftRight 2
  let interveningLeapDays := (a4 - b4) - (a100 - b100) + (a400 - b400)
  let days := t.tmYday + 365 * (t.tmYear - 4) + interveningLeapDays
  t.tmSec + 60 * (t.tmMin + 60 * (t.tmHour + 24 * days))

-- ---------------------------------------------------------------------------
-- The time that is meant
-- ---------------------------------------------------------------------------

namespace Tm

/-- The days from 1 January 1904. -/
def days (t : Tm) : Int := t.tmYday.toInt + daysOfYears 1904 (t.year - 1904).toNat

/-- The seconds from 1 January 1904, 00:00. -/
def seconds (t : Tm) : Int :=
  t.tmSec.toInt + 60 * (t.tmMin.toInt + 60 * (t.tmHour.toInt + 24 * t.days))

/-- Earlier by the calendar and the clock. -/
def Before (t t' : Tm) : Prop :=
  t.year < t'.year ∨ t.year = t'.year ∧
    (t.tmYday.toInt < t'.tmYday.toInt ∨ t.tmYday = t'.tmYday ∧
      (t.tmHour.toInt < t'.tmHour.toInt ∨ t.tmHour = t'.tmHour ∧
        (t.tmMin.toInt < t'.tmMin.toInt ∨ t.tmMin = t'.tmMin ∧
          t.tmSec.toInt < t'.tmSec.toInt)))

end Tm

-- ---------------------------------------------------------------------------
-- The leap days
-- ---------------------------------------------------------------------------

/-- The year in `int` arithmetic. -/
def Tm.intYear (t : Tm) : Int := (t.tmYear + 1900).toInt

/-- The leap years before a year that the code counts. -/
def countedLeaps (v : Int) : Int := (v - 1) / 4 - (v - 1) / 4 / 25 + (v - 1) / 4 / 25 / 4

theorem countedLeaps_eq (v : Int) : countedLeaps v = leapsBefore v := by
  unfold countedLeaps leapsBefore
  omega

theorem and_three_eq_zero (v : Word) : v &&& 3 = 0 ↔ v.toInt % 4 = 0 := by
  have hlow : (v &&& 3).toNat = v.toNat % 4 := by
    rw [BitVec.toNat_and]
    exact Nat.and_two_pow_sub_one_eq_mod v.toNat 2
  rw [← BitVec.toNat_inj, hlow, BitVec.toInt_eq_toNat_cond]
  change v.toNat % 4 = 0 ↔ _
  split <;> omega

theorem toInt_truth (P : Prop) [Decidable P] : (truth P).toInt = if P then 1 else 0 := by
  unfold truth
  split <;> rfl

theorem bmod_eq_self {x : Int} (hge : -2147483648 ≤ x) (hlt : x < 2147483648) :
    x.bmod (2 ^ 32) = x := by
  rw [Int.bmod_def]
  split <;> omega

/-- One less in a leap year is the quotient of the year before. -/
theorem a4_toInt {v y : Word} (hlow : y.toInt % 4 = v.toInt % 4) :
    (v.sshiftRight 2 - truth (y &&& 3 = 0)).toInt = (v.toInt - 1) / 4 := by
  have hlt : v.toInt < 2147483648 := v.toInt_lt
  have hge : -2147483648 ≤ v.toInt := v.le_toInt
  have hshift : (v.sshiftRight 2).toInt = v.toInt / 4 := by
    rw [BitVec.toInt_sshiftRight, Int.shiftRight_eq_div_pow]
    rfl
  rw [BitVec.toInt_sub, hshift, toInt_truth]
  by_cases hleap : y &&& 3 = 0
  · rw [if_pos hleap]
    rw [and_three_eq_zero] at hleap
    rw [bmod_eq_self (by omega) (by omega)]
    omega
  · rw [if_neg hleap]
    rw [and_three_eq_zero] at hleap
    rw [bmod_eq_self (by omega) (by omega)]
    omega

/-- The correction makes a quotient that rounds to zero round down. -/
theorem a100_toInt (a4 : Word) :
    (a4.sdiv 25 - truth ((a4.srem 25).slt 0 = true)).toInt = a4.toInt / 25 := by
  have hlt : a4.toInt < 2147483648 := a4.toInt_lt
  have hge : -2147483648 ≤ a4.toInt := a4.le_toInt
  have hsdiv : (a4.sdiv 25).toInt = a4.toInt.tdiv 25 :=
    BitVec.toInt_sdiv_of_ne_or_ne a4 25 (.inr (by decide))
  have hsrem : (a4.srem 25).slt 0 = true ↔ a4.toInt.tmod 25 < 0 := by
    rw [BitVec.slt_iff_toInt_lt, BitVec.toInt_srem]
    rfl
  rw [BitVec.toInt_sub, hsdiv, toInt_truth]
  rcases le_or_gt 0 a4.toInt with hnonneg | hneg
  · have hmod := Int.tmod_eq_emod_of_nonneg hnonneg (b := 25)
    rw [if_neg (by rw [hsrem, hmod]; omega), Int.tdiv_eq_ediv_of_nonneg hnonneg,
      bmod_eq_self (by omega) (by omega)]
    omega
  · obtain ⟨n, hn⟩ : ∃ n : Int, a4.toInt = -n := ⟨-a4.toInt, by omega⟩
    have hdiv : a4.toInt.tdiv 25 = -(n / 25) := by
      rw [hn, Int.neg_tdiv, Int.tdiv_eq_ediv_of_nonneg (by omega)]
    have hmod : a4.toInt.tmod 25 = -(n % 25) := by
      rw [hn, Int.neg_tmod, Int.tmod_eq_emod_of_nonneg (by omega)]
    rw [hdiv]
    by_cases hrest : (a4.srem 25).slt 0 = true
    · rw [if_pos hrest]
      rw [hsrem, hmod] at hrest
      rw [bmod_eq_self (by omega) (by omega)]
      omega
    · rw [if_neg hrest]
      rw [hsrem, hmod] at hrest
      rw [bmod_eq_self (by omega) (by omega)]
      omega

theorem cast_toInt (w : Word) : ((w.toInt : Int) : Word) = w := BitVec.ofInt_toInt

theorem timeToMacTime_eq (t : Tm) : timeToMacTime t =
    ((t.tmSec.toInt + 60 * (t.tmMin.toInt + 60 * (t.tmHour.toInt + 24 * (t.tmYday.toInt +
      365 * (t.tmYear.toInt - 4) + (countedLeaps t.intYear - countedLeaps 1904)))) : Int) : Word) := by
  have hlow : t.tmYear.toInt % 4 = (t.tmYear + 1900).toInt % 4 := by
    have hadd : (t.tmYear + 1900).toInt = (t.tmYear.toInt + 1900).bmod (2 ^ 32) := BitVec.toInt_add ..
    rw [hadd, Int.bmod_def]
    split <;> omega
  simp only [timeToMacTime]
  have ha4 := a4_toInt hlow
  generalize (t.tmYear + 1900).sshiftRight 2 - truth (t.tmYear &&& 3 = 0) = a4 at ha4 ⊢
  have ha100 := a100_toInt a4
  generalize a4.sdiv 25 - truth ((a4.srem 25).slt 0 = true) = a100 at ha100 ⊢
  have ha400 : (a100.sshiftRight 2).toInt = a100.toInt / 4 := by
    rw [BitVec.toInt_sshiftRight, Int.shiftRight_eq_div_pow]
    rfl
  generalize a100.sshiftRight 2 = a400 at ha400 ⊢
  have hb4 : (1904 : Word).sshiftRight 2 - truth ((1904 : Word) &&& 3 = 0) = 475 := by decide
  rw [hb4]
  have hb100 : (475 : Word).sdiv 25 - truth (((475 : Word).srem 25).slt 0 = true) = 19 := by decide
  have hb400 : (19 : Word).sshiftRight 2 = 4 := by decide
  rw [hb100, hb400]
  have hleaps : (a4 - 475) - (a100 - 19) + (a400 - 4) =
      ((countedLeaps t.intYear - countedLeaps 1904 : Int) : Word) := by
    have h475 : (475 : Word) = ((475 : Int) : Word) := rfl
    have h19 : (19 : Word) = ((19 : Int) : Word) := rfl
    have h4 : (4 : Word) = ((4 : Int) : Word) := rfl
    rw [← cast_toInt a4, ← cast_toInt a100, ← cast_toInt a400, ha400, ha100, ha4, h475, h19, h4]
    simp only [← Int.cast_sub, ← Int.cast_add]
    have hsum : ∀ v : Int, (v - 1) / 4 - 475 - ((v - 1) / 4 / 25 - 19) + ((v - 1) / 4 / 25 / 4 - 4) =
        countedLeaps v - countedLeaps 1904 := by
      intro v
      unfold countedLeaps
      omega
    exact congrArg (fun x : Int => (x : Word)) (hsum t.intYear)
  rw [hleaps]
  push_cast
  simp only [cast_toInt]

-- ---------------------------------------------------------------------------
-- When they are right
-- ---------------------------------------------------------------------------

theorem Tm.intYear_eq (t : Tm) :
    t.intYear = if t.year < 2 ^ 31 then t.year else t.year - 2 ^ 32 := by
  have hlt : t.tmYear.toInt < 2147483648 := t.tmYear.toInt_lt
  have hadd : t.intYear = (t.tmYear.toInt + 1900).bmod (2 ^ 32) := BitVec.toInt_add ..
  have hyear := t.year_ge
  rw [hadd, Int.bmod_def, Tm.year]
  norm_num
  split_ifs <;> omega

theorem Tm.seconds_eq (t : Tm) : t.seconds = t.tmSec.toInt + 60 * (t.tmMin.toInt + 60 *
    (t.tmHour.toInt + 24 * (t.tmYday.toInt + 365 * (t.tmYear.toInt - 4) +
      (leapsBefore t.year - leapsBefore 1904)))) := by
  have hyear := t.year_ge
  have hcount : ((t.year - 1904).toNat : Int) = t.year - 1904 := Int.toNat_of_nonneg (by
    rw [Tm.year]
    omega)
  rw [Tm.seconds, Tm.days, daysOfYears_eq, hcount, Tm.year]
  ring_nf

theorem cast_eq_cast_iff (a b : Int) : (a : Word) = (b : Word) ↔ (a - b) % 2 ^ 32 = 0 := by
  have hmod : ∀ x : Int, ((x : Word)).toInt = x.bmod (2 ^ 32) := fun x => BitVec.toInt_ofInt x
  rw [← BitVec.toInt_inj, hmod, hmod, Int.bmod_def, Int.bmod_def]
  norm_num
  split_ifs <;> omega

/-- Right exactly if the leap days are, up to a multiple of 2^25. -/
theorem timeToMacTime_iff (t : Tm) : timeToMacTime t = (t.seconds : Word) ↔ t.year < 2 ^ 31 := by
  rw [timeToMacTime_eq, t.seconds_eq, cast_eq_cast_iff, countedLeaps_eq, countedLeaps_eq,
    t.intYear_eq]
  have hlt : t.tmYear.toInt < 2147483648 := t.tmYear.toInt_lt
  have hyear : t.year = t.tmYear.toInt + 1900 := rfl
  split
  · next hsmall =>
    refine iff_of_true ?_ hsmall
    ring_nf
    rfl
  · next hlarge =>
    refine iff_of_false ?_ hlarge
    -- the count is off by some 1041529568 days
    obtain ⟨off, hoff⟩ : ∃ off, leapsBefore (t.year - 2 ^ 32) = leapsBefore t.year + off :=
      ⟨leapsBefore (t.year - 2 ^ 32) - leapsBefore t.year, by ring⟩
    have hbounds : -1041529572 ≤ off ∧ off ≤ -1041529564 := by
      unfold leapsBefore at hoff
      omega
    rw [hoff]
    generalize leapsBefore t.year = leaps
    omega

-- ---------------------------------------------------------------------------
-- The order of times
-- ---------------------------------------------------------------------------

namespace Tm

variable {t t' : Tm}

theorem days_lt (h : t.year < t'.year) : t.days < t'.days := by
  have hge := t.year_ge
  have hyear : t.year = t.tmYear.toInt + 1900 := rfl
  have hstart : (1904 : Int) + ((t.year - 1904).toNat : Int) = t.year := by omega
  have hnext : daysOfYears 1904 (t.year - 1904).toNat + yearDays t.year ≤
      daysOfYears 1904 (t'.year - 1904).toNat := by
    have hle := daysOfYears_lt 1904 (show (t.year - 1904).toNat < (t'.year - 1904).toNat by omega)
    rwa [hstart] at hle
  have hyday := t.yday_lt.2
  have hyday' := t'.yday_lt.1
  rw [← hyear] at hyday
  unfold days
  omega

theorem Before.seconds_lt (h : t.Before t') (hsec : t.tmSec.toInt < 60) : t.seconds < t'.seconds := by
  have hmin := t.min_lt
  have hhour := t.hour_lt
  have hsec' := t'.sec_le
  have hmin' := t'.min_lt
  have hhour' := t'.hour_lt
  unfold seconds
  rcases h with hyear | ⟨hyear, hyday | ⟨hyday, hhour | ⟨hhour, hmin | ⟨hmin, hsecs⟩⟩⟩⟩
  · have hdays := days_lt hyear
    omega
  all_goals
    have hdays : t'.days - t.days = t'.tmYday.toInt - t.tmYday.toInt := by
      rw [days, days, hyear]
      ring
  · omega
  · rw [hyday] at hdays
    omega
  · rw [hyday] at hdays
    rw [hhour]
    omega
  · rw [hyday] at hdays
    rw [hhour, hmin]
    omega

theorem seconds_lt_of_year (h : t.year < 2040) : 0 ≤ t.seconds ∧ t.seconds < 2 ^ 32 := by
  have hsec := t.sec_le
  have hmin := t.min_lt
  have hhour := t.hour_lt
  have hyday := t.yday_lt
  have hge := t.year_ge
  have hyear : t.year = t.tmYear.toInt + 1900 := rfl
  have hstart : (1904 : Int) + ((t.year - 1904).toNat : Int) = t.year := by omega
  have hpast : 0 ≤ daysOfYears 1904 (t.year - 1904).toNat := by
    rw [daysOfYears_eq, hstart]
    unfold leapsBefore
    omega
  have hend : daysOfYears 1904 (t.year - 1904).toNat + yearDays t.year ≤ 49674 := by
    have hle := daysOfYears_lt 1904 (show (t.year - 1904).toNat < 136 by omega)
    rw [hstart, daysOfYears_eq 1904 136] at hle
    norm_num [leapsBefore] at hle
    exact hle
  rw [← hyear] at hyday
  unfold seconds days
  omega

end Tm

theorem toNat_cast {x : Int} (hge : 0 ≤ x) (hlt : x < 2 ^ 32) : ((x : Word)).toNat = x.toNat := by
  have hmod : ((x : Word)).toNat = (x % ((2 ^ 32 : Nat) : Int)).toNat := BitVec.toNat_ofInt ..
  rw [hmod, Int.emod_eq_of_lt hge (by exact_mod_cast hlt)]

theorem Tm.toNat_timeToMacTime {t : Tm} (h : t.year < 2040) :
    ((timeToMacTime t).toNat : Int) = t.seconds := by
  obtain ⟨hge, hlt⟩ := Tm.seconds_lt_of_year h
  rw [(timeToMacTime_iff t).mpr (by omega), toNat_cast hge hlt]
  exact Int.toNat_of_nonneg hge

/-- Exact for the years that are an `int`, and increasing until 2040. A leap second is the second
after it. -/
theorem timeToMacTime_exact (t : Tm) :
    (timeToMacTime t = BitVec.ofInt 32 t.seconds ↔ t.year < 2 ^ 31) ∧
    ∀ t' : Tm, t.Before t' → t.tmSec.toInt < 60 → t'.year < 2040 →
      (timeToMacTime t).toNat < (timeToMacTime t').toNat := by
  refine ⟨timeToMacTime_iff t, fun t' hbefore hsec hyear => ?_⟩
  have hle : t.year ≤ t'.year := by
    rcases hbefore with hlt | ⟨heq, -⟩
    · exact le_of_lt hlt
    · exact le_of_eq heq
  have hseconds := Tm.Before.seconds_lt hbefore hsec
  have ht := Tm.toNat_timeToMacTime (lt_of_le_of_lt hle hyear)
  have ht' := Tm.toNat_timeToMacTime hyear
  omega

-- ---------------------------------------------------------------------------
-- The turn of a century, and the end of `int`
-- ---------------------------------------------------------------------------

/-- 28 February 2000, one second before midnight. -/
def lastOfFebruary : Tm where
  tmSec := 59
  tmMin := 59
  tmHour := 23
  tmYday := 58
  tmYear := 100
  sec_le := by decide
  min_lt := by decide
  hour_lt := by decide
  yday_lt := by decide
  year_ge := by decide

/-- 29 February 2000. -/
def leapDay : Tm where
  tmSec := 0
  tmMin := 0
  tmHour := 0
  tmYday := 59
  tmYear := 100
  sec_le := by decide
  min_lt := by decide
  hour_lt := by decide
  yday_lt := by decide
  year_ge := by decide

/-- 1 January of the year 2^31. -/
def farFuture : Tm where
  tmSec := 0
  tmMin := 0
  tmHour := 0
  tmYday := 0
  tmYear := 2147481748
  sec_le := by decide
  min_lt := by decide
  hour_lt := by decide
  yday_lt := by decide
  year_ge := by decide

theorem timeToMacTime_leapDay :
    (timeToMacTime lastOfFebruary).toNat < (timeToMacTime leapDay).toNat :=
  (timeToMacTime_exact lastOfFebruary).2 leapDay (.inr ⟨rfl, .inl (by decide)⟩) (by decide) (by decide)

theorem timeToMacTime_farFuture :
    timeToMacTime farFuture ≠ BitVec.ofInt 32 farFuture.seconds := by
  intro heq
  exact absurd ((timeToMacTime_iff farFuture).mp heq) (by decide)

end SheepShear.Timer
