import SheepShear.Timer.HostTime
import Mathlib.Tactic.Linarith

/-!
# Durations across the conversions

Which delays of the Mac keep their duration as host times, and which host times
are read back from a time of the Mac up to the unit that it counts.
-/

namespace SheepShear.Timer

-- ---------------------------------------------------------------------------
-- From the Mac to the host
-- ---------------------------------------------------------------------------

theorem normalised_timerMac2HostTime {mactime : Word} (h : mactime ≠ BitVec.intMin 32) :
    (timerMac2HostTime mactime).Normalised := by
  rw [timerMac2HostTime]
  split_ifs with hpos
  · have hmod := Int.tmod_eq_emod_of_nonneg (le_of_lt hpos) (b := 1000)
    simp only [TmTime.Normalised, hmod]
    omega
  · have hneg : 0 ≤ -mactime.toInt := by omega
    have hmod := Int.tmod_eq_emod_of_nonneg hneg (b := 1000000)
    simp only [TmTime.Normalised, BitVec.toInt_neg_of_ne_intMin h, hmod]
    omega

theorem macDelay_bounds (mactime : Word) :
    0 ≤ macDelay mactime ∧ macDelay mactime < 2 ^ 31 * 1000000 := by
  have hlt := mactime.toInt_lt
  have hge := mactime.le_toInt
  rw [macDelay]
  split_ifs <;> omega

theorem tvSec_timerMac2HostTime {mactime : Word} (h : mactime ≠ BitVec.intMin 32) :
    0 ≤ (timerMac2HostTime mactime).tvSec := by
  have hnorm := normalised_timerMac2HostTime h
  have hdelay := nanoseconds_timerMac2HostTime h
  have hbounds := macDelay_bounds mactime
  simp only [TmTime.Normalised, TmTime.nanoseconds] at hnorm hdelay
  omega

-- ---------------------------------------------------------------------------
-- From the host to the Mac
-- ---------------------------------------------------------------------------

/-- Microseconds while they fit, and milliseconds while these do. -/
theorem toInt_timerHost2MacTime {t : TmTime} (hnorm : t.Normalised) (hsec : 0 ≤ t.tvSec)
    (hlt : t.nanoseconds < 2 ^ 31 * 1000000) :
    (timerHost2MacTime t).toInt =
      if t.nanoseconds < 2 ^ 31 * 1000 then -(t.nanoseconds / 1000) else t.nanoseconds / 1000000 := by
  obtain ⟨hnonneg, hnsec⟩ := hnorm
  obtain ⟨u, hu⟩ : ∃ u : Nat, t.nanoseconds / 1000 = u := by
    refine ⟨(t.nanoseconds / 1000).toNat, ?_⟩
    rw [TmTime.nanoseconds]
    omega
  have hsum : t.tvSec * 1000000 + t.tvNsec.tdiv 1000 = u := by
    rw [← hu, TmTime.nanoseconds, Int.tdiv_eq_ediv_of_nonneg hnonneg]
    omega
  have hult : u < 2 ^ 31 * 1000 := by omega
  have hbits : BitVec.ofInt 64 (u : Int) = BitVec.ofNat 64 u := BitVec.ofInt_natCast 64 u
  have htoNat : (BitVec.ofNat 64 u).toNat = u := by
    rw [BitVec.toNat_ofNat, Nat.mod_eq_of_lt (by omega)]
  have hthousand : (BitVec.ofNat 64 u / 1000).toNat = u / 1000 := by
    rw [BitVec.toNat_udiv, htoNat]
    rfl
  have hlarge : 0x7fffffff < BitVec.ofNat 64 u ↔ 2 ^ 31 ≤ u := by
    rw [BitVec.lt_def, htoNat]
    show 0x7fffffff < u ↔ _
    omega
  rw [timerHost2MacTime, if_neg (by omega), hsum, hbits]
  dsimp only
  by_cases hfits : 2 ^ 31 ≤ u
  · have hcut : ((BitVec.ofNat 64 u / 1000).setWidth 32).toNat = u / 1000 := by
      rw [BitVec.toNat_setWidth, hthousand, Nat.mod_eq_of_lt (by omega)]
    rw [if_pos (hlarge.mpr hfits), if_neg (by omega), BitVec.toInt_eq_toNat_cond, hcut, if_pos (by omega)]
    omega
  · have hcut : ((-BitVec.ofNat 64 u).setWidth 32).toNat = (2 ^ 32 - u) % 2 ^ 32 := by
      rw [BitVec.toNat_setWidth, BitVec.toNat_neg, htoNat]
      omega
    rw [if_neg (by rw [hlarge]; exact hfits), if_pos (by omega), BitVec.toInt_eq_toNat_cond, hcut]
    split_ifs <;> omega

-- ---------------------------------------------------------------------------
-- There and back
-- ---------------------------------------------------------------------------

/-- The host time is normalised and means the delay, and so does the time that
the Mac gets for it. -/
def KeepsDelay (mactime : Word) : Prop :=
  (timerMac2HostTime mactime).Normalised ∧
    (timerMac2HostTime mactime).nanoseconds = macDelay mactime ∧
    macDelay (timerHost2MacTime (timerMac2HostTime mactime)) = macDelay mactime

/-- The time of the Mac is off by less than the unit that it counts. -/
def ReadsBack (t : TmTime) : Prop :=
  |t.nanoseconds - (timerMac2HostTime (timerHost2MacTime t)).nanoseconds| <
    if t.nanoseconds < 2 ^ 31 * 1000 then 1000 else 1000000

theorem keepsDelay_of_ne {mactime : Word} (h : mactime ≠ BitVec.intMin 32) : KeepsDelay mactime := by
  have hnorm := normalised_timerMac2HostTime h
  have hdelay := nanoseconds_timerMac2HostTime h
  have hbounds := macDelay_bounds mactime
  have hback := toInt_timerHost2MacTime hnorm (tvSec_timerMac2HostTime h) (hdelay ▸ hbounds.2)
  refine ⟨hnorm, hdelay, ?_⟩
  rw [hdelay] at hback
  by_cases hpos : 0 < mactime.toInt
  · have hval : macDelay mactime = mactime.toInt * 1000000 := if_pos hpos
    rw [hval] at hback ⊢
    rw [macDelay, hback]
    split_ifs <;> omega
  · have hval : macDelay mactime = -mactime.toInt * 1000 := if_neg hpos
    have hge : -2 ^ 31 ≤ mactime.toInt := mactime.le_toInt
    have hne : mactime.toInt ≠ -2 ^ 31 := fun heq => h (BitVec.toInt_inj.mp heq)
    rw [hval] at hback ⊢
    rw [macDelay, hback]
    split_ifs <;> omega

theorem readsBack_of_lt {t : TmTime} (hnorm : t.Normalised) (hsec : 0 ≤ t.tvSec)
    (hlt : t.nanoseconds < 2 ^ 31 * 1000000) : ReadsBack t := by
  have hback := toInt_timerHost2MacTime hnorm hsec hlt
  have hnonneg : 0 ≤ t.nanoseconds := by
    have hnsec := hnorm.1
    rw [TmTime.nanoseconds]
    omega
  have hmin : timerHost2MacTime t ≠ BitVec.intMin 32 := by
    intro heq
    rw [heq, BitVec.toInt_intMin] at hback
    split_ifs at hback <;> omega
  rw [ReadsBack, nanoseconds_timerMac2HostTime hmin, macDelay, hback, abs_lt]
  split_ifs <;> omega

/-- No time of the Mac comes near a host time of 2^31 milliseconds. -/
theorem nanoseconds_timerMac2HostTime_le (mactime : Word) :
    (timerMac2HostTime mactime).nanoseconds ≤ (2 ^ 31 - 1) * 1000000 := by
  by_cases hmin : mactime = BitVec.intMin 32
  · subst hmin
    decide
  · have hlt := mactime.toInt_lt
    have hge := mactime.le_toInt
    rw [nanoseconds_timerMac2HostTime hmin, macDelay]
    split_ifs <;> omega

/-- Every delay is kept but the one whose negation does not fit, and every
non-negative host time is read back as long as its milliseconds fit. -/
theorem hostTime_exact (mactime : Word) :
    (KeepsDelay mactime ↔ mactime ≠ BitVec.intMin 32) ∧
      ∀ t : TmTime, t.Normalised → 0 ≤ t.tvSec →
        (ReadsBack t ↔ t.nanoseconds < 2 ^ 31 * 1000000) := by
  refine ⟨⟨?_, keepsDelay_of_ne⟩, fun t hnorm hsec => ⟨fun hreads => ?_, readsBack_of_lt hnorm hsec⟩⟩
  · rintro ⟨hnorm, -, -⟩ rfl
    exact absurd hnorm.1 (by decide)
  · by_contra hge
    have hle := nanoseconds_timerMac2HostTime_le (timerHost2MacTime t)
    rw [ReadsBack, if_neg (by omega), abs_lt] at hreads
    omega

/-- A delay of five minutes, and a host time just above it. -/
theorem hostTime_fiveMinutes : KeepsDelay 300000 ∧ ReadsBack ⟨300, 999⟩ :=
  ⟨(hostTime_exact 300000).1.mpr (by decide),
    ((hostTime_exact 300000).2 ⟨300, 999⟩ ⟨by decide, by decide⟩ (by decide)).mpr (by decide)⟩

/-- The delay of -2^31 microseconds. -/
theorem intMin_not_kept : ¬KeepsDelay (BitVec.intMin 32) := by
  rintro ⟨hnorm, -, -⟩
  exact absurd hnorm.1 (by decide)

end SheepShear.Timer
