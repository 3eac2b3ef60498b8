import SheepShear.Lib.Bytes

/-!
# Host times

The `tm_time_t` of a host with `clock_gettime`, a `struct timespec`, and its
conversions to and from the times of the Time Manager: a positive time of the Mac
counts milliseconds, any other one is a negated number of microseconds. The
arithmetic of `int32` and `uint64` wraps.
-/

namespace SheepShear.Timer

structure TmTime where
  tvSec : Int
  tvNsec : Int
deriving DecidableEq, Repr

namespace TmTime

def Normalised (t : TmTime) : Prop := 0 ≤ t.tvNsec ∧ t.tvNsec < 1000000000

/-- The time that is meant, in nanoseconds. -/
def nanoseconds (t : TmTime) : Int := t.tvSec * 1000000000 + t.tvNsec

end TmTime

/-- The delay that a time of the Mac stands for, in nanoseconds. -/
def macDelay (mactime : Word) : Int :=
  if 0 < mactime.toInt then mactime.toInt * 1000000 else -mactime.toInt * 1000

def timerAddTime (a b : TmTime) : TmTime :=
  let sec := a.tvSec + b.tvSec
  let nsec := a.tvNsec + b.tvNsec
  if 1000000000 ≤ nsec then ⟨sec + 1, nsec - 1000000000⟩ else ⟨sec, nsec⟩

def timerSubTime (a b : TmTime) : TmTime :=
  let sec := a.tvSec - b.tvSec
  let nsec := a.tvNsec - b.tvNsec
  if nsec < 0 then ⟨sec - 1, nsec + 1000000000⟩ else ⟨sec, nsec⟩

/-- The difference is cut to the `int` that is returned. -/
def timerCmpTime (a b : TmTime) : Int :=
  if a.tvSec = b.tvSec then (BitVec.ofInt 32 (a.tvNsec - b.tvNsec)).toInt
  else (BitVec.ofInt 32 (a.tvSec - b.tvSec)).toInt

def timerMac2HostTime (mactime : Word) : TmTime :=
  if 0 < mactime.toInt then
    ⟨mactime.toInt.tdiv 1000, mactime.toInt.tmod 1000 * 1000000⟩
  else
    ⟨(-mactime).toInt.tdiv 1000000, (-mactime).toInt.tmod 1000000 * 1000⟩

def timerHost2MacTime (hosttime : TmTime) : Word :=
  if hosttime.tvSec < 0 then 0
  else
    let t : BitVec 64 := BitVec.ofInt 64 (hosttime.tvSec * 1000000 + hosttime.tvNsec.tdiv 1000)
    if 0x7fffffff < t then (t / 1000).setWidth 32 else (-t).setWidth 32

-- ---------------------------------------------------------------------------
-- What they do to the time that is meant
-- ---------------------------------------------------------------------------

@[simp] theorem nanoseconds_timerAddTime (a b : TmTime) :
    (timerAddTime a b).nanoseconds = a.nanoseconds + b.nanoseconds := by
  simp only [timerAddTime, TmTime.nanoseconds]
  split <;> dsimp only <;> omega

@[simp] theorem nanoseconds_timerSubTime (a b : TmTime) :
    (timerSubTime a b).nanoseconds = a.nanoseconds - b.nanoseconds := by
  simp only [timerSubTime, TmTime.nanoseconds]
  split <;> dsimp only <;> omega

/-- Every delay but the one whose negation does not fit. -/
theorem nanoseconds_timerMac2HostTime {mactime : Word} (h : mactime ≠ BitVec.intMin 32) :
    (timerMac2HostTime mactime).nanoseconds = macDelay mactime := by
  simp only [timerMac2HostTime, TmTime.nanoseconds, macDelay]
  split
  · have hdiv := Int.tdiv_mul_add_tmod mactime.toInt 1000
    dsimp only
    omega
  · rw [BitVec.toInt_neg_of_ne_intMin h]
    have hdiv := Int.tdiv_mul_add_tmod (-mactime.toInt) 1000000
    dsimp only
    omega

end SheepShear.Timer
