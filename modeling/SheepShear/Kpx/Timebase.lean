import SheepShear.Kpx.Cpu

/-!
# The timebase

`muldiv64`, `get_tb_ticks` and `execute_mftbr` of `ppc-execute.cpp`. The product
of 96 bits is formed and divided in two digits of 32 bits, so that every partial
result fits into 64 bits.
-/

namespace SheepShear.Kpx

-- ---------------------------------------------------------------------------
-- Multiplication and division
-- ---------------------------------------------------------------------------

def muldivRl (a : BitVec 64) (b : Word) : BitVec 64 :=
  (a.setWidth 32 : Word).setWidth 64 * b.setWidth 64

/-- `rh` after the carry of `rl` has been added. -/
def muldivRh (a : BitVec 64) (b : Word) : BitVec 64 :=
  ((a >>> 32).setWidth 32 : Word).setWidth 64 * b.setWidth 64 + (muldivRl a b >>> 32)

/-- What `res.l.low` is the quotient of. -/
def muldivLow (a : BitVec 64) (b c : Word) : BitVec 64 :=
  ((muldivRh a b % c.setWidth 64) <<< 32) + (muldivRl a b &&& 0xffffffff#64)

def muldiv64 (a : BitVec 64) (b c : Word) : BitVec 64 :=
  ((muldivRh a b / c.setWidth 64).setWidth 32 : Word) ++
    ((muldivLow a b c / c.setWidth 64).setWidth 32 : Word)

/-- No partial result is cut off. -/
structure MuldivExact (a : BitVec 64) (b c : Word) : Prop where
  rl : (muldivRl a b).toNat = a.toNat % 2 ^ 32 * b.toNat
  rh : (muldivRh a b).toNat = a.toNat / 2 ^ 32 * b.toNat + a.toNat % 2 ^ 32 * b.toNat / 2 ^ 32
  low : (muldivLow a b c).toNat =
    (muldivRh a b).toNat % c.toNat * 2 ^ 32 + (muldivRl a b).toNat % 2 ^ 32
  digit : (muldivLow a b c).toNat / c.toNat < 2 ^ 32

/-- Division in two digits to the base `R`. -/
theorem div_two_digits (R h l c : Nat) (hc : 0 < c) :
    (h * R + l) / c = h / c * R + (h % c * R + l) / c := by
  have hh : h * R + l = c * (h / c * R) + (h % c * R + l) := by
    conv_lhs => rw [← Nat.div_add_mod h c]
    ring
  rw [hh, Nat.mul_add_div hc]

theorem muldivExact (a : BitVec 64) (b c : Word) (hc : 0 < c.toNat) : MuldivExact a b c := by
  have ha := a.isLt
  have hb := b.isLt
  have hclt := c.isLt
  have hl : a.toNat % 2 ^ 32 ≤ 2 ^ 32 - 1 := by omega
  have hh : a.toNat / 2 ^ 32 ≤ 2 ^ 32 - 1 := by omega
  have hprod (x : Nat) (hx : x ≤ 2 ^ 32 - 1) : x * b.toNat ≤ (2 ^ 32 - 1) * (2 ^ 32 - 1) :=
    Nat.mul_le_mul hx (by omega)
  have hrl : (muldivRl a b).toNat = a.toNat % 2 ^ 32 * b.toNat := by
    have hfit := hprod _ hl
    rw [muldivRl, BitVec.toNat_mul]
    simp only [BitVec.toNat_setWidth]
    rw [Nat.mod_eq_of_lt (by omega : a.toNat % 2 ^ 32 < 2 ^ 64), Nat.mod_eq_of_lt (by omega : b.toNat < 2 ^ 64),
      Nat.mod_eq_of_lt (by omega)]
  have hrh : (muldivRh a b).toNat =
      a.toNat / 2 ^ 32 * b.toNat + a.toNat % 2 ^ 32 * b.toNat / 2 ^ 32 := by
    have hfit := hprod _ hh
    have hcarry := hprod _ hl
    rw [muldivRh, BitVec.toNat_add, BitVec.toNat_mul, BitVec.toNat_ushiftRight, hrl,
      Nat.shiftRight_eq_div_pow]
    simp only [BitVec.toNat_setWidth, BitVec.toNat_ushiftRight, Nat.shiftRight_eq_div_pow]
    rw [Nat.mod_eq_of_lt (by omega : a.toNat / 2 ^ 32 < 2 ^ 32), Nat.mod_eq_of_lt (by omega : a.toNat / 2 ^ 32 < 2 ^ 64),
      Nat.mod_eq_of_lt (by omega : b.toNat < 2 ^ 64), Nat.mod_eq_of_lt (by omega : a.toNat / 2 ^ 32 * b.toNat < 2 ^ 64),
      Nat.mod_eq_of_lt (by omega)]
  have hmod := Nat.mod_lt (muldivRh a b).toNat hc
  have hlow : (muldivLow a b c).toNat =
      (muldivRh a b).toNat % c.toNat * 2 ^ 32 + (muldivRl a b).toNat % 2 ^ 32 := by
    have hmask : (0xffffffff#64).toNat = 2 ^ 32 - 1 := rfl
    rw [muldivLow, BitVec.toNat_add, BitVec.toNat_shiftLeft, BitVec.toNat_umod, BitVec.toNat_and,
      BitVec.toNat_setWidth, hmask, Nat.and_two_pow_sub_one_eq_mod, Nat.shiftLeft_eq,
      Nat.mod_eq_of_lt (by omega : c.toNat < 2 ^ 64), Nat.mod_eq_of_lt (by omega : _ * 2 ^ 32 < 2 ^ 64),
      Nat.mod_eq_of_lt (by omega)]
  refine ⟨hrl, hrh, hlow, ?_⟩
  rw [Nat.div_lt_iff_lt_mul hc, hlow, Nat.mul_comm (2 ^ 32)]
  omega

theorem muldiv64_toNat (a : BitVec 64) (b c : Word) (hc : 0 < c.toNat) :
    (muldiv64 a b c).toNat = a.toNat * b.toNat / c.toNat % 2 ^ 64 := by
  obtain ⟨hrl, hrh, hlow, hdigit⟩ := muldivExact a b c hc
  have hclt := c.isLt
  have hcmod : c.toNat % 2 ^ 64 = c.toNat := Nat.mod_eq_of_lt (by omega)
  -- the product in two digits
  have hproduct : a.toNat * b.toNat = (muldivRh a b).toNat * 2 ^ 32 + (muldivRl a b).toNat % 2 ^ 32 := by
    have hdigits := Nat.div_add_mod (a.toNat % 2 ^ 32 * b.toNat) (2 ^ 32)
    rw [hrh, hrl]
    calc a.toNat * b.toNat
        = (2 ^ 32 * (a.toNat / 2 ^ 32) + a.toNat % 2 ^ 32) * b.toNat := by rw [Nat.div_add_mod]
      _ = a.toNat / 2 ^ 32 * b.toNat * 2 ^ 32 + a.toNat % 2 ^ 32 * b.toNat := by ring
      _ = a.toNat / 2 ^ 32 * b.toNat * 2 ^ 32 + (2 ^ 32 * (a.toNat % 2 ^ 32 * b.toNat / 2 ^ 32) +
            a.toNat % 2 ^ 32 * b.toNat % 2 ^ 32) := by rw [hdigits]
      _ = _ := by ring
  have hquotient : a.toNat * b.toNat / c.toNat =
      (muldivRh a b).toNat / c.toNat * 2 ^ 32 + (muldivLow a b c).toNat / c.toNat := by
    rw [hproduct, div_two_digits _ _ _ _ hc, hlow]
  have hresult : (muldiv64 a b c).toNat =
      (muldivRh a b).toNat / c.toNat % 2 ^ 32 * 2 ^ 32 + (muldivLow a b c).toNat / c.toNat := by
    rw [muldiv64, BitVec.toNat_append, ← Nat.shiftLeft_add_eq_or_of_lt (BitVec.isLt _), Nat.shiftLeft_eq]
    simp only [BitVec.toNat_setWidth, BitVec.toNat_udiv, hcmod]
    rw [Nat.mod_eq_of_lt hdigit]
  rw [hresult, hquotient]
  omega

-- ---------------------------------------------------------------------------
-- mftb
-- ---------------------------------------------------------------------------

/-- What the timebase depends on: `GetTicks_usec()` and the variable `TimebaseSpeed`. -/
structure HostClock where
  ticks : BitVec 64
  timebaseSpeed : BitVec 64

def getTbTicks (clock : HostClock) : BitVec 64 :=
  muldiv64 clock.ticks (clock.timebaseSpeed.setWidth 32) 1000000

/-- `tbr_operand::get`. -/
def tbrOperand (opcode : Word) : BitVec 10 :=
  let tbr : BitVec 10 := bitField 11 20 opcode
  ((tbr &&& 0x1f) <<< 5) ||| ((tbr >>> 5) &&& 0x1f)

/-- `execute_illegal`; no result is `abort`. -/
def executeIllegal (ignoreillegal : Bool) (s : Cpu) : Option Cpu :=
  if ignoreillegal then some (s.incrementPc 4) else none

/-- `d` is the variable of that name before anything is stored to it. -/
def executeMftbr (clock : HostClock) (ignoreillegal : Bool) (d : Word) (opcode : Word) (s : Cpu) :
    Option Cpu := do
  let (d, s) ←
    if tbrOperand opcode = 268 then some ((getTbTicks clock).setWidth 32, s)
    else if tbrOperand opcode = 269 then some ((getTbTicks clock >>> 32).setWidth 32, s)
    else (executeIllegal ignoreillegal s).map fun s => (d, s)
  return (s.setGpr (rDField opcode) d).incrementPc 4

theorem executeMftbr_lower (clock : HostClock) (ignoreillegal : Bool) (d : Word) {opcode : Word}
    (h : tbrOperand opcode = 268) (s : Cpu) :
    executeMftbr clock ignoreillegal d opcode s =
      some ((s.setGpr (rDField opcode) ((getTbTicks clock).setWidth 32)).incrementPc 4) := by
  rw [executeMftbr, if_pos h]
  rfl

theorem executeMftbr_upper (clock : HostClock) (ignoreillegal : Bool) (d : Word) {opcode : Word}
    (h : tbrOperand opcode = 269) (s : Cpu) :
    executeMftbr clock ignoreillegal d opcode s =
      some ((s.setGpr (rDField opcode) ((getTbTicks clock >>> 32).setWidth 32)).incrementPc 4) := by
  rw [executeMftbr, if_neg (by rw [h]; decide), if_pos h]
  rfl

/-- `mftbu` and `mftb` while the clock stands still. -/
def readTimebase (clock : HostClock) (mftbu mftb : Word) (s : Cpu) : Option (BitVec 64) := do
  let s ← executeMftbr clock false 0 mftbu s
  let s ← executeMftbr clock false 0 mftb s
  return s.regs.gpr (rDField mftbu) ++ s.regs.gpr (rDField mftb)

/-- The two instructions, into two registers. -/
structure TimebasePair (mftbu mftb : Word) : Prop where
  upper : tbrOperand mftbu = 269
  lower : tbrOperand mftb = 268
  ne : rDField mftbu ≠ rDField mftb

theorem TimebasePair.readTimebase_eq {mftbu mftb : Word} (h : TimebasePair mftbu mftb)
    (clock : HostClock) (s : Cpu) : readTimebase clock mftbu mftb s = some (getTbTicks clock) := by
  have hjoin : ((getTbTicks clock >>> 32).setWidth 32 : Word) ++ ((getTbTicks clock).setWidth 32 : Word) =
      getTbTicks clock := by
    have htb := (getTbTicks clock).isLt
    apply BitVec.eq_of_toNat_eq
    rw [BitVec.toNat_append, ← Nat.shiftLeft_add_eq_or_of_lt (BitVec.isLt _), Nat.shiftLeft_eq]
    simp only [BitVec.toNat_setWidth, BitVec.toNat_ushiftRight, Nat.shiftRight_eq_div_pow]
    omega
  rw [readTimebase, executeMftbr_upper _ _ _ h.upper, Option.bind_eq_bind, Option.bind_some,
    executeMftbr_lower _ _ _ h.lower, Option.bind_some]
  simp only [Cpu.incrementPc, Cpu.setGpr, Regs.setGpr, if_pos, if_neg h.ne]
  exact congrArg some hjoin

theorem getTbTicks_mono {clock clock' : HostClock} (hspeed : clock'.timebaseSpeed = clock.timebaseSpeed)
    (hticks : clock.ticks.toNat ≤ clock'.ticks.toNat)
    (hfit : clock'.ticks.toNat * (clock'.timebaseSpeed.setWidth 32 : Word).toNat / 1000000 < 2 ^ 64) :
    (getTbTicks clock).toNat ≤ (getTbTicks clock').toNat := by
  have hc : 0 < (1000000 : Word).toNat := by decide
  have hle : clock.ticks.toNat * (clock.timebaseSpeed.setWidth 32 : Word).toNat / 1000000 ≤
      clock'.ticks.toNat * (clock'.timebaseSpeed.setWidth 32 : Word).toNat / 1000000 := by
    rw [hspeed]
    exact Nat.div_le_div_right (Nat.mul_le_mul_right _ hticks)
  have hmillion : (1000000 : Word).toNat = 1000000 := rfl
  rw [getTbTicks, getTbTicks, muldiv64_toNat _ _ _ hc, muldiv64_toNat _ _ _ hc, hmillion,
    Nat.mod_eq_of_lt hfit, Nat.mod_eq_of_lt (hle.trans_lt hfit)]
  exact hle

/-- The scaling is exact, and the timebase does not go back while the scaled ticks fit. -/
theorem timebase_exact :
    (∀ (a : BitVec 64) (b c : Word), 0 < c.toNat → MuldivExact a b c ∧
      (muldiv64 a b c).toNat = a.toNat * b.toNat / c.toNat % 2 ^ 64) ∧
    ∀ (mftbu mftb : Word) (speed ticks ticks' : BitVec 64) (s s' : Cpu), TimebasePair mftbu mftb →
      ticks.toNat ≤ ticks'.toNat →
      ticks'.toNat * (speed.setWidth 32 : Word).toNat / 1000000 < 2 ^ 64 →
      ∃ tb tb', readTimebase ⟨ticks, speed⟩ mftbu mftb s = some tb ∧
        readTimebase ⟨ticks', speed⟩ mftbu mftb s' = some tb' ∧ tb.toNat ≤ tb'.toNat := by
  refine ⟨fun a b c hc => ⟨muldivExact a b c hc, muldiv64_toNat a b c hc⟩, ?_⟩
  intro mftbu mftb speed ticks ticks' s s' hpair hticks hfit
  exact ⟨_, _, hpair.readTimebase_eq _ s, hpair.readTimebase_eq _ s', getTbTicks_mono rfl hticks hfit⟩

/-- `mftbu r3` and `mftb r4` at 25 MHz, one second apart. -/
theorem timebase_second :
    ∃ tb tb', readTimebase ⟨0, 25000000⟩ 0x7c6d42e6 0x7c8c42e6 (.initRegisters fun _ => 0) = some tb ∧
      readTimebase ⟨1000000, 25000000⟩ 0x7c6d42e6 0x7c8c42e6 (.initRegisters fun _ => 0) = some tb' ∧
      tb.toNat ≤ tb'.toNat :=
  timebase_exact.2 _ _ _ _ _ _ _ ⟨by decide, by decide, by decide⟩ (by decide) (by decide)

end SheepShear.Kpx
