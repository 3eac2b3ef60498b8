import SheepShear.Kpx.LoadStore
import SheepShear.Lib.BinaryFloat

/-!
# Single-precision loads and stores

`fp_load_single_convert`, `fp_store_single_convert` and `execute_fp_loadstore`.
The conversions of the host are parameters: those of IEEE 754, which are exact
on numbers of single precision. A magnitude is counted in the smallest numbers
of its format, 2^-149 and 2^-1074.
-/

namespace SheepShear.Kpx

open BinaryFloat

-- ---------------------------------------------------------------------------
-- The formats
-- ---------------------------------------------------------------------------

def floatSign (w : Word) : BitVec 1 := w.extractLsb' 31 1
def floatExp (w : Word) : BitVec 8 := w.extractLsb' 23 8
def floatFrac (w : Word) : BitVec 23 := w.extractLsb' 0 23

def doubleSign (v : BitVec 64) : BitVec 1 := v.extractLsb' 63 1
def doubleExp (v : BitVec 64) : BitVec 11 := v.extractLsb' 52 11
def doubleFrac (v : BitVec 64) : BitVec 52 := v.extractLsb' 0 52

def floatMagnitude (w : Word) : Nat := magnitude 23 (floatExp w).toNat (floatFrac w).toNat
def doubleMagnitude (v : BitVec 64) : Nat := magnitude 52 (doubleExp v).toNat (doubleFrac v).toNat

/-- A NaN without the bit that makes it quiet. -/
def Signalling (w : Word) : Prop :=
  floatExp w = 255 ∧ floatFrac w ≠ 0 ∧ (floatFrac w).msb = false

instance (w : Word) : Decidable (Signalling w) := by unfold Signalling; infer_instance

/-- How many of the smallest doubles make one of the smallest floats. -/
def floatUnit : Nat := 2 ^ 925

theorem floatUnit_pos : 0 < floatUnit := by
  unfold floatUnit
  positivity

/-- A finite number in both formats, with its sign. -/
structure SameNumber (w : Word) (v : BitVec 64) : Prop where
  floatFinite : floatExp w ≠ 255
  doubleFinite : doubleExp v ≠ 2047
  sign : doubleSign v = floatSign w
  magnitude : doubleMagnitude v = floatMagnitude w * floatUnit

/-- `(double)x.f` and `(float)x.d`. An infinity stays one, and a quiet NaN keeps its payload. -/
structure HostConversion where
  toDouble : Word → BitVec 64
  toFloat : BitVec 64 → Word
  toDouble_finite : ∀ w, floatExp w ≠ 255 → SameNumber w (toDouble w)
  toDouble_special : ∀ w, floatExp w = 255 → ¬ Signalling w →
    toDouble w = floatSign w ++ 2047#11 ++ (floatFrac w ++ 0#29)
  toFloat_exact : ∀ w v, SameNumber w v → SameNumber (toFloat v) v

-- ---------------------------------------------------------------------------
-- The handlers
-- ---------------------------------------------------------------------------

def fpLoadSingleConvert (host : HostConversion) (v : Word) : BitVec 64 := host.toDouble v

def fpStoreSingleConvert (host : HostConversion) (v : BitVec 64) : Word :=
  let exp := ((v >>> 52) &&& 0x7ff#64).toNat
  if exp < 874 ∨ exp > 896 then
    (((v >>> 32) &&& 0xc0000000#64) ||| ((v >>> 29) &&& 0x3fffffff#64)).setWidth 32
  else
    host.toFloat v

/-- `vm_read_memory_8` and `vm_write_memory_8`. -/
def vmRead8 (m : Mem) (ea : Word) : BitVec 64 := m.readInt32 ea ++ m.readInt32 (ea + 4)

def vmWrite8 (m : Mem) (ea : Word) (v : BitVec 64) : Mem :=
  (m.writeInt32 ea (v.extractLsb' 32 32)).writeInt32 (ea + 4) (v.extractLsb' 0 32)

def frDField (opcode : Word) : BitVec 5 := bitField 6 10 opcode
def frSField (opcode : Word) : BitVec 5 := bitField 6 10 opcode

def executeFpLoadstore (host : HostConversion) (RA RB : Operand) (ld db up : Bool) (opcode : Word)
    (s : Cpu) : Cpu :=
  let a := RA s.regs opcode
  let b := RB s.regs opcode
  let ea := a + b
  let s : Cpu :=
    if ld then
      let v := if db then vmRead8 s.mem ea else fpLoadSingleConvert host (s.mem.readInt32 ea)
      s.setFpr (frDField opcode) v
    else
      let v := s.fpr (frSField opcode)
      if db then { s with mem := vmWrite8 s.mem ea v }
      else { s with mem := s.mem.writeInt32 ea (fpStoreSingleConvert host v) }
  let s := if up then s.setGpr (rAField opcode) ea else s
  s.incrementPc 4

-- ---------------------------------------------------------------------------
-- Fields
-- ---------------------------------------------------------------------------

theorem float_fields (w : Word) : floatSign w ++ floatExp w ++ floatFrac w = w := by
  simp only [floatSign, floatExp, floatFrac]
  rw [BitVec.extractLsb'_append_extractLsb'_eq_extractLsb' (by omega),
    BitVec.extractLsb'_append_extractLsb'_eq_extractLsb' (by omega)]
  exact BitVec.extractLsb'_eq_self

theorem double_fields (v : BitVec 64) : doubleSign v ++ doubleExp v ++ doubleFrac v = v := by
  simp only [doubleSign, doubleExp, doubleFrac]
  rw [BitVec.extractLsb'_append_extractLsb'_eq_extractLsb' (by omega),
    BitVec.extractLsb'_append_extractLsb'_eq_extractLsb' (by omega)]
  exact BitVec.extractLsb'_eq_self

theorem double_pack (s : BitVec 1) (e : BitVec 11) (f : BitVec 52) :
    doubleSign (s ++ e ++ f) = s ∧ doubleExp (s ++ e ++ f) = e ∧ doubleFrac (s ++ e ++ f) = f := by
  simp only [doubleSign, doubleExp, doubleFrac]
  refine ⟨?_, ?_, ?_⟩ <;> ext i hi <;> simp <;> grind

/-- The exponent that the store looks at. -/
theorem store_exp (v : BitVec 64) : ((v >>> 52) &&& 0x7ff#64).toNat = (doubleExp v).toNat := by
  have hv := v.isLt
  rw [BitVec.toNat_and, BitVec.toNat_ushiftRight, doubleExp, BitVec.extractLsb'_toNat]
  exact Nat.and_two_pow_sub_one_eq_mod _ 11

/-- The bits that the store copies. -/
theorem store_bits (s : BitVec 1) (e : BitVec 11) (f : BitVec 23) :
    (((s ++ e ++ (f ++ 0#29) : BitVec 64) >>> 32 &&& 0xc0000000#64) |||
      ((s ++ e ++ (f ++ 0#29) : BitVec 64) >>> 29 &&& 0x3fffffff#64)).setWidth 32 =
      s ++ (e.extractLsb' 10 1 ++ e.extractLsb' 0 7) ++ f := by
  apply BitVec.eq_of_getLsbD_eq
  intro i hi
  simp only [BitVec.getLsbD_setWidth, BitVec.getLsbD_or, BitVec.getLsbD_and,
    BitVec.getLsbD_ushiftRight, BitVec.getLsbD_append, BitVec.getLsbD_extractLsb']
  interval_cases i <;> simp

-- ---------------------------------------------------------------------------
-- Numbers in both formats
-- ---------------------------------------------------------------------------

theorem SameNumber.double_unique {w : Word} {v v' : BitVec 64} (h : SameNumber w v)
    (h' : SameNumber w v') : v = v' := by
  obtain ⟨hexp, hfrac⟩ := magnitude_inj (doubleFrac v).isLt (doubleFrac v').isLt
    (h.magnitude.trans h'.magnitude.symm)
  rw [← double_fields v, ← double_fields v', h.sign, h'.sign, BitVec.eq_of_toNat_eq hexp,
    BitVec.eq_of_toNat_eq hfrac]

theorem SameNumber.float_unique {w w' : Word} {v : BitVec 64} (h : SameNumber w v)
    (h' : SameNumber w' v) : w = w' := by
  have hmag : floatMagnitude w = floatMagnitude w' :=
    Nat.eq_of_mul_eq_mul_right floatUnit_pos (h.magnitude.symm.trans h'.magnitude)
  obtain ⟨hexp, hfrac⟩ := magnitude_inj (floatFrac w).isLt (floatFrac w').isLt hmag
  rw [← float_fields w, ← float_fields w', ← h.sign, ← h'.sign, BitVec.eq_of_toNat_eq hexp,
    BitVec.eq_of_toNat_eq hfrac]

/-- The exponent of a normal number in the wider format, and the way back. -/
theorem exponent_widen (e : BitVec 8) (h0 : e ≠ 0) (h255 : e ≠ 255) :
    (e.setWidth 11 + 896#11).toNat = e.toNat + 896 ∧
    (e.setWidth 11 + 896#11).extractLsb' 10 1 ++ (e.setWidth 11 + 896#11).extractLsb' 0 7 = e := by
  revert e
  decide

theorem sameNumber_normal {w : Word} (h0 : floatExp w ≠ 0) (h255 : floatExp w ≠ 255) :
    SameNumber w (floatSign w ++ ((floatExp w).setWidth 11 + 896#11) ++ (floatFrac w ++ 0#29)) := by
  obtain ⟨hsign, hexp, hfrac⟩ := double_pack (floatSign w) ((floatExp w).setWidth 11 + 896#11)
    (floatFrac w ++ 0#29)
  obtain ⟨hval, -⟩ := exponent_widen (floatExp w) h0 h255
  have hlt := (floatExp w).isLt
  have hpos : (floatExp w).toNat ≠ 0 := fun h => h0 (BitVec.eq_of_toNat_eq h)
  have h255' : (floatExp w).toNat ≠ 255 := fun h => h255 (BitVec.eq_of_toNat_eq h)
  refine ⟨h255, fun h => ?_, hsign, ?_⟩
  · have hmax : (2047 : BitVec 11).toNat = 2047 := rfl
    rw [← h, hexp, hval] at hmax
    omega
  · have hshift : (floatFrac w ++ 0#29).toNat = (floatFrac w).toNat * 2 ^ 29 := by
      rw [BitVec.toNat_append, ← Nat.shiftLeft_add_eq_or_of_lt (BitVec.isLt _), Nat.shiftLeft_eq,
        show (0#29 : BitVec 29).toNat = 0 from rfl, Nat.add_zero]
    obtain ⟨e, he⟩ := Nat.exists_eq_succ_of_ne_zero hpos
    have hunit : floatUnit = 2 ^ (29 + 896) := congrArg (2 ^ ·) (by decide : 925 = 29 + 896)
    rw [doubleMagnitude, floatMagnitude, hexp, hfrac, hval, hshift, he, hunit]
    exact magnitude_widen 23 e (floatFrac w).toNat 29 896

theorem sameNumber_zero {w : Word} (h0 : floatExp w = 0) (hfrac : floatFrac w = 0) :
    SameNumber w (floatSign w ++ 0#11 ++ 0#52) := by
  obtain ⟨hsign, hexp, hfrac'⟩ := double_pack (floatSign w) 0#11 0#52
  refine ⟨by rw [h0]; decide, by rw [hexp]; decide, hsign, ?_⟩
  rw [doubleMagnitude, floatMagnitude, hexp, hfrac', h0, hfrac]
  simp [magnitude]

/-- A denormal number, with its leading digit hidden. -/
theorem sameNumber_denormal {w : Word} (h0 : floatExp w = 0) (hfrac : floatFrac w ≠ 0) :
    ∃ v, SameNumber w v ∧ 874 ≤ (doubleExp v).toNat ∧ (doubleExp v).toNat ≤ 896 := by
  have hne : (floatFrac w).toNat ≠ 0 := fun h => hfrac (BitVec.eq_of_toNat_eq h)
  have hlt := (floatFrac w).isLt
  have hlog : Nat.log 2 (floatFrac w).toNat < 23 := Nat.log_lt_of_lt_pow hne hlt
  have hle := Nat.pow_log_le_self 2 hne
  generalize hn : Nat.log 2 (floatFrac w).toNat = n at hlog hle
  have hrest : ((floatFrac w).toNat - 2 ^ n) * 2 ^ (52 - n) < 2 ^ 52 := by
    have hdigits : (floatFrac w).toNat < 2 ^ (n + 1) := by
      rw [← hn]
      exact Nat.lt_pow_succ_log_self (by decide) _
    calc ((floatFrac w).toNat - 2 ^ n) * 2 ^ (52 - n)
        < 2 ^ n * 2 ^ (52 - n) := by
          refine Nat.mul_lt_mul_of_pos_right ?_ (Nat.two_pow_pos _)
          rw [Nat.pow_succ] at hdigits
          omega
      _ = 2 ^ 52 := by
          rw [← Nat.pow_add]
          congr 1
          omega
  obtain ⟨hsign, hexp, hfrac'⟩ := double_pack (floatSign w) (.ofNat 11 (n + 874))
    (.ofNat 52 (((floatFrac w).toNat - 2 ^ n) * 2 ^ (52 - n)))
  have hval : (BitVec.ofNat 11 (n + 874)).toNat = n + 874 := by
    rw [BitVec.toNat_ofNat]
    omega
  refine ⟨_, ⟨by rw [h0]; decide, fun h => ?_, hsign, ?_⟩, ?_, ?_⟩
  · have hmax : (2047 : BitVec 11).toNat = 2047 := rfl
    rw [← h, hexp, hval] at hmax
    omega
  · have hnormal := magnitude_normalise 23 29 873 hne (by omega)
    have hunit : floatUnit = 2 ^ (23 + 29 + 873) := congrArg (2 ^ ·) (by decide : 925 = 23 + 29 + 873)
    rw [hn, ← hunit] at hnormal
    rw [doubleMagnitude, floatMagnitude, hexp, hfrac', hval, BitVec.toNat_ofNat, Nat.mod_eq_of_lt hrest,
      h0, show (0 : BitVec 8).toNat = 0 from rfl, magnitude_zero]
    exact hnormal
  · rw [hexp, hval]
    omega
  · rw [hexp, hval]
    omega

-- ---------------------------------------------------------------------------
-- There and back
-- ---------------------------------------------------------------------------

theorem fpStore_copy (host : HostConversion) (s : BitVec 1) (e : BitVec 11) (f : BitVec 23)
    (he : e.toNat < 874 ∨ 896 < e.toNat) :
    fpStoreSingleConvert host (s ++ e ++ (f ++ 0#29)) =
      s ++ (e.extractLsb' 10 1 ++ e.extractLsb' 0 7) ++ f := by
  have hexp : (doubleExp (s ++ e ++ (f ++ 0#29))).toNat = e.toNat := by rw [(double_pack s e _).2.1]
  rw [fpStoreSingleConvert, store_exp, hexp, if_pos he, store_bits]

theorem fpStore_convert (host : HostConversion) {w : Word} {v : BitVec 64} (h : SameNumber w v)
    (hlow : 874 ≤ (doubleExp v).toNat) (hhigh : (doubleExp v).toNat ≤ 896) :
    fpStoreSingleConvert host v = w := by
  rw [fpStoreSingleConvert, store_exp, if_neg (by omega)]
  exact (host.toFloat_exact w v h).float_unique h

theorem fpStore_fpLoad (host : HostConversion) {w : Word} (h : ¬ Signalling w) :
    fpStoreSingleConvert host (fpLoadSingleConvert host w) = w := by
  rw [fpLoadSingleConvert]
  by_cases h255 : floatExp w = 255
  · rw [host.toDouble_special w h255 h, fpStore_copy _ _ _ _ (.inr (by decide))]
    conv_rhs => rw [← float_fields w, h255]
    rfl
  · have hsame := host.toDouble_finite w h255
    by_cases h0 : floatExp w = 0
    · by_cases hfrac : floatFrac w = 0
      · have hzero : (0#52 : BitVec 52) = 0#23 ++ 0#29 := rfl
        rw [hsame.double_unique (sameNumber_zero h0 hfrac), hzero, fpStore_copy _ _ _ _ (.inl (by decide))]
        conv_rhs => rw [← float_fields w, h0, hfrac]
        rfl
      · obtain ⟨v, hv, hlow, hhigh⟩ := sameNumber_denormal h0 hfrac
        rw [hsame.double_unique hv]
        exact fpStore_convert host hv hlow hhigh
    · obtain ⟨hval, hback⟩ := exponent_widen (floatExp w) h0 h255
      have hpos : (floatExp w).toNat ≠ 0 := fun h => h0 (BitVec.eq_of_toNat_eq h)
      rw [hsame.double_unique (sameNumber_normal h0 h255), fpStore_copy _ _ _ _ (.inr (by omega)), hback,
        float_fields]

theorem lfs_mem (host : HostConversion) (RA RB : Operand) (up : Bool) (opcode : Word) (s : Cpu) :
    (executeFpLoadstore host RA RB true false up opcode s).mem = s.mem ∧
      (executeFpLoadstore host RA RB true false up opcode s).fpr (frDField opcode) =
        fpLoadSingleConvert host (s.mem.readInt32 (RA s.regs opcode + RB s.regs opcode)) := by
  cases up
  · exact ⟨rfl, Function.update_self ..⟩
  · exact ⟨rfl, Function.update_self ..⟩

theorem stfs_mem (host : HostConversion) (RA RB : Operand) (up : Bool) (opcode : Word) (s : Cpu) :
    (executeFpLoadstore host RA RB false false up opcode s).mem =
      s.mem.writeInt32 (RA s.regs opcode + RB s.regs opcode)
        (fpStoreSingleConvert host (s.fpr (frSField opcode))) := by
  cases up <;> rfl

/-- A word that is not a signalling NaN survives the conversions, and a load and a store through one
register copy it. -/
theorem single_round_trip (host : HostConversion) :
    (∀ w, ¬ Signalling w → fpStoreSingleConvert host (fpLoadSingleConvert host w) = w) ∧
    ∀ (RA RB RA' RB' : Operand) (up up' : Bool) (load store : Word) (s : Cpu),
      frSField store = frDField load →
      ¬ Signalling (s.mem.readInt32 (RA s.regs load + RB s.regs load)) →
      let s' := executeFpLoadstore host RA RB true false up load s
      (executeFpLoadstore host RA' RB' false false up' store s').mem =
        s.mem.writeInt32 (RA' s'.regs store + RB' s'.regs store)
          (s.mem.readInt32 (RA s.regs load + RB s.regs load)) := by
  refine ⟨fun w hw => fpStore_fpLoad host hw, ?_⟩
  intro RA RB RA' RB' up up' load store s hreg hquiet s'
  obtain ⟨hmem, hfpr⟩ := lfs_mem host RA RB up load s
  rw [stfs_mem, hmem, hreg, hfpr, fpStore_fpLoad host hquiet]

-- ---------------------------------------------------------------------------
-- A host
-- ---------------------------------------------------------------------------

/-- Zero and the numbers of single precision, by their magnitudes; a NaN keeps its payload. -/
def ieeeToDouble (w : Word) : BitVec 64 :=
  if floatExp w = 255 then floatSign w ++ 2047#11 ++ (floatFrac w ++ 0#29)
  else
    let p := encode 52 (floatMagnitude w * floatUnit)
    floatSign w ++ BitVec.ofNat 11 p.1 ++ BitVec.ofNat 52 p.2

/-- The magnitude is cut to a multiple of the smallest float. -/
def ieeeToFloat (v : BitVec 64) : Word :=
  let p := encode 23 (doubleMagnitude v / floatUnit)
  doubleSign v ++ BitVec.ofNat 8 p.1 ++ BitVec.ofNat 23 p.2

theorem exists_sameNumber {w : Word} (h255 : floatExp w ≠ 255) : ∃ v, SameNumber w v := by
  by_cases h0 : floatExp w = 0
  · by_cases hfrac : floatFrac w = 0
    · exact ⟨_, sameNumber_zero h0 hfrac⟩
    · obtain ⟨v, hv, -⟩ := sameNumber_denormal h0 hfrac
      exact ⟨v, hv⟩
  · exact ⟨_, sameNumber_normal h0 h255⟩

theorem ieeeToDouble_eq {w : Word} {v : BitVec 64} (h : SameNumber w v) : ieeeToDouble w = v := by
  rw [ieeeToDouble, if_neg h.floatFinite, ← h.magnitude, doubleMagnitude,
    encode_magnitude (doubleFrac v).isLt]
  dsimp only
  rw [BitVec.ofNat_toNat, BitVec.ofNat_toNat, BitVec.setWidth_eq, BitVec.setWidth_eq, ← h.sign,
    double_fields]

theorem ieeeToFloat_eq {w : Word} {v : BitVec 64} (h : SameNumber w v) : ieeeToFloat v = w := by
  rw [ieeeToFloat, h.magnitude, Nat.mul_div_cancel _ floatUnit_pos, floatMagnitude,
    encode_magnitude (floatFrac w).isLt]
  dsimp only
  rw [BitVec.ofNat_toNat, BitVec.ofNat_toNat, BitVec.setWidth_eq, BitVec.setWidth_eq, h.sign,
    float_fields]

def ieeeHost : HostConversion where
  toDouble := ieeeToDouble
  toFloat := ieeeToFloat
  toDouble_finite w h := by
    obtain ⟨v, hv⟩ := exists_sameNumber h
    rwa [ieeeToDouble_eq hv]
  toDouble_special w h _ := if_pos h
  toFloat_exact w v h := by rwa [ieeeToFloat_eq h]

/-- The smallest denormal number and a quiet NaN. -/
theorem single_round_trip_denormal :
    fpStoreSingleConvert ieeeHost (fpLoadSingleConvert ieeeHost 1) = 1 ∧
    fpStoreSingleConvert ieeeHost (fpLoadSingleConvert ieeeHost 0xffc12345) = 0xffc12345 :=
  ⟨(single_round_trip ieeeHost).1 1 (by decide), (single_round_trip ieeeHost).1 0xffc12345 (by decide)⟩

end SheepShear.Kpx
