import SheepShear.Jit.Codegen

/-!
# When a memory operand is emitted faithfully

The operand that was asked for, as an address over the register file, against
what the emitted bytes decode to. Three requests are neither refused nor
encoded: an absolute address between 2 and 4 GiB below the code, RIP with an
index, and RSP as an index without a base.
-/

namespace SheepShear.Jit

open X86

-- ---------------------------------------------------------------------------
-- Requested operands
-- ---------------------------------------------------------------------------

inductive Base
  | none
  | rip
  | reg (r : BitVec 4)
deriving DecidableEq, Repr

inductive Scale
  | one | two | four | eight
deriving DecidableEq, Repr

def Scale.value : Scale → Nat
  | .one => 1
  | .two => 2
  | .four => 4
  | .eight => 8

/-- The exponent that encodes the scale. -/
def Scale.log : Scale → BitVec 2
  | .one => 0
  | .two => 1
  | .four => 2
  | .eight => 3

structure Operand where
  disp : BitVec 32
  base : Base
  index : Option (BitVec 4)
  scale : Scale
deriving DecidableEq, Repr

def rsp : BitVec 4 := 4

/-- `disp + base + index * scale`. -/
def Operand.address (op : Operand) (gpr : BitVec 4 → BitVec 64) (next : BitVec 64) : BitVec 64 :=
  let base := match op.base with
    | .none => 0
    | .rip => next
    | .reg r => gpr r
  let index := match op.index with
    | none => 0
    | some i => gpr i * BitVec.ofNat 64 op.scale.value
  op.disp.signExtend 64 + base + index

def regCode (r : BitVec 4) : CInt := r.setWidth 32

def Base.code : Base → CInt
  | .none => x86NOREG
  | .rip => x86RIP
  | .reg r => regCode r

def indexCode : Option (BitVec 4) → CInt
  | none => x86NOREG
  | some i => regCode i

/-- The prefix for a 64-bit operation (`_REXQmr`) or a 32-bit one (`_REXLmr`). -/
def rexMr (quad : Bool) (mb mi rd : CInt) : Emit :=
  if quad then rexQmr mb mi rd else rexLmr mb mi rd

/-- Prefix and operand bytes read by the rules of the instruction set: whether
the operation is 64 bits wide, the register and the operand. -/
def decode (prefixBytes operandBytes : List Byte) : Option (Rex × BitVec 4 × MemOperand) :=
  match Rex.parse prefixBytes, MemOperand.parse operandBytes with
  | (rex, []), some (reg, op, []) => some (rex, BitVec.ofBool rex.r ++ reg, op)
  | _, _ => none

/-- The operand is refused, or what is emitted decodes to the same operation
width, register and address. The prefix goes to `rexAt` and the operand, with
`o` bytes of immediate behind it, to `target`. -/
def Faithful (quad : Bool) (reg : BitVec 4) (op : Operand) (rexAt target o : BitVec 64) : Prop :=
  ∀ prefixBytes operandBytes,
    rexMr quad op.base.code (indexCode op.index) (regCode reg) rexAt = .ok prefixBytes →
    r_X (regCode reg) (op.disp.signExtend 64) op.base.code (indexCode op.index) op.scale.value o
      target = .ok operandBytes →
    ∃ rex decoded, decode prefixBytes operandBytes = some (rex, reg, decoded) ∧ rex.w = quad ∧
      ∀ gpr, let next := target + BitVec.ofNat 64 operandBytes.length + o
        decoded.address rex gpr next = op.address gpr next

/-- The requests that go wrong. -/
def Operand.Misencoded (op : Operand) (target o : BitVec 64) : Prop :=
  match op.base, op.index with
  | .none, none =>
    2 ^ 31 ≤ (target + 4 + o - op.disp.signExtend 64).toNat ∧
      (target + 4 + o - op.disp.signExtend 64).toNat < 2 ^ 32
  | .none, some i => i = rsp
  | .rip, some i => i ≠ rsp
  | _, _ => False

-- ---------------------------------------------------------------------------
-- Register numbers
-- ---------------------------------------------------------------------------

def low (r : BitVec 4) : BitVec 3 := r.extractLsb' 0 3

theorem regCode_facts (r : BitVec 4) :
    ¬ r0P (regCode r) ∧ ¬ rIP (regCode r) ∧ rN (regCode r) = (low r).setWidth 32 ∧
      rXP (regCode r) = r.msb ∧ (rspP (regCode r) ↔ r = rsp) ∧
      (rbp13P (regCode r) ↔ low r = 5) ∧ (rsp12P (regCode r) ↔ low r = 4) := by
  revert r
  decide

theorem r0P_noreg : r0P x86NOREG := rfl

theorem rIP_rip : rIP x86RIP ∧ ¬ r0P x86RIP := ⟨rfl, by decide⟩

theorem msb_append_low (r : BitVec 4) : BitVec.ofBool r.msb ++ low r = r := by
  revert r
  decide

-- ---------------------------------------------------------------------------
-- Displacements
-- ---------------------------------------------------------------------------

theorem setWidth_signExtend (d : BitVec 32) : (d.signExtend 64).setWidth 32 = d := by
  apply BitVec.eq_of_getLsbD_eq
  intro i hi
  rw [BitVec.getLsbD_setWidth, BitVec.getLsbD_signExtend]
  simp only [hi, show i < 64 by omega, decide_true, Bool.true_and, if_true]

theorem signExtend_eq_zero (d : BitVec 32) : d.signExtend 64 = 0 ↔ d = 0 := by
  constructor
  · intro h
    rw [← setWidth_signExtend d, h]
    rfl
  · rintro rfl
    rfl

/-- A value that passes the test is the sign extension of its low byte. -/
theorem s8P_value {d : BitVec 32} (h : s8P d) : (d.setWidth 8).signExtend 64 = d.signExtend 64 := by
  have hbit : ∀ i, 8 ≤ i → i < 32 → d.getLsbD i = d.getLsbD (i - 1) := by
    intro i hi hlt
    have hmask : (0xff#32).getLsbD i = false := by
      rw [show 0xff#32 = BitVec.ofNat 32 (2 ^ 8 - 1) by decide, BitVec.getLsbD_ofNat,
        Nat.testBit_two_pow_sub_one]
      simp [show ¬ i < 8 by omega]
    have hzero : ((d ^^^ (d <<< 1)) &&& ~~~0xff#32).getLsbD i = false := by
      rw [show (d ^^^ (d <<< 1)) &&& ~~~0xff#32 = 0#32 from h, BitVec.getLsbD_zero]
    rw [BitVec.getLsbD_and, BitVec.getLsbD_xor, BitVec.getLsbD_not, hmask,
      BitVec.getLsbD_shiftLeft] at hzero
    simp only [hlt, show ¬ i < 1 by omega, decide_true, decide_false, Bool.not_false,
      Bool.true_and, Bool.and_true] at hzero
    exact bne_eq_false_iff_eq.mp hzero
  have hsign : ∀ i, 7 ≤ i → i < 32 → d.getLsbD i = d.getLsbD 7 := by
    intro i hi
    induction i, hi using Nat.le_induction with
    | base => intro _; rfl
    | succ i hi ih =>
      intro hlt
      rw [hbit (i + 1) (by omega) hlt]
      exact ih (by omega)
  apply BitVec.eq_of_getLsbD_eq
  intro i hi
  rw [BitVec.getLsbD_signExtend, BitVec.getLsbD_signExtend, BitVec.msb_eq_getLsbD_last,
    BitVec.msb_eq_getLsbD_last, BitVec.getLsbD_setWidth, BitVec.getLsbD_setWidth]
  by_cases h8 : i < 8
  · simp only [h8, show i < 32 by omega, if_true, decide_true, Bool.true_and]
  · by_cases h32 : i < 32
    · simp only [h8, h32, if_true, if_false, Nat.reduceSub, Nat.reduceLT, decide_true,
        Bool.true_and, hsign i (by omega) h32]
    · simp only [h8, h32, if_false, Nat.reduceSub, Nat.reduceLT, decide_true, Bool.true_and,
        hsign 31 (by omega) (by omega)]

/-- The `mod` field and the displacement bytes that `_r_DB` and `_r_DBIS`
choose for the base field `b`. -/
def dispForm (b : BitVec 3) (d : BitVec 32) : BitVec 2 × List Byte :=
  if d = 0 ∧ b ≠ 5 then (0, [])
  else if s8P d then (1, [d.setWidth 8])
  else (2, longBytes d)

theorem dispForm_mod (b : BitVec 3) (d : BitVec 32) :
    (dispForm b d).1 ≠ 3 ∧ ((dispForm b d).1 = 0 → b ≠ 5) := by
  unfold dispForm
  split
  next h => exact ⟨by simp, fun _ => h.2⟩
  next => split <;> simp

theorem dispForm_length {b : BitVec 3} {d : BitVec 32} {rm : BitVec 3} {sib : Option Sib}
    (h : b ≠ 5 → ¬ (rm = 5 ∨ sib.map Sib.base = some 5)) :
    (dispForm b d).2.length = dispLength (dispForm b d).1 rm sib := by
  unfold dispForm dispLength
  split
  next hd => rw [if_pos rfl, if_neg (h hd.2)]; rfl
  next =>
    split
    · rfl
    · rfl

/-- `[b]` with a displacement; the base field names no SIB byte. -/
def opB (b : BitVec 3) (d : BitVec 32) (hb : b ≠ 4) : MemOperand where
  mod := (dispForm b d).1
  rm := b
  sib := none
  disp := (dispForm b d).2
  mod_ne := (dispForm_mod b d).1
  sib_iff := by simpa using hb
  disp_length := dispForm_length (by simp)

/-- `[b + i * s]` with a displacement. -/
def opBIS (sib : Sib) (d : BitVec 32) : MemOperand where
  mod := (dispForm sib.base d).1
  rm := 4
  sib := some sib
  disp := (dispForm sib.base d).2
  mod_ne := (dispForm_mod sib.base d).1
  sib_iff := by simp
  disp_length := dispForm_length (by simp)

/-- `[i * s]` with a long displacement. -/
def opIS (scale : BitVec 2) (i : BitVec 3) (d : BitVec 32) : MemOperand where
  mod := 0
  rm := 4
  sib := some ⟨scale, i, 5⟩
  disp := longBytes d
  mod_ne := by decide
  sib_iff := by simp
  disp_length := rfl

/-- `[rip]` with a long displacement. -/
def opRip (d : BitVec 32) : MemOperand where
  mod := 0
  rm := 5
  sib := none
  disp := longBytes d
  mod_ne := by decide
  sib_iff := by decide
  disp_length := rfl

theorem opRip_length (d : BitVec 32) (reg : BitVec 3) :
    BitVec.ofNat 64 ((opRip d).bytes reg).length = 5 :=
  rfl

theorem dispValue_long {op : MemOperand} {d : BitVec 32} (h : op.disp = longBytes d) :
    op.dispValue = d.signExtend 64 := by
  simp only [MemOperand.dispValue, h, longBytes]
  rw [show _ ++ _ ++ _ ++ _ = d from Word.ofBytes_bytes d]

theorem dispValue_form {op : MemOperand} {b : BitVec 3} {d : BitVec 32}
    (h : op.disp = (dispForm b d).2) : op.dispValue = d.signExtend 64 := by
  unfold dispForm at h
  split at h
  next hd =>
    rw [MemOperand.dispValue, h, hd.1]
    rfl
  next =>
    split at h
    next h8 =>
      rw [MemOperand.dispValue, h]
      exact s8P_value h8
    next => exact dispValue_long h

-- ---------------------------------------------------------------------------
-- Emitted bytes
-- ---------------------------------------------------------------------------

theorem comma_ok (xs ys : List Byte) :
    Emit.comma (fun _ => .ok xs) (fun _ => .ok ys) = fun _ => .ok (xs ++ ys) :=
  rfl

theorem mrm_eq (md : BitVec 2) (r m : BitVec 3) :
    mrm (md.setWidth 32) (r.setWidth 32) (m.setWidth 32) = fun _ => .ok [modrm md r m] := by
  have h : ∀ (md : BitVec 2) (r m : BitVec 3), ((md.setWidth 32 <<< 6) ||| (r.setWidth 32 <<< 3) |||
      m.setWidth 32 : BitVec 32).setWidth 8 = modrm md r m := by decide +kernel
  funext _
  rw [mrm, emitByte, h]

theorem sibScl_eq (s : Scale) (i b : BitVec 3) :
    sibScl s.value (i.setWidth 32) (b.setWidth 32) = fun _ => .ok [Sib.byte ⟨s.log, i, b⟩] := by
  funext target
  have h := congrFun (mrm_eq s.log i b) target
  cases s <;> exact h

section Forms

variable (r : BitVec 4) (d : BitVec 32)

theorem r_DB_eq {b : BitVec 4} (hb : low b ≠ 4) :
    r_DB (regCode r) (d.signExtend 64) (regCode b) =
      fun _ => .ok ((opB (low b) d hb).bytes (low r)) := by
  obtain ⟨-, -, hr, -⟩ := regCode_facts r
  obtain ⟨-, -, hN, -, -, h13, -⟩ := regCode_facts b
  have hmrm (md : BitVec 2) := mrm_eq md (low r) (low b)
  simp only [r_DB, r_0B, r_1B, r_4B, signExtend_eq_zero, setWidth_signExtend, hr, hN, h13,
    MemOperand.bytes, opB, dispForm]
  split
  · exact hmrm 0
  · split
    · exact congrArg (Emit.comma · _) (hmrm 1)
    · exact congrArg (Emit.comma · _) (hmrm 2)

theorem r_DBIS_eq (b i : BitVec 4) (s : Scale) :
    r_DBIS (regCode r) (d.signExtend 64) (regCode b) (regCode i) s.value =
      fun _ => .ok ((opBIS ⟨s.log, low i, low b⟩ d).bytes (low r)) := by
  obtain ⟨-, -, hr, -⟩ := regCode_facts r
  obtain ⟨-, -, hi, -⟩ := regCode_facts i
  obtain ⟨-, -, hb, -, -, h13, -⟩ := regCode_facts b
  have hmrm (md : BitVec 2) := mrm_eq md (low r) 4
  have hsib := sibScl_eq s (low i) (low b)
  simp only [r_DBIS, r_0BIS, r_1BIS, r_4BIS, signExtend_eq_zero, setWidth_signExtend, hr, hi, hb,
    h13, hsib, MemOperand.bytes, opBIS, dispForm]
  split
  · exact congrArg (Emit.comma · _) (hmrm 0)
  · split
    · exact congrArg (Emit.comma · _) (hmrm 1)
    · exact congrArg (Emit.comma · _) (hmrm 2)

theorem r_4IS_eq (i : BitVec 4) (s : Scale) :
    r_4IS (regCode r) (d.signExtend 64) (regCode i) s.value =
      fun _ => .ok ((opIS s.log (low i) d).bytes (low r)) := by
  obtain ⟨-, -, hr, -⟩ := regCode_facts r
  obtain ⟨-, -, hi, -⟩ := regCode_facts i
  have hsib : sibScl s.value _ 5 = _ := sibScl_eq s (low i) 5
  simp only [r_4IS, setWidth_signExtend, hr, hi, hsib]
  exact congrArg (Emit.comma · _) (mrm_eq 0 (low r) 4)

theorem r_DSIB_eq :
    r_DSIB (regCode r) (d.signExtend 64) = fun _ => .ok ((opIS 0 4 d).bytes (low r)) := by
  obtain ⟨-, -, hr, -⟩ := regCode_facts r
  have hsib : sibScl 1 4 5 = _ := sibScl_eq .one 4 5
  simp only [r_DSIB, setWidth_signExtend, hr, hsib]
  exact congrArg (Emit.comma · _) (mrm_eq 0 (low r) 4)

/-- The displacement is taken behind the ModR/M byte. -/
theorem r_D_eq (disp : BitVec 64 → BitVec 64) (target : BitVec 64) :
    r_D (regCode r) disp target =
      .ok ((opRip ((disp (target + 1)).setWidth 32)).bytes (low r)) := by
  obtain ⟨-, -, hr, -⟩ := regCode_facts r
  have hmrm : mrm 0 _ 5 = _ := mrm_eq 0 (low r) 5
  rw [r_D, hr, hmrm]
  rfl

variable (o target : BitVec 64)

theorem r_X_near (h : x86RIPAddressingPossible target (d.signExtend 64) o) (s : Nat) :
    r_X (regCode r) (d.signExtend 64) x86NOREG x86NOREG s o target =
      .ok ((opRip ((-(target + 4 + o - d.signExtend 64 + 1)).setWidth 32)).bytes (low r)) := by
  have hdisp : d.signExtend 64 - (target + 1 + 4 + o) =
      -(target + 4 + o - d.signExtend 64 + 1) := by ring
  rw [r_X, if_pos r0P_noreg, if_pos r0P_noreg, if_pos h, r_D_eq, hdisp]

theorem r_X_far (h : ¬ x86RIPAddressingPossible target (d.signExtend 64) o) (s : Nat) :
    r_X (regCode r) (d.signExtend 64) x86NOREG x86NOREG s o target =
      .ok ((opIS Scale.one.log (low rsp) d).bytes (low r)) := by
  rw [r_X, if_pos r0P_noreg, if_pos r0P_noreg, if_neg h, r_DSIB_eq]
  rfl

theorem r_X_rip (s : Nat) :
    r_X (regCode r) (d.signExtend 64) x86RIP x86NOREG s o target =
      .ok ((opRip d).bytes (low r)) := by
  rw [r_X, if_pos r0P_noreg, if_neg rIP_rip.2, if_pos rIP_rip.1, r_D_eq, setWidth_signExtend]

theorem r_X_base_rsp {b : BitVec 4} (h : low b = 4) (s : Nat) :
    r_X (regCode r) (d.signExtend 64) (regCode b) x86NOREG s o target =
      .ok ((opBIS ⟨Scale.one.log, low rsp, low b⟩ d).bytes (low r)) := by
  obtain ⟨h0, hrip, -, -, -, -, h12⟩ := regCode_facts b
  have hform := congrFun (r_DBIS_eq r d rsp rsp .one) target
  rw [r_X, if_pos r0P_noreg, if_neg h0, if_neg hrip, if_pos (h12.mpr h), h]
  exact hform

theorem r_X_base {b : BitVec 4} (h : low b ≠ 4) (s : Nat) :
    r_X (regCode r) (d.signExtend 64) (regCode b) x86NOREG s o target =
      .ok ((opB (low b) d h).bytes (low r)) := by
  obtain ⟨h0, hrip, -, -, -, -, h12⟩ := regCode_facts b
  rw [r_X, if_pos r0P_noreg, if_neg h0, if_neg hrip, if_neg (fun h' => h (h12.mp h')), r_DB_eq r d h]

theorem r_X_index (i : BitVec 4) (s : Scale) :
    r_X (regCode r) (d.signExtend 64) x86NOREG (regCode i) s.value o target =
      .ok ((opIS s.log (low i) d).bytes (low r)) := by
  rw [r_X, if_neg (regCode_facts i).1, if_pos r0P_noreg, r_4IS_eq]

theorem r_X_base_index {i : BitVec 4} (h : i ≠ rsp) (b : BitVec 4) (s : Scale) :
    r_X (regCode r) (d.signExtend 64) (regCode b) (regCode i) s.value o target =
      .ok ((opBIS ⟨s.log, low i, low b⟩ d).bytes (low r)) := by
  obtain ⟨hi0, -, -, -, hirsp, -⟩ := regCode_facts i
  rw [r_X, if_neg hi0, if_neg (regCode_facts b).1, if_pos (fun h' => h (hirsp.mp h')), r_DBIS_eq]

/-- The low bits of `X86_RIP` are those of RSI. -/
theorem r_X_rip_index {i : BitVec 4} (h : i ≠ rsp) (s : Scale) :
    r_X (regCode r) (d.signExtend 64) x86RIP (regCode i) s.value o target =
      .ok ((opBIS ⟨s.log, low i, 6⟩ d).bytes (low r)) := by
  obtain ⟨hi0, -, -, -, hirsp, -⟩ := regCode_facts i
  have hform := congrFun (r_DBIS_eq r d 6 i s) target
  rw [r_X, if_neg hi0, if_neg rIP_rip.2, if_pos (fun h' => h (hirsp.mp h'))]
  exact hform

theorem r_X_error {b : CInt} (hb : ¬ r0P b) (s : Nat) :
    r_X (regCode r) (d.signExtend 64) b (regCode rsp) s o target =
      .error "illegal index register: %esp" := by
  obtain ⟨h0, -, -, -, hrsp, -⟩ := regCode_facts rsp
  rw [r_X, if_neg h0, if_neg hb, if_neg (not_not.mpr (hrsp.mpr rfl))]
  rfl

end Forms

/-- The prefix of an operation, as it is read back. -/
def rexOf (quad : Bool) (r : BitVec 4) (op : Operand) : Rex :=
  ⟨quad, r.msb, rXP (indexCode op.index), rXP op.base.code⟩

/-- The prefix holds the upper bit of each register number. -/
theorem rexMr_ok (quad : Bool) (r : BitVec 4) (op : Operand) (rexAt : BitVec 64) :
    ∃ bytes, rexMr quad op.base.code (indexCode op.index) (regCode r) rexAt = .ok bytes ∧
      Rex.parse bytes = (rexOf quad r op, []) := by
  have hbase : (if rIP op.base.code then false else rXP op.base.code) = rXP op.base.code := by
    cases op.base with
    | none => rfl
    | rip => rfl
    | reg b => exact if_neg (regCode_facts b).2.1
  have hmr : rexMr quad op.base.code (indexCode op.index) (regCode r) =
      rexwrxb false (bit quad) (bit (rXP (regCode r))) (bit (rXP (indexCode op.index)))
        (bit (rXP op.base.code)) := by
    cases quad <;> simp only [rexMr, rexQmr, rexLmr, rexw_x_, rexwrx_, hbase] <;> rfl
  rw [hmr, (regCode_facts r).2.2.2.1, rexOf]
  cases quad <;> cases r.msb <;> cases rXP (indexCode op.index) <;> cases rXP op.base.code <;>
    exact ⟨_, rfl, rfl⟩

theorem decode_bytes {prefixBytes : List Byte} {rex : Rex}
    (h : Rex.parse prefixBytes = (rex, [])) (op : MemOperand) (reg : BitVec 3) :
    decode prefixBytes (op.bytes reg) = some (rex, BitVec.ofBool rex.r ++ reg, op) := by
  have hparse := MemOperand.parse_bytes op reg []
  rw [List.append_nil] at hparse
  rw [decode, h, hparse]

-- ---------------------------------------------------------------------------
-- Addresses
-- ---------------------------------------------------------------------------

section Addresses

variable (rex : Rex) (gpr : BitVec 4 → BitVec 64) (next : BitVec 64) (d : BitVec 32)

theorem scale_shift (v : BitVec 64) (s : Scale) :
    v <<< s.log.toNat = v * BitVec.ofNat 64 s.value := by
  rw [BitVec.shiftLeft_eq_mul_twoPow]
  cases s <;> rfl

theorem opB_address {b : BitVec 3} (hb : b ≠ 4) :
    (opB b d hb).address rex gpr next =
      gpr (BitVec.ofBool rex.b ++ b) + 0 + d.signExtend 64 := by
  have hne : ¬ ((opB b d hb).mod = 0 ∧ (opB b d hb).rm = 5) :=
    fun h => (dispForm_mod b d).2 h.1 h.2
  rw [MemOperand.address, dispValue_form rfl]
  simp only [MemOperand.baseValue, MemOperand.indexValue, if_neg hne]
  rfl

theorem opBIS_address (scale : BitVec 2) (i b : BitVec 3) :
    (opBIS ⟨scale, i, b⟩ d).address rex gpr next =
      gpr (BitVec.ofBool rex.b ++ b) + (opBIS ⟨scale, i, b⟩ d).indexValue rex gpr +
        d.signExtend 64 := by
  have hne : ¬ ((opBIS ⟨scale, i, b⟩ d).mod = 0 ∧ b = 5) :=
    fun h => (dispForm_mod b d).2 h.1 h.2
  rw [MemOperand.address, dispValue_form rfl]
  congr 2
  exact if_neg hne

theorem opIS_address (scale : BitVec 2) (i : BitVec 3) :
    (opIS scale i d).address rex gpr next =
      (opIS scale i d).indexValue rex gpr + d.signExtend 64 := by
  rw [MemOperand.address, dispValue_long rfl]
  congr 1
  exact BitVec.zero_add _

theorem opRip_address : (opRip d).address rex gpr next = next + 0 + d.signExtend 64 := by
  rw [MemOperand.address, dispValue_long rfl]
  rfl

/-- The index field as it is read back: RSP is no index. -/
theorem indexValue_eq {op : MemOperand} {s : Scale} {i : BitVec 4} {b : BitVec 3}
    (h : op.sib = some ⟨s.log, low i, b⟩) (hx : rex.x = i.msb) :
    op.indexValue rex gpr = if i = rsp then 0 else gpr i * BitVec.ofNat 64 s.value := by
  have hrsp : ∀ i : BitVec 4, (i.msb = false ∧ low i = 4) ↔ i = rsp := by decide
  simp only [MemOperand.indexValue, h, hx, hrsp, msb_append_low, scale_shift]

end Addresses

-- ---------------------------------------------------------------------------
-- Faithfulness
-- ---------------------------------------------------------------------------

section Faithfulness

variable {quad : Bool} {reg : BitVec 4} {op : Operand} {rexAt target o : BitVec 64}

theorem faithful_of_error {msg : String}
    (h : r_X (regCode reg) (op.disp.signExtend 64) op.base.code (indexCode op.index)
      op.scale.value o target = .error msg) : Faithful quad reg op rexAt target o := by
  intro prefixBytes operandBytes _ hoperand
  rw [h] at hoperand
  cases hoperand

/-- Once the emitted operand is known, only the addresses are left to compare. -/
theorem faithful_iff {decoded : MemOperand}
    (h : r_X (regCode reg) (op.disp.signExtend 64) op.base.code (indexCode op.index)
      op.scale.value o target = .ok (decoded.bytes (low reg))) :
    Faithful quad reg op rexAt target o ↔
      ∀ gpr, decoded.address (rexOf quad reg op) gpr
          (target + BitVec.ofNat 64 (decoded.bytes (low reg)).length + o) =
        op.address gpr (target + BitVec.ofNat 64 (decoded.bytes (low reg)).length + o) := by
  obtain ⟨prefixBytes, hpre, hparse⟩ := rexMr_ok quad reg op rexAt
  have hdecode : decode prefixBytes (decoded.bytes (low reg)) =
      some (rexOf quad reg op, reg, decoded) := by
    rw [decode_bytes hparse, rexOf, msb_append_low]
  constructor
  · intro hfaithful gpr
    obtain ⟨rex, decoded', hdec, -, haddr⟩ := hfaithful _ _ hpre h
    cases hdecode.symm.trans hdec
    exact haddr gpr
  · intro haddr prefixBytes' operandBytes hpre' hoperand
    obtain rfl := Except.ok.inj (hpre.symm.trans hpre')
    obtain rfl := Except.ok.inj (h.symm.trans hoperand)
    exact ⟨_, decoded, hdecode, rfl, haddr⟩

/-- A 32-bit value at most `2 ^ 32` below is reached by a signed displacement
only when it is at most `2 ^ 31` below. -/
theorem reach_iff (x : BitVec 64) (hx : x.toNat < 2 ^ 32) :
    ((-(x + 1)).setWidth 32).signExtend 64 = -(x + 1) ↔ x.toNat < 2 ^ 31 := by
  have hneg : (-(x + 1)).toNat = 2 ^ 64 - 1 - x.toNat := by bv_omega
  have hlow : ((-(x + 1)).setWidth 32).toNat = 2 ^ 32 - 1 - x.toNat := by
    rw [BitVec.toNat_setWidth, hneg]
    omega
  rw [← BitVec.toNat_inj, BitVec.toNat_signExtend, BitVec.toNat_setWidth, BitVec.msb_eq_decide,
    hlow, hneg]
  by_cases hx : x.toNat < 2 ^ 31
  · rw [if_pos (by simp; omega)]
    omega
  · rw [if_neg (by simp; omega)]
    omega

theorem faithful_absolute {d : BitVec 32} {s : Scale} :
    Faithful quad reg ⟨d, .none, none, s⟩ rexAt target o ↔
      ¬ (2 ^ 31 ≤ (target + 4 + o - d.signExtend 64).toNat ∧
        (target + 4 + o - d.signExtend 64).toNat < 2 ^ 32) := by
  by_cases hnear : x86RIPAddressingPossible target (d.signExtend 64) o
  · have hlt : (target + 4 + o - d.signExtend 64).toNat < 2 ^ 32 :=
      Nat.lt_succ_of_le (BitVec.le_def.mp hnear)
    rw [faithful_iff (r_X_near reg d o target hnear _)]
    have hnext : d.signExtend 64 = target + 5 + o - (target + 4 + o - d.signExtend 64 + 1) := by
      ring
    constructor
    · intro h
      have h0 := h fun _ => 0
      rw [opRip_length, opRip_address, Operand.address] at h0
      have hreach := (reach_iff _ hlt).mp (by linear_combination h0 + hnext)
      omega
    · intro h gpr
      have hreach := (reach_iff _ hlt).mpr (by omega)
      rw [opRip_length, opRip_address, Operand.address, hreach]
      linear_combination -hnext
  · have hge : ¬ (target + 4 + o - d.signExtend 64).toNat < 2 ^ 32 :=
      fun h => hnear (BitVec.le_def.mpr (Nat.le_of_lt_succ h))
    rw [faithful_iff (r_X_far reg d o target hnear _)]
    refine iff_of_true (fun gpr => ?_) (fun h => hge h.2)
    have hindex : (opIS Scale.one.log (low rsp) d).indexValue
        (rexOf quad reg ⟨d, .none, none, s⟩) gpr = 0 := by
      rw [indexValue_eq _ _ rfl rfl, if_pos rfl]
    rw [opIS_address, hindex, Operand.address]
    ring

theorem faithful_rip {d : BitVec 32} {s : Scale} :
    Faithful quad reg ⟨d, .rip, none, s⟩ rexAt target o := by
  rw [faithful_iff (r_X_rip reg d o target _)]
  intro gpr
  rw [opRip_address, Operand.address]
  ring

theorem rexOf_base (d : BitVec 32) (b : BitVec 4) (i : Option (BitVec 4)) (s : Scale) :
    BitVec.ofBool (rexOf quad reg ⟨d, .reg b, i, s⟩).b ++ low b = b := by
  rw [rexOf, Base.code, (regCode_facts b).2.2.2.1, msb_append_low]

theorem faithful_base {d : BitVec 32} {b : BitVec 4} {s : Scale} :
    Faithful quad reg ⟨d, .reg b, none, s⟩ rexAt target o := by
  by_cases h4 : low b = 4
  · rw [faithful_iff (r_X_base_rsp reg d o target h4 _)]
    intro gpr
    rw [opBIS_address, rexOf_base, indexValue_eq _ _ rfl rfl, if_pos rfl, Operand.address]
    ring
  · rw [faithful_iff (r_X_base reg d o target h4 _)]
    intro gpr
    rw [opB_address, rexOf_base, Operand.address]
    ring

theorem faithful_index {d : BitVec 32} {i : BitVec 4} {s : Scale} :
    Faithful quad reg ⟨d, .none, some i, s⟩ rexAt target o ↔ i ≠ rsp := by
  have hx : (rexOf quad reg ⟨d, .none, some i, s⟩).x = i.msb := (regCode_facts i).2.2.2.1
  rw [faithful_iff (r_X_index reg d o target i s)]
  by_cases hi : i = rsp
  · refine ⟨fun h => ?_, fun h => absurd hi h⟩
    have h1 := h fun _ => 1
    rw [opIS_address, indexValue_eq _ _ rfl hx, if_pos hi, Operand.address] at h1
    have hscale : BitVec.ofNat 64 s.value = 0 := by linear_combination -h1
    cases s <;> exact absurd hscale (by decide)
  · refine ⟨fun _ => hi, fun _ gpr => ?_⟩
    rw [opIS_address, indexValue_eq _ _ rfl hx, if_neg hi, Operand.address]
    ring

theorem faithful_rip_index {d : BitVec 32} {i : BitVec 4} {s : Scale} :
    Faithful quad reg ⟨d, .rip, some i, s⟩ rexAt target o ↔ i = rsp := by
  by_cases hi : i = rsp
  · rw [hi]
    exact ⟨fun _ => rfl, fun _ => faithful_of_error (r_X_error reg d o target rIP_rip.2 _)⟩
  · have hx : (rexOf quad reg ⟨d, .rip, some i, s⟩).x = i.msb := (regCode_facts i).2.2.2.1
    rw [faithful_iff (r_X_rip_index reg d o target hi s)]
    refine ⟨fun h => ?_, fun h => absurd h hi⟩
    -- all registers hold one more than the next instruction's address
    have h1 := h fun _ => target +
      BitVec.ofNat 64 ((opBIS ⟨s.log, low i, 6⟩ d).bytes (low reg)).length + o + 1
    rw [opBIS_address, indexValue_eq _ _ rfl hx, if_neg hi, Operand.address] at h1
    have hone : (1 : BitVec 64) = 0 := by linear_combination h1
    exact absurd hone (by decide)

theorem faithful_base_index {d : BitVec 32} {b i : BitVec 4} {s : Scale} :
    Faithful quad reg ⟨d, .reg b, some i, s⟩ rexAt target o := by
  by_cases hi : i = rsp
  · rw [hi]
    exact faithful_of_error (r_X_error reg d o target (regCode_facts b).1 _)
  · have hx : (rexOf quad reg ⟨d, .reg b, some i, s⟩).x = i.msb := (regCode_facts i).2.2.2.1
    rw [faithful_iff (r_X_base_index reg d o target hi b s)]
    intro gpr
    rw [opBIS_address, rexOf_base, indexValue_eq _ _ rfl hx, if_neg hi, Operand.address]
    ring

end Faithfulness

/-- An operand is refused or emitted faithfully unless it is one of the
misencoded requests. -/
theorem operand_faithful_iff (quad : Bool) (reg : BitVec 4) (op : Operand)
    (rexAt target o : BitVec 64) :
    Faithful quad reg op rexAt target o ↔ ¬ op.Misencoded target o := by
  obtain ⟨d, base, index, s⟩ := op
  cases base <;> cases index
  case none.none => exact faithful_absolute
  case none.some i => exact faithful_index
  case rip.none => exact iff_of_true faithful_rip not_false
  case rip.some i => exact faithful_rip_index.trans not_not.symm
  case reg.none b => exact iff_of_true faithful_base not_false
  case reg.some b i => exact iff_of_true faithful_base_index not_false

-- `%r9` with `0(%r13,%r12,8)`: all upper bits, a SIB byte and a displacement of one byte
example : rexQmr (regCode 13) (regCode 12) (regCode 9) 0 = .ok [0x4f] ∧
    r_X (regCode 9) 0 (regCode 13) (regCode 12) 8 0 0 = .ok [0x4c, 0xe5, 0x00] := ⟨rfl, rfl⟩

/-- Address 0, emitted at 3 GiB: the distance is cut to 32 bits. -/
theorem farBelow_unfaithful :
    ¬ Faithful false 0 ⟨0, .none, none, .one⟩ 0xbffffffe 0xc0000000 0 :=
  fun h => faithful_absolute.mp h (by decide)

end SheepShear.Jit
