import SheepShear.Kpx.Interp

/-!
# The integer instructions as exact arithmetic

What the integer instructions are for, without the machinery of either engine:
results are integers taken modulo `2 ^ 32`, CA is the carry out of bit 0, OV is
signed overflow, SO is sticky, and a CR field is an ordering with SO. Bits are
numbered as the PowerPC manuals number them, from the most significant one.
-/

namespace SheepShear.Kpx

-- ---------------------------------------------------------------------------
-- Outcomes
-- ---------------------------------------------------------------------------

/-- A result, with the flags the instruction writes. -/
structure Outcome where
  value : Word
  ca : Option Bool
  ov : Option Bool

def Outcome.plain (value : Word) : Outcome := ⟨value, none, none⟩

/-- Only the flags that the opcode asks for. -/
def Outcome.keep (o : Outcome) (ca oe : Bool) : Outcome :=
  ⟨o.value, if ca then o.ca else none, if oe then o.ov else none⟩

def Xer.after (x : Xer) (o : Outcome) : Xer :=
  { x with
    ca := o.ca.getD x.ca
    ov := o.ov.getD x.ov
    so := x.so || o.ov.getD false }

/-- The bits of a CR field: LT, GT, EQ, SO. -/
def crFieldBit (o : Ordering) (so : Bool) : Nat → Bool
  | 0 => o = .lt
  | 1 => o = .gt
  | 2 => o = .eq
  | _ => so

/-- CR with one field replaced. -/
def crOrdering (cr : Word) (crf : BitVec 3) (o : Ordering) (so : Bool) : Word :=
  BitVec.ofFnBE fun i =>
    if i.val / 4 = crf.toNat then crFieldBit o so (i.val % 4) else cr.getMsbD i

/-- Writes an outcome, with the sign of the result in CR0 when it is recorded. -/
def Outcome.commit (o : Outcome) (dest : BitVec 5) (rc : Bool) (r : Regs) : Regs where
  gpr := Function.update r.gpr dest o.value
  cr := if rc then crOrdering r.cr 0 (compare o.value.toInt 0) (r.xer.after o).so else r.cr
  xer := r.xer.after o

-- ---------------------------------------------------------------------------
-- Arithmetic
-- ---------------------------------------------------------------------------

/-- An integer that a signed register cannot hold. -/
def overflows (v : Int) : Bool := v < -2 ^ 31 ∨ 2 ^ 31 ≤ v

/-- `a + b` and a carry in. -/
def exactAdd (a b : Word) (cin : Bool) : Outcome where
  value := BitVec.ofInt 32 (a.toInt + b.toInt + cin.toInt)
  ca := some (2 ^ 32 ≤ a.toNat + b.toNat + cin.toNat)
  ov := some (overflows (a.toInt + b.toInt + cin.toInt))

/-- `b - a`, less one without a carry in. The carry out says that there was no borrow. -/
def exactSub (a b : Word) (cin : Bool) : Outcome where
  value := BitVec.ofInt 32 (b.toInt - a.toInt - 1 + cin.toInt)
  ca := some (a.toNat + 1 ≤ b.toNat + cin.toNat)
  ov := some (overflows (b.toInt - a.toInt - 1 + cin.toInt))

def exactNeg (a : Word) : Outcome := ⟨BitVec.ofInt 32 (-a.toInt), none, some (overflows (-a.toInt))⟩

def exactMul (a b : Word) : Outcome :=
  ⟨BitVec.ofInt 32 (a.toInt * b.toInt), none, some (overflows (a.toInt * b.toInt))⟩

/-- The quotient toward zero. Without one, OV is set and the result is the sign of `a`. -/
def exactDiv (a b : Word) : Outcome :=
  if b.toInt = 0 ∨ overflows (a.toInt.tdiv b.toInt) then
    ⟨BitVec.ofInt 32 (if a.toInt < 0 then -1 else 0), none, some true⟩
  else
    ⟨BitVec.ofInt 32 (a.toInt.tdiv b.toInt), none, some false⟩

def exactDivUnsigned (a b : Word) : Outcome :=
  if b.toNat = 0 then ⟨0, none, some true⟩
  else ⟨BitVec.ofNat 32 (a.toNat / b.toNat), none, some false⟩

/-- The shift right of a signed register, with CA when it loses bits of a negative one. -/
def exactShiftRight (a : Word) (n : Nat) : Outcome :=
  ⟨BitVec.ofInt 32 (a.toInt / 2 ^ n), some (a.toInt < 0 ∧ a.toInt % 2 ^ n ≠ 0), none⟩

/-- The ones from bit `mb` through bit `me`, around the end when `me` is the smaller. -/
def maskBits (mb me : BitVec 5) : Word :=
  BitVec.ofFnBE fun i =>
    if mb.toNat ≤ me.toNat then mb.toNat ≤ i.val ∧ i.val ≤ me.toNat
    else mb.toNat ≤ i.val ∨ i.val ≤ me.toNat

/-- CR with bit `d` the operation of bits `a` and `b`. -/
def crCombine (op : Bool → Bool → Bool) (cr : Word) (d a b : BitVec 5) : Word :=
  BitVec.ofFnBE fun i =>
    if i.val = d.toNat then op (cr.getMsbD a.toNat) (cr.getMsbD b.toNat) else cr.getMsbD i

-- ---------------------------------------------------------------------------
-- Instructions
-- ---------------------------------------------------------------------------

section

variable (opcode : Word) (r : Regs)

/-- Register A, or zero for register 0. -/
def regAOrZero : Word := if rAField opcode = 0 then 0 else r.gpr (rAField opcode)

def signedImm : Word := BitVec.ofInt 32 (immField opcode).toInt

def unsignedImm : Word := BitVec.ofNat 32 (immField opcode).toNat

def signedImmHigh : Word := BitVec.ofInt 32 ((immField opcode).toInt * 2 ^ 16)

def unsignedImmHigh : Word := BitVec.ofNat 32 ((immField opcode).toNat * 2 ^ 16)

/-- An XO-form instruction, which asks for OV and CR0 in its opcode. -/
def xoForm (ca : Bool) (o : Outcome) : Regs :=
  (o.keep ca (oeField opcode)).commit (rDField opcode) (rcField opcode) r

/-- An X- or M-form instruction, with its result in register A. -/
def xForm (o : Outcome) : Regs := o.commit (rAField opcode) (rcField opcode) r

/-- A D-form instruction with its result in register D. -/
def dForm (ca rc : Bool) (o : Outcome) : Regs := (o.keep ca false).commit (rDField opcode) rc r

end

/-- Every integer instruction on every register file. -/
def IntInsn.exact (insn : IntInsn) (opcode : Word) (r : Regs) : Regs :=
  let a := r.gpr (rAField opcode)
  let b := r.gpr (rBField opcode)
  let s := r.gpr (rSField opcode)
  let sh := (shField opcode).toNat
  let mask := maskBits (mbField opcode) (meField opcode)
  let compareTo (o : Ordering) : Regs :=
    { r with cr := crOrdering r.cr (crfDField opcode) o r.xer.so }
  let crBit (op : Bool → Bool → Bool) : Regs :=
    { r with cr := crCombine op r.cr (crbDField opcode) (crbAField opcode) (crbBField opcode) }
  match insn with
  | .add => xoForm opcode r false (exactAdd a b false)
  | .addc => xoForm opcode r true (exactAdd a b false)
  | .adde => xoForm opcode r true (exactAdd a b r.xer.ca)
  | .addme => xoForm opcode r true (exactAdd a (BitVec.ofInt 32 (-1)) r.xer.ca)
  | .addze => xoForm opcode r true (exactAdd a 0 r.xer.ca)
  | .addi => dForm opcode r false false (exactAdd (regAOrZero opcode r) (signedImm opcode) false)
  | .addis =>
    dForm opcode r false false (exactAdd (regAOrZero opcode r) (signedImmHigh opcode) false)
  | .addic => dForm opcode r true false (exactAdd a (signedImm opcode) false)
  | .addicRecord => dForm opcode r true true (exactAdd a (signedImm opcode) false)
  | .subf => xoForm opcode r false (exactSub a b true)
  | .subfc => xoForm opcode r true (exactSub a b true)
  | .subfe => xoForm opcode r true (exactSub a b r.xer.ca)
  | .subfme => xoForm opcode r true (exactSub a (BitVec.ofInt 32 (-1)) r.xer.ca)
  | .subfze => xoForm opcode r true (exactSub a 0 r.xer.ca)
  | .subfic => dForm opcode r true false (exactSub a (signedImm opcode) true)
  | .neg => xoForm opcode r false (exactNeg a)
  | .mullw => xoForm opcode r false (exactMul a b)
  | .mulhw => (Outcome.plain (BitVec.ofInt 32 (a.toInt * b.toInt / 2 ^ 32))).commit
      (rDField opcode) (rcField opcode) r
  | .mulhwu => (Outcome.plain (BitVec.ofNat 32 (a.toNat * b.toNat / 2 ^ 32))).commit
      (rDField opcode) (rcField opcode) r
  | .mulli => dForm opcode r false false (exactMul a (signedImm opcode))
  | .divw => xoForm opcode r false (exactDiv a b)
  | .divwu => xoForm opcode r false (exactDivUnsigned a b)
  | .and => xForm opcode r (.plain (s &&& b))
  | .andc => xForm opcode r (.plain (s &&& ~~~b))
  | .eqv => xForm opcode r (.plain (~~~(s ^^^ b)))
  | .nand => xForm opcode r (.plain (~~~(s &&& b)))
  | .nor => xForm opcode r (.plain (~~~(s ||| b)))
  | .or => xForm opcode r (.plain (s ||| b))
  | .orc => xForm opcode r (.plain (s ||| ~~~b))
  | .xor => xForm opcode r (.plain (s ^^^ b))
  | .ori => (Outcome.plain (s ||| unsignedImm opcode)).commit (rAField opcode) false r
  | .oris => (Outcome.plain (s ||| unsignedImmHigh opcode)).commit (rAField opcode) false r
  | .xori => (Outcome.plain (s ^^^ unsignedImm opcode)).commit (rAField opcode) false r
  | .xoris => (Outcome.plain (s ^^^ unsignedImmHigh opcode)).commit (rAField opcode) false r
  | .andi => (Outcome.plain (s &&& unsignedImm opcode)).commit (rAField opcode) true r
  | .andis => (Outcome.plain (s &&& unsignedImmHigh opcode)).commit (rAField opcode) true r
  | .extsb => xForm opcode r (.plain (BitVec.ofInt 32 ((s.toNat : Int).bmod (2 ^ 8))))
  | .extsh => xForm opcode r (.plain (BitVec.ofInt 32 ((s.toNat : Int).bmod (2 ^ 16))))
  | .rlwimi => xForm opcode r (.plain (s.rotateLeft sh &&& mask ||| a &&& ~~~mask))
  | .rlwinm => xForm opcode r (.plain (s.rotateLeft sh &&& mask))
  | .rlwnm => xForm opcode r (.plain (s.rotateLeft (b.toNat % 32) &&& mask))
  | .slw => xForm opcode r (.plain (BitVec.ofNat 32 (s.toNat * 2 ^ (b.toNat % 64))))
  | .srw => xForm opcode r (.plain (BitVec.ofNat 32 (s.toNat / 2 ^ (b.toNat % 64))))
  | .sraw => xForm opcode r (exactShiftRight s (b.toNat % 64))
  | .srawi => xForm opcode r (exactShiftRight s sh)
  | .cntlzw => xForm opcode r (.plain (BitVec.ofNat 32 (32 - s.toNat.size)))
  | .cmp => compareTo (compare a.toInt b.toInt)
  | .cmpi => compareTo (compare a.toInt (immField opcode).toInt)
  | .cmpl => compareTo (compare a.toNat b.toNat)
  | .cmpli => compareTo (compare a.toNat (immField opcode).toNat)
  | .crand => crBit fun x y => x && y
  | .crandc => crBit fun x y => x && !y
  | .creqv => crBit fun x y => x == y
  | .crnand => crBit fun x y => !(x && y)
  | .crnor => crBit fun x y => !(x || y)
  | .cror => crBit fun x y => x || y
  | .crorc => crBit fun x y => x || !y
  | .crxor => crBit fun x y => x ^^ y

end SheepShear.Kpx
