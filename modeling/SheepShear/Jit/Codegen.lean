import SheepShear.Lib.X86Operand

/-!
# Emitting x86-64 memory operands

The macros of `codegen_x86.h` that emit a REX prefix and a memory operand, with
`X86_TARGET_64BIT` set and the registers numbered from 0 to 15
(`X86_FLAT_REGISTERS` clear), as the code generator for amd64 uses them.
-/

namespace SheepShear.Jit

/-- A C `int`. -/
abbrev CInt := BitVec 32

-- ---------------------------------------------------------------------------
-- Emitting
-- ---------------------------------------------------------------------------

/-- Code emitted at the current target: its bytes, or the message the emission
failed with. -/
abbrev Emit := BitVec 64 → Except String (List Byte)

def emitByte (b : CInt) : Emit := fun _ => .ok [b.setWidth 8]

/-- The four bytes of a long as they lie in memory. -/
def longBytes (l : CInt) : List Byte :=
  [l.extractLsb' 0 8, l.extractLsb' 8 8, l.extractLsb' 16 8, l.extractLsb' 24 8]

def emitLong (l : CInt) : Emit := fun _ => .ok (longBytes l)

def emitFailure (msg : String) : Emit := fun _ => .error msg

/-- The comma operator: the target has moved on when the second part runs. -/
def Emit.comma (first second : Emit) : Emit := fun target => do
  let bytes ← first target
  let rest ← second (target + BitVec.ofNat 64 bytes.length)
  return bytes ++ rest

-- ---------------------------------------------------------------------------
-- Registers
-- ---------------------------------------------------------------------------

def x86RIP : CInt := -2
def x86NOREG : CInt := -1
def x86RSP : CInt := 4
def x86RBP : CInt := 5

def r0P (r : CInt) : Prop := r = x86NOREG
def rIP (r : CInt) : Prop := r = x86RIP
def rN (r : CInt) : CInt := r &&& 0x07
def rXP (r : CInt) : Bool := BitVec.slt 7 r && BitVec.slt r 16
def rspP (r : CInt) : Prop := r = x86RSP
def rbp13P (r : CInt) : Prop := rN r = rN x86RBP
def rsp12P (r : CInt) : Prop := rN r = rN x86RSP

instance (r : CInt) : Decidable (r0P r) := inferInstanceAs (Decidable (_ = _))
instance (r : CInt) : Decidable (rIP r) := inferInstanceAs (Decidable (_ = _))
instance (r : CInt) : Decidable (rspP r) := inferInstanceAs (Decidable (_ = _))
instance (r : CInt) : Decidable (rbp13P r) := inferInstanceAs (Decidable (_ = _))
instance (r : CInt) : Decidable (rsp12P r) := inferInstanceAs (Decidable (_ = _))

-- ---------------------------------------------------------------------------
-- Displacements
-- ---------------------------------------------------------------------------

/-- `_siP(8, I)`: the value fits a signed byte. -/
def s8P (i : CInt) : Prop := (i ^^^ (i <<< 1)) &&& ~~~0xff = 0

instance (i : CInt) : Decidable (s8P i) := inferInstanceAs (Decidable (_ = _))

-- ---------------------------------------------------------------------------
-- Memory subformats
-- ---------------------------------------------------------------------------

def mrm (md r m : CInt) : Emit := emitByte ((md <<< 6) ||| (r <<< 3) ||| m)

def sib (sc i b : CInt) : Emit := emitByte ((sc <<< 6) ||| (i <<< 3) ||| b)

def scl (s : Nat) : Except String CInt :=
  if s = 1 then .ok 0
  else if s = 2 then .ok 1
  else if s = 4 then .ok 2
  else if s = 8 then .ok 3
  else .error "illegal scale"

/-- `_SIB(_SCL(S), I, B)` -/
def sibScl (s : Nat) (i b : CInt) : Emit := fun target => do sib (← scl s) i b target

/-- The displacement is an expression that may read the target, at the point
where it is emitted. -/
def r_D (r : CInt) (d : BitVec 64 → BitVec 64) : Emit :=
  (mrm 0 (rN r) 5).comma fun target => emitLong ((d target).setWidth 32) target

def r_DSIB (r : CInt) (d : BitVec 64) : Emit :=
  (mrm 0 (rN r) 4).comma ((sibScl 1 4 5).comma (emitLong (d.setWidth 32)))

def r_0B (r b : CInt) : Emit := mrm 0 (rN r) (rN b)

def r_0BIS (r b i : CInt) (s : Nat) : Emit := (mrm 0 (rN r) 4).comma (sibScl s (rN i) (rN b))

def r_1B (r : CInt) (d : BitVec 64) (b : CInt) : Emit :=
  (mrm 1 (rN r) (rN b)).comma (emitByte (d.setWidth 32))

def r_1BIS (r : CInt) (d : BitVec 64) (b i : CInt) (s : Nat) : Emit :=
  (mrm 1 (rN r) 4).comma ((sibScl s (rN i) (rN b)).comma (emitByte (d.setWidth 32)))

def r_4B (r : CInt) (d : BitVec 64) (b : CInt) : Emit :=
  (mrm 2 (rN r) (rN b)).comma (emitLong (d.setWidth 32))

def r_4IS (r : CInt) (d : BitVec 64) (i : CInt) (s : Nat) : Emit :=
  (mrm 0 (rN r) 4).comma ((sibScl s (rN i) 5).comma (emitLong (d.setWidth 32)))

def r_4BIS (r : CInt) (d : BitVec 64) (b i : CInt) (s : Nat) : Emit :=
  (mrm 2 (rN r) 4).comma ((sibScl s (rN i) (rN b)).comma (emitLong (d.setWidth 32)))

def r_DB (r : CInt) (d : BitVec 64) (b : CInt) : Emit :=
  if d = 0 ∧ ¬ rbp13P b then r_0B r b
  else if s8P (d.setWidth 32) then r_1B r d b
  else r_4B r d b

def r_DBIS (r : CInt) (d : BitVec 64) (b i : CInt) (s : Nat) : Emit :=
  if d = 0 ∧ ¬ rbp13P b then r_0BIS r b i s
  else if s8P (d.setWidth 32) then r_1BIS r d b i s
  else r_4BIS r d b i s

/-- Use RIP-addressing in 64-bit mode, if possible. -/
def x86RIPAddressingPossible (target d o : BitVec 64) : Prop := target + 4 + o - d ≤ 0xffffffff

instance (target d o : BitVec 64) : Decidable (x86RIPAddressingPossible target d o) :=
  inferInstanceAs (Decidable (_ ≤ _))

/-- Register field `r`, displacement `d`, base `b`, index `i`, scale `s`, and the
size `o` of the immediate that follows. -/
def r_X (r : CInt) (d : BitVec 64) (b i : CInt) (s : Nat) (o : BitVec 64) : Emit := fun target =>
  if r0P i then
    if r0P b then
      if x86RIPAddressingPossible target d o then r_D r (fun target => d - (target + 4 + o)) target
      else r_DSIB r d target
    else if rIP b then r_D r (fun _ => d) target
    else if rsp12P b then r_DBIS r d x86RSP x86RSP 1 target
    else r_DB r d b target
  else if r0P b then r_4IS r d i s target
  else if ¬ rspP i then r_DBIS r d b i s target
  else emitFailure "illegal index register: %esp" target

-- ---------------------------------------------------------------------------
-- REX prefixes
-- ---------------------------------------------------------------------------

def bit (x : Bool) : CInt := if x then 1 else 0

def d64 (w r x b : CInt) : Emit :=
  emitByte (0x40 ||| (w <<< 3) ||| (r <<< 2) ||| (x <<< 1) ||| b)

def rexwrxb (l : Bool) (w r x b : CInt) : Emit :=
  if w ||| r ||| x ||| b ≠ 0 ∨ l then d64 w r x b else fun _ => .ok []

def rexwrx_ (l : Bool) (w r x mr : CInt) : Emit :=
  rexwrxb l w r x (bit (if rIP mr then false else rXP mr))

def rexw_x_ (l : Bool) (w r x mr : CInt) : Emit := rexwrx_ l w (bit (rXP r)) x mr

def rexLmr (mb mi rd : CInt) : Emit := rexw_x_ false 0 rd (bit (rXP mi)) mb

def rexQmr (mb mi rd : CInt) : Emit := rexw_x_ false 1 rd (bit (rXP mi)) mb

end SheepShear.Jit
