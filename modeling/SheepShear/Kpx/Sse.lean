import SheepShear.Lib.Xmm
import SheepShear.Kpx.AltiVec

/-!
# Vector translations for SSE

The sequences of `ppc-jit.cpp` for `vsldoi`, `vsel`, `vperm`, `lvx` and `stvx`
and the host instructions they are made of. `lvx` and `stvx` use the guest's
address as the host's.
-/

namespace SheepShear.Kpx

/-- The processor's registers and the host's, over the first 4 GB of the host's memory. -/
structure HostState where
  vr : BitVec 5 → Vr
  gpr : BitVec 5 → Word
  v : Fin 4 → Xmm
  t : Fin 3 → BitVec 64
  host : Mem

/-- Of a move of 4 or 8 bytes; `host` is an address `disp` bytes past `T0`. -/
inductive HostOperand where
  | reg (t : Fin 3)
  | gpr (n : BitVec 5)
  | vr (v : BitVec 5) (disp : Nat)
  | host (disp : Nat)

/-- Of a move of 16 bytes; `data` is a constant that `copy_data` has put in memory. -/
inductive XmmOperand where
  | reg (v : Fin 4)
  | vr (v : BitVec 5)
  | host
  | data (bytes : Xmm)

inductive HostInsn where
  | mov (n : Nat) (src dst : HostOperand)
  | add32 (src : BitVec 5) (dst : Fin 3)
  | and32 (im : Word) (dst : Fin 3)
  | bswap (n : Nat) (dst : Fin 3)
  | rol64 (dst : Fin 3)
  | movdqa (src dst : XmmOperand)
  | pshufd (im : BitVec 8) (src dst : Fin 4)
  | pslldq (n : Nat) (dst : Fin 4)
  | psrldq (n : Nat) (dst : Fin 4)
  | psllq (n : Nat) (dst : Fin 4)
  | pshufb (src : XmmOperand) (dst : Fin 4)
  | pand (src : XmmOperand) (dst : Fin 4)
  | pandn (src : XmmOperand) (dst : Fin 4)
  | por (src : XmmOperand) (dst : Fin 4)
  | pxor (src : XmmOperand) (dst : Fin 4)

-- ---------------------------------------------------------------------------
-- Execution
-- ---------------------------------------------------------------------------

/-- The address in `T0`. -/
def HostState.address (s : HostState) : Word := (s.t 0).setWidth 32

def HostOperand.byte (s : HostState) (i : Nat) : HostOperand → Byte
  | .reg t => byteAt (s.t t) i
  | .gpr n => byteAt (s.gpr n) i
  | .vr v disp => s.vr v (.ofNat 16 (disp + i))
  | .host disp => s.host (s.address + .ofNat 32 (disp + i))

/-- The `n` bytes of an operand, extended with zeros. -/
def HostOperand.read (s : HostState) (n : Nat) (src : HostOperand) : BitVec 64 :=
  ofBytes64 fun i => if i.val < n then src.byte s i else 0

/-- A 32-bit register is cleared above the value. -/
def HostOperand.write (s : HostState) (n : Nat) (x : BitVec 64) : HostOperand → HostState
  | .reg t => { s with t := Function.update s.t t x }
  | .gpr r => { s with gpr := Function.update s.gpr r (x.setWidth 32) }
  | .vr v disp =>
    { s with vr := Function.update s.vr v fun k =>
      if disp ≤ k.val ∧ k.val < disp + n then byteAt x (k - disp) else s.vr v k }
  | .host disp =>
    { s with host := s.host.storeBytes (s.address + .ofNat 32 disp) n (byteAt x) }

def XmmOperand.read (s : HostState) : XmmOperand → Xmm
  | .reg v => s.v v
  | .vr v => s.vr v
  | .host => fun k => s.host (s.address + .ofNat 32 k)
  | .data bytes => bytes

/-- Constants are not written. -/
def XmmOperand.write (s : HostState) (x : Xmm) : XmmOperand → HostState
  | .reg v => { s with v := Function.update s.v v x }
  | .vr v => { s with vr := Function.update s.vr v x }
  | .host => { s with host := s.host.storeBytes s.address 16 fun i => x (.ofNat 16 i) }
  | .data _ => s

def HostState.setT (s : HostState) (t : Fin 3) (x : BitVec 64) : HostState :=
  { s with t := Function.update s.t t x }

def HostState.setV (s : HostState) (v : Fin 4) (x : Xmm) : HostState :=
  { s with v := Function.update s.v v x }

def HostInsn.step (s : HostState) : HostInsn → HostState
  | .mov n src dst => dst.write s n (src.read s n)
  | .add32 src dst => s.setT dst (((s.t dst).setWidth 32 + s.gpr src).setWidth 64)
  | .and32 im dst => s.setT dst (((s.t dst).setWidth 32 &&& im).setWidth 64)
  | .bswap n dst => s.setT dst (SheepShear.bswap n (s.t dst))
  | .rol64 dst => s.setT dst ((s.t dst).rotateLeft 32)
  | .movdqa src dst => dst.write s (src.read s)
  | .pshufd im src dst => s.setV dst (.pshufd im (s.v src))
  | .pslldq n dst => s.setV dst (.pslldq n (s.v dst))
  | .psrldq n dst => s.setV dst (.psrldq n (s.v dst))
  | .psllq n dst => s.setV dst (.psllq n (s.v dst))
  | .pshufb src dst => s.setV dst (.pshufb (src.read s) (s.v dst))
  | .pand src dst => s.setV dst (.pand (s.v dst) (src.read s))
  | .pandn src dst => s.setV dst (.pandn (s.v dst) (src.read s))
  | .por src dst => s.setV dst (.por (s.v dst) (src.read s))
  | .pxor src dst => s.setV dst (.pxor (s.v dst) (src.read s))

def runHost (code : List HostInsn) (s : HostState) : HostState := code.foldl HostInsn.step s

-- ---------------------------------------------------------------------------
-- The translations
-- ---------------------------------------------------------------------------

/-- Which of the three sequences `lvx` and `stvx` have. -/
inductive VectorAccess where
  | x86_32
  | x86_64
  | ssse3
deriving DecidableEq, Repr

inductive VectorInsn where
  | vsldoi (vD vA vB : BitVec 5) (sh : Fin 16)
  | vsel (vD vA vB vC : BitVec 5)
  | vperm (vD vA vB vC : BitVec 5)
  | lvx (access : VectorAccess) (vD rA rB : BitVec 5)
  | stvx (access : VectorAccess) (vS rA rB : BitVec 5)
deriving DecidableEq, Repr

def genSse2Vsldoi (vD vA vB : BitVec 5) (sh : Fin 16) : List HostInsn :=
  if sh = 0 ∧ vA = vD then []
  else
    [.movdqa (.vr vA) (.reg 0)] ++
    (if sh = 0 then []
    else [.movdqa (.vr vB) (.reg 1), .pshufd 0x1b 0 0, .pshufd 0x1b 1 1, .pslldq sh 0,
      .psrldq (16 - sh) 1, .por (.reg 1) 0, .pshufd 0x1b 0 0]) ++
    [.movdqa (.reg 0) (.vr vD)]

def genSse2Vsel (vD vA vB vC : BitVec 5) : List HostInsn :=
  [.movdqa (.vr vC) (.reg 0), .movdqa (.vr vB) (.reg 1), .movdqa (.vr vA) (.reg 2),
    .pand (.reg 0) 1, .pandn (.reg 2) 0, .por (.reg 1) 0, .movdqa (.reg 0) (.vr vD)]

/-- `gen_ssse3_vswap_mask`. -/
def vswapMask : Xmm :=
  ![0x03, 0x02, 0x01, 0x00, 0x07, 0x06, 0x05, 0x04, 0x0b, 0x0a, 0x09, 0x08, 0x0f, 0x0e, 0x0d, 0x0c]

def zeroMask : Xmm := fun _ => 0x80

def indexMask : Xmm := fun _ => 0x1f

def genSsse3Vperm (vD vA vB vC : BitVec 5) : List HostInsn :=
  [.movdqa (.vr vC) (.reg 2), .movdqa (.data vswapMask) (.reg 3), .movdqa (.vr vA) (.reg 0),
    .pand (.data indexMask) 2, .pshufb (.reg 3) 0, .pshufb (.reg 3) 2, .movdqa (.reg 2) (.reg 1),
    .psllq 3 2, .pand (.data zeroMask) 2, .por (.reg 2) 1, .movdqa (.vr vB) (.reg 2),
    .pshufb (.reg 1) 0, .pshufb (.reg 3) 2, .pxor (.data zeroMask) 1, .pshufb (.reg 1) 2,
    .por (.reg 2) 0, .pshufb (.reg 3) 0, .movdqa (.reg 0) (.vr vD)]

/-- The sum of the address, in `T0`. -/
def genAddress (rA rB : BitVec 5) : List HostInsn :=
  .mov 4 (.gpr rB) (.reg 0) :: if rA ≠ 0 then [.add32 rA 0] else []

def genLvx (vD rA rB : BitVec 5) : VectorAccess → List HostInsn
  | .x86_64 => genAddress rA rB ++ [.and32 (-16) 0,
      .mov 8 (.host 0) (.reg 1), .mov 8 (.host 8) (.reg 2), .bswap 8 1, .bswap 8 2, .rol64 1, .rol64 2,
      .mov 8 (.reg 1) (.vr vD 0), .mov 8 (.reg 2) (.vr vD 8)]
  | .x86_32 => genAddress rA rB ++ [.and32 (-16) 0,
      .mov 4 (.host 0) (.reg 1), .mov 4 (.host 4) (.reg 2), .bswap 4 1, .bswap 4 2,
      .mov 4 (.reg 1) (.vr vD 0), .mov 4 (.reg 2) (.vr vD 4),
      .mov 4 (.host 8) (.reg 1), .mov 4 (.host 12) (.reg 2), .bswap 4 1, .bswap 4 2,
      .mov 4 (.reg 1) (.vr vD 8), .mov 4 (.reg 2) (.vr vD 12)]
  | .ssse3 => genAddress rA rB ++ [.and32 (-16) 0,
      .movdqa .host (.reg 0), .pshufb (.data vswapMask) 0, .movdqa (.reg 0) (.vr vD)]

def genStvx (vS rA rB : BitVec 5) : VectorAccess → List HostInsn
  | .x86_64 => [.mov 4 (.gpr rB) (.reg 0), .mov 8 (.vr vS 0) (.reg 1), .mov 8 (.vr vS 8) (.reg 2)] ++
      (if rA ≠ 0 then [.add32 rA 0] else []) ++
      [.bswap 8 1, .bswap 8 2, .and32 (-16) 0, .rol64 1, .rol64 2,
      .mov 8 (.reg 1) (.host 0), .mov 8 (.reg 2) (.host 8)]
  | .x86_32 => [.mov 4 (.gpr rB) (.reg 0), .mov 4 (.vr vS 0) (.reg 1), .mov 4 (.vr vS 4) (.reg 2)] ++
      (if rA ≠ 0 then [.add32 rA 0] else []) ++
      [.bswap 4 1, .bswap 4 2, .and32 (-16) 0, .mov 4 (.reg 1) (.host 0), .mov 4 (.reg 2) (.host 4),
      .mov 4 (.vr vS 8) (.reg 1), .mov 4 (.vr vS 12) (.reg 2), .bswap 4 1, .bswap 4 2,
      .mov 4 (.reg 1) (.host 8), .mov 4 (.reg 2) (.host 12)]
  | .ssse3 => genAddress rA rB ++ [.and32 (-16) 0,
      .movdqa (.vr vS) (.reg 0), .pshufb (.data vswapMask) 0, .movdqa (.reg 0) .host]

def VectorInsn.compile : VectorInsn → List HostInsn
  | .vsldoi vD vA vB sh => genSse2Vsldoi vD vA vB sh
  | .vsel vD vA vB vC => genSse2Vsel vD vA vB vC
  | .vperm vD vA vB vC => genSsse3Vperm vD vA vB vC
  | .lvx access vD rA rB => genLvx vD rA rB access
  | .stvx access vS rA rB => genStvx vS rA rB access

-- ---------------------------------------------------------------------------
-- Correctness
-- ---------------------------------------------------------------------------

/-- Where the guest's memory is in the host's: `VMBaseDiff`, which `vm_acquire_fixed` can only map
at a page. -/
structure Addressing where
  vmBaseDiff : Word
  page : vmBaseDiff.toNat % 4096 = 0

def Addressing.realAddress (b : Addressing) (a : Word) : Word := b.vmBaseDiff + a

/-- What the guest sees of the host. -/
structure GuestState where
  vr : BitVec 5 → Vr
  gpr : BitVec 5 → Word
  mem : Mem

def HostState.guest (b : Addressing) (s : HostState) : GuestState :=
  ⟨s.vr, s.gpr, fun a => s.host (b.realAddress a)⟩

/-- The AltiVec instruction. -/
def VectorInsn.exec (s : GuestState) : VectorInsn → GuestState
  | .vsldoi vD vA vB sh =>
    { s with vr := Function.update s.vr vD (AltiVec.vsldoi (s.vr vA) (s.vr vB) sh) }
  | .vsel vD vA vB vC =>
    { s with vr := Function.update s.vr vD (AltiVec.vsel (s.vr vA) (s.vr vB) (s.vr vC)) }
  | .vperm vD vA vB vC =>
    { s with vr := Function.update s.vr vD (AltiVec.vperm (s.vr vA) (s.vr vB) (s.vr vC)) }
  | .lvx _ vD rA rB =>
    { s with vr := Function.update s.vr vD (AltiVec.lvx s.mem (AltiVec.vectorAddress s.gpr rA rB)) }
  | .stvx _ vS rA rB =>
    { s with mem := AltiVec.stvx s.mem (AltiVec.vectorAddress s.gpr rA rB) (s.vr vS) }

def VectorInsn.Correct (b : Addressing) (insn : VectorInsn) (s : HostState) : Prop :=
  (runHost insn.compile s).guest b = insn.exec (s.guest b)

/-- A load or a store is right where guest and host addresses are the same, or where both places
hold the same bytes. -/
def VectorInsn.HoldsWhen (b : Addressing) (insn : VectorInsn) (s : HostState) : Prop :=
  match insn with
  | .lvx _ _ rA rB =>
    let ea := AltiVec.vectorAddress s.gpr rA rB
    b.vmBaseDiff = 0 ∨
      ∀ i : Fin 16, s.host (ea + .ofNat 32 i) = s.host (b.realAddress (ea + .ofNat 32 i))
  | .stvx _ vS rA rB =>
    let ea := AltiVec.vectorAddress s.gpr rA rB
    b.vmBaseDiff = 0 ∨
      ∀ i : Fin 16, s.host (ea + .ofNat 32 i) = (s.vr vS).element i ∧
        s.host (b.realAddress (ea + .ofNat 32 i)) = (s.vr vS).element i
  | _ => True

end SheepShear.Kpx
