import Mathlib.Data.BitVec

/-!
# The instruction decoder

`init_decoder_entry` and `decode` of `ppc-decode.cpp` and `ppc-cpu.hpp`, with the
table of the instructions. Of an entry the handler and the mnemonic are left out:
the name stands for them.
-/

namespace SheepShear.Kpx

abbrev Cflow := BitVec 16

def cflowNormal : Cflow := 0
def cflowBranch : Cflow := 1
def cflowJump : Cflow := 2
def cflowTrap : Cflow := 4
def cflowConstJump : Cflow := 8
def cflowEndBlock : Cflow := cflowBranch ||| cflowJump ||| cflowTrap

/-- `XS_form` is left out: no entry has it, and the decoder does not take it. -/
inductive Format where
  | invalid
  | a
  | b
  | d
  | i
  | m
  | sc
  | x
  | xfl
  | xfx
  | xl
  | xo
  | vx
  | vxr
  | va
deriving DecidableEq, Repr

structure InstrInfo where
  name : String
  format : Format
  opcode : BitVec 6
  xo : BitVec 11
  cflow : Cflow
deriving DecidableEq, Repr

def InstrInfo.endsBlock (ii : InstrInfo) : Bool := ii.cflow &&& cflowEndBlock ≠ 0

-- ---------------------------------------------------------------------------
-- The index table
-- ---------------------------------------------------------------------------

/-- An index of `ii_index_table`: the primary opcode, and above it the eleven low bits. -/
structure IiIndex where
  opcode : BitVec 6
  xo : BitVec 11
deriving DecidableEq, Repr

def getIiIndex (opcode : BitVec 32) : IiIndex :=
  ⟨(opcode >>> 26).setWidth 6, opcode.setWidth 11⟩

/-- The indices at which `init_decoder_entry` enters an instruction. -/
def InstrInfo.enters (ii : InstrInfo) (index : IiIndex) : Bool :=
  let at' (xo : BitVec 11) := index = ⟨ii.opcode, xo⟩
  let bit21 : BitVec 11 := 1 <<< 10
  match ii.format with
  | .invalid => true
  | .b | .d | .i | .m => index.opcode = ii.opcode
  | .sc => at' 2
  | .x | .xl | .xfx | .xfl => at' (ii.xo <<< 1) || at' (ii.xo <<< 1 ||| 1)
  | .xo =>
    at' (ii.xo <<< 1) || at' (bit21 ||| ii.xo <<< 1) || at' (ii.xo <<< 1 ||| 1) ||
      at' (bit21 ||| ii.xo <<< 1 ||| 1)
  | .a =>
    (List.range 32).any fun j =>
      at' (BitVec.ofNat 11 j <<< 6 ||| ii.xo <<< 1) ||
        at' (BitVec.ofNat 11 j <<< 6 ||| ii.xo <<< 1 ||| 1)
  | .vx => at' ii.xo
  | .vxr => at' ii.xo || at' (bit21 ||| ii.xo)
  | .va => (List.range 32).any fun j => at' (BitVec.ofNat 11 j <<< 6 ||| ii.xo)

structure Decoder where
  iiTable : Array InstrInfo
  iiIndexTable : IiIndex → Fin iiTable.size

namespace Decoder

/-- The decoder after its first entry, the invalid instruction. -/
def init (invalid : InstrInfo) : Decoder where
  iiTable := #[invalid]
  iiIndexTable _ := ⟨0, Nat.zero_lt_one⟩

def initDecoderEntry (t : Decoder) (ii : InstrInfo) : Decoder where
  iiTable := t.iiTable.push ii
  iiIndexTable index :=
    if ii.enters index then ⟨t.iiTable.size, by simp⟩
    else (t.iiIndexTable index).castLE (by simp)

def decode (t : Decoder) (opcode : BitVec 32) : InstrInfo :=
  t.iiTable[t.iiIndexTable (getIiIndex opcode)]

/-- An opcode decodes to the entry added last, or as before. -/
theorem decode_initDecoderEntry (t : Decoder) (ii : InstrInfo) (opcode : BitVec 32) :
    (t.initDecoderEntry ii).decode opcode =
      if ii.enters (getIiIndex opcode) then ii else t.decode opcode := by
  cases hin : ii.enters (getIiIndex opcode) with
  | true => simp [decode, initDecoderEntry, hin]
  | false => simp [decode, initDecoderEntry, hin, Array.getElem_push]

theorem decode_foldl (entries : List InstrInfo) (t : Decoder) (opcode : BitVec 32) :
    (entries.foldl initDecoderEntry t).decode opcode =
      (entries.reverse.find? (·.enters (getIiIndex opcode))).getD (t.decode opcode) := by
  induction entries generalizing t with
  | nil => rfl
  | cons ii entries ih =>
    rw [List.foldl_cons, ih, decode_initDecoderEntry, List.reverse_cons, List.find?_append]
    cases entries.reverse.find? (·.enters (getIiIndex opcode)) with
    | some ii' => rfl
    | none => cases hin : ii.enters (getIiIndex opcode) <;> simp [hin]

end Decoder

-- ---------------------------------------------------------------------------
-- The table
-- ---------------------------------------------------------------------------

/-- The first entry of `powerpc_ii_table`. -/
def invalidInstr : InstrInfo := ⟨"invalid", .invalid, 0, 0, cflowTrap⟩

/-- The entries of `powerpc_ii_table` after the first. -/
def powerpcIiTable : List InstrInfo := [
  ⟨"add", .xo, 31, 266, cflowNormal⟩,
  ⟨"addc", .xo, 31, 10, cflowNormal⟩,
  ⟨"adde", .xo, 31, 138, cflowNormal⟩,
  ⟨"addi", .d, 14, 0, cflowNormal⟩,
  ⟨"addic", .d, 12, 0, cflowNormal⟩,
  ⟨"addic.", .d, 13, 0, cflowNormal⟩,
  ⟨"addis", .d, 15, 0, cflowNormal⟩,
  ⟨"addme", .xo, 31, 234, cflowNormal⟩,
  ⟨"addze", .xo, 31, 202, cflowNormal⟩,
  ⟨"and", .x, 31, 28, cflowNormal⟩,
  ⟨"andc", .x, 31, 60, cflowNormal⟩,
  ⟨"andi.", .d, 28, 0, cflowNormal⟩,
  ⟨"andis.", .d, 29, 0, cflowNormal⟩,
  ⟨"b", .i, 18, 0, cflowBranch⟩,
  ⟨"bc", .b, 16, 0, cflowBranch⟩,
  ⟨"bcctr", .xl, 19, 528, cflowBranch⟩,
  ⟨"bclr", .xl, 19, 16, cflowBranch⟩,
  ⟨"cmp", .x, 31, 0, cflowNormal⟩,
  ⟨"cmpi", .d, 11, 0, cflowNormal⟩,
  ⟨"cmpl", .x, 31, 32, cflowNormal⟩,
  ⟨"cmpli", .d, 10, 0, cflowNormal⟩,
  ⟨"cntlzw", .x, 31, 26, cflowNormal⟩,
  ⟨"crand", .xl, 19, 257, cflowNormal⟩,
  ⟨"crandc", .xl, 19, 129, cflowNormal⟩,
  ⟨"creqv", .xl, 19, 289, cflowNormal⟩,
  ⟨"crnand", .xl, 19, 225, cflowNormal⟩,
  ⟨"crnor", .xl, 19, 33, cflowNormal⟩,
  ⟨"cror", .xl, 19, 449, cflowNormal⟩,
  ⟨"crorc", .xl, 19, 417, cflowNormal⟩,
  ⟨"crxor", .xl, 19, 193, cflowNormal⟩,
  ⟨"dcba", .x, 31, 758, cflowNormal⟩,
  ⟨"dcbf", .x, 31, 86, cflowNormal⟩,
  ⟨"dcbi", .x, 31, 470, cflowNormal⟩,
  ⟨"dcbst", .x, 31, 54, cflowNormal⟩,
  ⟨"dcbt", .x, 31, 278, cflowNormal⟩,
  ⟨"dcbtst", .x, 31, 246, cflowNormal⟩,
  ⟨"dcbz", .x, 31, 1014, cflowNormal⟩,
  ⟨"divw", .xo, 31, 491, cflowNormal⟩,
  ⟨"divwu", .xo, 31, 459, cflowNormal⟩,
  ⟨"dss", .x, 31, 822, cflowNormal⟩,
  ⟨"dst", .x, 31, 342, cflowNormal⟩,
  ⟨"dstst", .x, 31, 374, cflowNormal⟩,
  ⟨"eciwx", .x, 31, 310, cflowNormal⟩,
  ⟨"ecowx", .x, 31, 438, cflowNormal⟩,
  ⟨"eieio", .x, 31, 854, cflowNormal⟩,
  ⟨"eqv", .x, 31, 284, cflowNormal⟩,
  ⟨"extsb", .x, 31, 954, cflowNormal⟩,
  ⟨"extsh", .x, 31, 922, cflowNormal⟩,
  ⟨"fabs", .x, 63, 264, cflowNormal⟩,
  ⟨"fadd", .a, 63, 21, cflowNormal⟩,
  ⟨"fadds", .a, 59, 21, cflowNormal⟩,
  ⟨"fcmpo", .x, 63, 32, cflowNormal⟩,
  ⟨"fcmpu", .x, 63, 0, cflowNormal⟩,
  ⟨"fctiw", .x, 63, 14, cflowNormal⟩,
  ⟨"fctiwz", .x, 63, 15, cflowNormal⟩,
  ⟨"fdiv", .a, 63, 18, cflowNormal⟩,
  ⟨"fdivs", .a, 59, 18, cflowNormal⟩,
  ⟨"fmadd", .a, 63, 29, cflowNormal⟩,
  ⟨"fmadds", .a, 59, 29, cflowNormal⟩,
  ⟨"fmr", .x, 63, 72, cflowNormal⟩,
  ⟨"fmsub", .a, 63, 28, cflowNormal⟩,
  ⟨"fmsubs", .a, 59, 28, cflowNormal⟩,
  ⟨"fmul", .a, 63, 25, cflowNormal⟩,
  ⟨"fmuls", .a, 59, 25, cflowNormal⟩,
  ⟨"fnabs", .x, 63, 136, cflowNormal⟩,
  ⟨"fneg", .x, 63, 40, cflowNormal⟩,
  ⟨"fnmadd", .a, 63, 31, cflowNormal⟩,
  ⟨"fnmadds", .a, 59, 31, cflowNormal⟩,
  ⟨"fnmsub", .a, 63, 30, cflowNormal⟩,
  ⟨"fnmsubs", .a, 59, 30, cflowNormal⟩,
  ⟨"frsp", .x, 63, 12, cflowNormal⟩,
  ⟨"fsel", .a, 63, 23, cflowNormal⟩,
  ⟨"fsub", .a, 63, 20, cflowNormal⟩,
  ⟨"fsubs", .a, 59, 20, cflowNormal⟩,
  ⟨"icbi", .x, 31, 982, cflowNormal⟩,
  ⟨"isync", .x, 19, 150, cflowNormal⟩,
  ⟨"lbz", .d, 34, 0, cflowNormal⟩,
  ⟨"lbzu", .d, 35, 0, cflowNormal⟩,
  ⟨"lbzux", .x, 31, 119, cflowNormal⟩,
  ⟨"lbzx", .x, 31, 87, cflowNormal⟩,
  ⟨"lfd", .d, 50, 0, cflowNormal⟩,
  ⟨"lfdu", .d, 51, 0, cflowNormal⟩,
  ⟨"lfdux", .x, 31, 631, cflowNormal⟩,
  ⟨"lfdx", .x, 31, 599, cflowNormal⟩,
  ⟨"lfs", .d, 48, 0, cflowNormal⟩,
  ⟨"lfsu", .d, 49, 0, cflowNormal⟩,
  ⟨"lfsux", .x, 31, 567, cflowNormal⟩,
  ⟨"lfsx", .x, 31, 535, cflowNormal⟩,
  ⟨"lha", .d, 42, 0, cflowNormal⟩,
  ⟨"lhau", .d, 43, 0, cflowNormal⟩,
  ⟨"lhaux", .x, 31, 375, cflowNormal⟩,
  ⟨"lhax", .x, 31, 343, cflowNormal⟩,
  ⟨"lhbrx", .x, 31, 790, cflowNormal⟩,
  ⟨"lhz", .d, 40, 0, cflowNormal⟩,
  ⟨"lhzu", .d, 41, 0, cflowNormal⟩,
  ⟨"lhzux", .x, 31, 311, cflowNormal⟩,
  ⟨"lhzx", .x, 31, 279, cflowNormal⟩,
  ⟨"lmw", .d, 46, 0, cflowNormal⟩,
  ⟨"lswi", .x, 31, 597, cflowNormal⟩,
  ⟨"lswx", .x, 31, 533, cflowNormal⟩,
  ⟨"lvebx", .x, 31, 7, cflowNormal⟩,
  ⟨"lvehx", .x, 31, 39, cflowNormal⟩,
  ⟨"lvewx", .x, 31, 71, cflowNormal⟩,
  ⟨"lvsl", .x, 31, 6, cflowNormal⟩,
  ⟨"lvsr", .x, 31, 38, cflowNormal⟩,
  ⟨"lvx", .x, 31, 103, cflowNormal⟩,
  ⟨"lvxl", .x, 31, 359, cflowNormal⟩,
  ⟨"lwarx", .x, 31, 20, cflowNormal⟩,
  ⟨"lwbrx", .x, 31, 534, cflowNormal⟩,
  ⟨"lwz", .d, 32, 0, cflowNormal⟩,
  ⟨"lwzu", .d, 33, 0, cflowNormal⟩,
  ⟨"lwzux", .x, 31, 55, cflowNormal⟩,
  ⟨"lwzx", .x, 31, 23, cflowNormal⟩,
  ⟨"mcrf", .xl, 19, 0, cflowNormal⟩,
  ⟨"mcrfs", .x, 63, 64, cflowNormal⟩,
  ⟨"mcrxr", .x, 31, 512, cflowNormal⟩,
  ⟨"mfcr", .x, 31, 19, cflowNormal⟩,
  ⟨"mffs", .x, 63, 583, cflowNormal⟩,
  ⟨"mfmsr", .x, 31, 83, cflowNormal⟩,
  ⟨"mfspr", .xfx, 31, 339, cflowNormal⟩,
  ⟨"mftb", .xfx, 31, 371, cflowNormal⟩,
  ⟨"mfvscr", .vx, 4, 1540, cflowNormal⟩,
  ⟨"mtcrf", .xfx, 31, 144, cflowNormal⟩,
  ⟨"mtfsb0", .x, 63, 70, cflowNormal⟩,
  ⟨"mtfsb1", .x, 63, 38, cflowNormal⟩,
  ⟨"mtfsf", .xfl, 63, 711, cflowNormal⟩,
  ⟨"mtfsfi", .x, 63, 134, cflowNormal⟩,
  ⟨"mtspr", .xfx, 31, 467, cflowNormal⟩,
  ⟨"mtvscr", .vx, 4, 1604, cflowNormal⟩,
  ⟨"mulhw", .xo, 31, 75, cflowNormal⟩,
  ⟨"mulhwu", .xo, 31, 11, cflowNormal⟩,
  ⟨"mulli", .d, 7, 0, cflowNormal⟩,
  ⟨"mullw", .xo, 31, 235, cflowNormal⟩,
  ⟨"nand", .x, 31, 476, cflowNormal⟩,
  ⟨"neg", .xo, 31, 104, cflowNormal⟩,
  ⟨"nor", .xo, 31, 124, cflowNormal⟩,
  ⟨"or", .xo, 31, 444, cflowNormal⟩,
  ⟨"orc", .xo, 31, 412, cflowNormal⟩,
  ⟨"ori", .d, 24, 0, cflowNormal⟩,
  ⟨"oris", .d, 25, 0, cflowNormal⟩,
  ⟨"rlwimi", .m, 20, 0, cflowNormal⟩,
  ⟨"rlwinm", .m, 21, 0, cflowNormal⟩,
  ⟨"rlwnm", .m, 23, 0, cflowNormal⟩,
  ⟨"sc", .sc, 17, 0, cflowNormal⟩,
  ⟨"slw", .x, 31, 24, cflowNormal⟩,
  ⟨"sraw", .x, 31, 792, cflowNormal⟩,
  ⟨"srawi", .x, 31, 824, cflowNormal⟩,
  ⟨"srw", .x, 31, 536, cflowNormal⟩,
  ⟨"stb", .d, 38, 0, cflowNormal⟩,
  ⟨"stbu", .d, 39, 0, cflowNormal⟩,
  ⟨"stbux", .x, 31, 247, cflowNormal⟩,
  ⟨"stbx", .x, 31, 215, cflowNormal⟩,
  ⟨"stfd", .d, 54, 0, cflowNormal⟩,
  ⟨"stfdu", .d, 55, 0, cflowNormal⟩,
  ⟨"stfdux", .x, 31, 759, cflowNormal⟩,
  ⟨"stfdx", .x, 31, 727, cflowNormal⟩,
  ⟨"stfs", .d, 52, 0, cflowNormal⟩,
  ⟨"stfsu", .d, 53, 0, cflowNormal⟩,
  ⟨"stfsux", .x, 31, 695, cflowNormal⟩,
  ⟨"stfsx", .x, 31, 663, cflowNormal⟩,
  ⟨"sth", .d, 44, 0, cflowNormal⟩,
  ⟨"sthbrx", .x, 31, 918, cflowNormal⟩,
  ⟨"sthu", .d, 45, 0, cflowNormal⟩,
  ⟨"sthux", .x, 31, 439, cflowNormal⟩,
  ⟨"sthx", .x, 31, 407, cflowNormal⟩,
  ⟨"stmw", .d, 47, 0, cflowNormal⟩,
  ⟨"stswi", .x, 31, 725, cflowNormal⟩,
  ⟨"stswx", .x, 31, 661, cflowNormal⟩,
  ⟨"stvebx", .x, 31, 135, cflowNormal⟩,
  ⟨"stvehx", .x, 31, 167, cflowNormal⟩,
  ⟨"stvewx", .x, 31, 199, cflowNormal⟩,
  ⟨"stvx", .x, 31, 231, cflowNormal⟩,
  ⟨"stvxl", .x, 31, 487, cflowNormal⟩,
  ⟨"stw", .d, 36, 0, cflowNormal⟩,
  ⟨"stwbrx", .x, 31, 662, cflowNormal⟩,
  ⟨"stwcx.", .x, 31, 150, cflowNormal⟩,
  ⟨"stwu", .d, 37, 0, cflowNormal⟩,
  ⟨"stwux", .x, 31, 183, cflowNormal⟩,
  ⟨"stwx", .x, 31, 151, cflowNormal⟩,
  ⟨"subf", .xo, 31, 40, cflowNormal⟩,
  ⟨"subfc", .xo, 31, 8, cflowNormal⟩,
  ⟨"subfe", .xo, 31, 136, cflowNormal⟩,
  ⟨"subfic", .d, 8, 0, cflowNormal⟩,
  ⟨"subfme", .xo, 31, 232, cflowNormal⟩,
  ⟨"subfze", .xo, 31, 200, cflowNormal⟩,
  ⟨"sync", .x, 31, 598, cflowNormal⟩,
  ⟨"xor", .x, 31, 316, cflowNormal⟩,
  ⟨"xori", .d, 26, 0, cflowNormal⟩,
  ⟨"xoris", .d, 27, 0, cflowNormal⟩,
  ⟨"vaddcuw", .vx, 4, 384, cflowNormal⟩,
  ⟨"vaddfp", .vx, 4, 10, cflowNormal⟩,
  ⟨"vaddsbs", .vx, 4, 768, cflowNormal⟩,
  ⟨"vaddshs", .vx, 4, 832, cflowNormal⟩,
  ⟨"vaddsws", .vx, 4, 896, cflowNormal⟩,
  ⟨"vaddubm", .vx, 4, 0, cflowNormal⟩,
  ⟨"vaddubs", .vx, 4, 512, cflowNormal⟩,
  ⟨"vadduhm", .vx, 4, 64, cflowNormal⟩,
  ⟨"vadduhs", .vx, 4, 576, cflowNormal⟩,
  ⟨"vadduwm", .vx, 4, 128, cflowNormal⟩,
  ⟨"vadduws", .vx, 4, 640, cflowNormal⟩,
  ⟨"vand", .vx, 4, 1028, cflowNormal⟩,
  ⟨"vandc", .vx, 4, 1092, cflowNormal⟩,
  ⟨"vavgsb", .vx, 4, 1282, cflowNormal⟩,
  ⟨"vavgsh", .vx, 4, 1346, cflowNormal⟩,
  ⟨"vavgsw", .vx, 4, 1410, cflowNormal⟩,
  ⟨"vavgub", .vx, 4, 1026, cflowNormal⟩,
  ⟨"vavguh", .vx, 4, 1090, cflowNormal⟩,
  ⟨"vavguw", .vx, 4, 1154, cflowNormal⟩,
  ⟨"vcfsx", .vx, 4, 842, cflowNormal⟩,
  ⟨"vcfux", .vx, 4, 778, cflowNormal⟩,
  ⟨"vcmpbfp", .vxr, 4, 966, cflowNormal⟩,
  ⟨"vcmpeqfp", .vxr, 4, 198, cflowNormal⟩,
  ⟨"vcmpequb", .vxr, 4, 6, cflowNormal⟩,
  ⟨"vcmpequh", .vxr, 4, 70, cflowNormal⟩,
  ⟨"vcmpequw", .vxr, 4, 134, cflowNormal⟩,
  ⟨"vcmpgefp", .vxr, 4, 454, cflowNormal⟩,
  ⟨"vcmpgtfp", .vxr, 4, 710, cflowNormal⟩,
  ⟨"vcmpgtsb", .vxr, 4, 774, cflowNormal⟩,
  ⟨"vcmpgtsh", .vxr, 4, 838, cflowNormal⟩,
  ⟨"vcmpgtsw", .vxr, 4, 902, cflowNormal⟩,
  ⟨"vcmpgtub", .vxr, 4, 518, cflowNormal⟩,
  ⟨"vcmpgtuh", .vxr, 4, 582, cflowNormal⟩,
  ⟨"vcmpgtuw", .vxr, 4, 646, cflowNormal⟩,
  ⟨"vctsxs", .vx, 4, 970, cflowNormal⟩,
  ⟨"vctuxs", .vx, 4, 906, cflowNormal⟩,
  ⟨"vexptefp", .vx, 4, 394, cflowNormal⟩,
  ⟨"vlogefp", .vx, 4, 458, cflowNormal⟩,
  ⟨"vmaddfp", .va, 4, 46, cflowNormal⟩,
  ⟨"vmaxfp", .vx, 4, 1034, cflowNormal⟩,
  ⟨"vmaxsb", .vx, 4, 258, cflowNormal⟩,
  ⟨"vmaxsh", .vx, 4, 322, cflowNormal⟩,
  ⟨"vmaxsw", .vx, 4, 386, cflowNormal⟩,
  ⟨"vmaxub", .vx, 4, 2, cflowNormal⟩,
  ⟨"vmaxuh", .vx, 4, 66, cflowNormal⟩,
  ⟨"vmaxuw", .vx, 4, 130, cflowNormal⟩,
  ⟨"vmhaddshs", .va, 4, 32, cflowNormal⟩,
  ⟨"vmhraddshs", .va, 4, 33, cflowNormal⟩,
  ⟨"vminfp", .vx, 4, 1098, cflowNormal⟩,
  ⟨"vminsb", .vx, 4, 770, cflowNormal⟩,
  ⟨"vminsh", .vx, 4, 834, cflowNormal⟩,
  ⟨"vminsw", .vx, 4, 898, cflowNormal⟩,
  ⟨"vminub", .vx, 4, 514, cflowNormal⟩,
  ⟨"vminuh", .vx, 4, 578, cflowNormal⟩,
  ⟨"vminuw", .vx, 4, 642, cflowNormal⟩,
  ⟨"vmladduhm", .va, 4, 34, cflowNormal⟩,
  ⟨"vmrghb", .vx, 4, 12, cflowNormal⟩,
  ⟨"vmrghh", .vx, 4, 76, cflowNormal⟩,
  ⟨"vmrghw", .vx, 4, 140, cflowNormal⟩,
  ⟨"vmrglb", .vx, 4, 268, cflowNormal⟩,
  ⟨"vmrglh", .vx, 4, 332, cflowNormal⟩,
  ⟨"vmrglw", .vx, 4, 396, cflowNormal⟩,
  ⟨"vmsummbm", .va, 4, 37, cflowNormal⟩,
  ⟨"vmsumshm", .va, 4, 40, cflowNormal⟩,
  ⟨"vmsumshs", .va, 4, 41, cflowNormal⟩,
  ⟨"vmsumubm", .va, 4, 36, cflowNormal⟩,
  ⟨"vmsumuhm", .va, 4, 38, cflowNormal⟩,
  ⟨"vmsumuhs", .va, 4, 39, cflowNormal⟩,
  ⟨"vmulesb", .vx, 4, 776, cflowNormal⟩,
  ⟨"vmulesh", .vx, 4, 840, cflowNormal⟩,
  ⟨"vmuleub", .vx, 4, 520, cflowNormal⟩,
  ⟨"vmuleuh", .vx, 4, 584, cflowNormal⟩,
  ⟨"vmulosb", .vx, 4, 264, cflowNormal⟩,
  ⟨"vmulosh", .vx, 4, 328, cflowNormal⟩,
  ⟨"vmuloub", .vx, 4, 8, cflowNormal⟩,
  ⟨"vmulouh", .vx, 4, 72, cflowNormal⟩,
  ⟨"vnmsubfp", .va, 4, 47, cflowNormal⟩,
  ⟨"vnor", .vx, 4, 1284, cflowNormal⟩,
  ⟨"vor", .vx, 4, 1156, cflowNormal⟩,
  ⟨"vperm", .va, 4, 43, cflowNormal⟩,
  ⟨"vpkpx", .vx, 4, 782, cflowNormal⟩,
  ⟨"vpkshss", .vx, 4, 398, cflowNormal⟩,
  ⟨"vpkshus", .vx, 4, 270, cflowNormal⟩,
  ⟨"vpkswss", .vx, 4, 462, cflowNormal⟩,
  ⟨"vpkswus", .vx, 4, 334, cflowNormal⟩,
  ⟨"vpkuhum", .vx, 4, 14, cflowNormal⟩,
  ⟨"vpkuhus", .vx, 4, 142, cflowNormal⟩,
  ⟨"vpkuwum", .vx, 4, 78, cflowNormal⟩,
  ⟨"vpkuwus", .vx, 4, 206, cflowNormal⟩,
  ⟨"vrefp", .vx, 4, 266, cflowNormal⟩,
  ⟨"vrfim", .vx, 4, 714, cflowNormal⟩,
  ⟨"vrfin", .vx, 4, 522, cflowNormal⟩,
  ⟨"vrfip", .vx, 4, 650, cflowNormal⟩,
  ⟨"vrfiz", .vx, 4, 586, cflowNormal⟩,
  ⟨"vrlb", .vx, 4, 4, cflowNormal⟩,
  ⟨"vrlh", .vx, 4, 68, cflowNormal⟩,
  ⟨"vrlw", .vx, 4, 132, cflowNormal⟩,
  ⟨"vrsqrtefp", .vx, 4, 330, cflowNormal⟩,
  ⟨"vsel", .va, 4, 42, cflowNormal⟩,
  ⟨"vsl", .vx, 4, 452, cflowNormal⟩,
  ⟨"vslb", .vx, 4, 260, cflowNormal⟩,
  ⟨"vsldoi", .va, 4, 44, cflowNormal⟩,
  ⟨"vslh", .vx, 4, 324, cflowNormal⟩,
  ⟨"vslo", .vx, 4, 1036, cflowNormal⟩,
  ⟨"vslw", .vx, 4, 388, cflowNormal⟩,
  ⟨"vspltb", .vx, 4, 524, cflowNormal⟩,
  ⟨"vsplth", .vx, 4, 588, cflowNormal⟩,
  ⟨"vspltisb", .vx, 4, 780, cflowNormal⟩,
  ⟨"vspltish", .vx, 4, 844, cflowNormal⟩,
  ⟨"vspltisw", .vx, 4, 908, cflowNormal⟩,
  ⟨"vspltw", .vx, 4, 652, cflowNormal⟩,
  ⟨"vsr", .vx, 4, 708, cflowNormal⟩,
  ⟨"vsrab", .vx, 4, 772, cflowNormal⟩,
  ⟨"vsrah", .vx, 4, 836, cflowNormal⟩,
  ⟨"vsraw", .vx, 4, 900, cflowNormal⟩,
  ⟨"vsrb", .vx, 4, 516, cflowNormal⟩,
  ⟨"vsrh", .vx, 4, 580, cflowNormal⟩,
  ⟨"vsro", .vx, 4, 1100, cflowNormal⟩,
  ⟨"vsrw", .vx, 4, 644, cflowNormal⟩,
  ⟨"vsubcuw", .vx, 4, 1408, cflowNormal⟩,
  ⟨"vsubfp", .vx, 4, 74, cflowNormal⟩,
  ⟨"vsubsbs", .vx, 4, 1792, cflowNormal⟩,
  ⟨"vsubshs", .vx, 4, 1856, cflowNormal⟩,
  ⟨"vsubsws", .vx, 4, 1920, cflowNormal⟩,
  ⟨"vsububm", .vx, 4, 1024, cflowNormal⟩,
  ⟨"vsububs", .vx, 4, 1536, cflowNormal⟩,
  ⟨"vsubuhm", .vx, 4, 1088, cflowNormal⟩,
  ⟨"vsubuhs", .vx, 4, 1600, cflowNormal⟩,
  ⟨"vsubuwm", .vx, 4, 1152, cflowNormal⟩,
  ⟨"vsubuws", .vx, 4, 1664, cflowNormal⟩,
  ⟨"vsumsws", .vx, 4, 1928, cflowNormal⟩,
  ⟨"vsum2sws", .vx, 4, 1672, cflowNormal⟩,
  ⟨"vsum4sbs", .vx, 4, 1800, cflowNormal⟩,
  ⟨"vsum4shs", .vx, 4, 1608, cflowNormal⟩,
  ⟨"vsum4ubs", .vx, 4, 1544, cflowNormal⟩,
  ⟨"vupkhpx", .vx, 4, 846, cflowNormal⟩,
  ⟨"vupkhsb", .vx, 4, 526, cflowNormal⟩,
  ⟨"vupkhsh", .vx, 4, 590, cflowNormal⟩,
  ⟨"vupklpx", .vx, 4, 974, cflowNormal⟩,
  ⟨"vupklsb", .vx, 4, 654, cflowNormal⟩,
  ⟨"vupklsh", .vx, 4, 718, cflowNormal⟩,
  ⟨"vxor", .vx, 4, 1220, cflowNormal⟩
]

/-- The entry that the emulator adds. -/
def sheepInstr : InstrInfo := ⟨"sheep", .d, 6, 0, cflowJump ||| cflowTrap⟩

/-- `init_decoder` of the processor and of `sheepshaver_cpu`. -/
def initDecoder : Decoder :=
  (powerpcIiTable ++ [sheepInstr]).foldl Decoder.initDecoderEntry (.init invalidInstr)

/-- Of the entries for an opcode the last in the tables counts. -/
theorem initDecoder_decode (opcode : BitVec 32) :
    initDecoder.decode opcode =
      ((powerpcIiTable ++ [sheepInstr]).reverse.find? (·.enters (getIiIndex opcode))).getD
        invalidInstr :=
  Decoder.decode_foldl ..

end SheepShear.Kpx
