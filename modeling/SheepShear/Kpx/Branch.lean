import SheepShear.Kpx.Cpu

/-!
# Branches

`execute_branch` of the interpreter, and the code that `compile_block` makes of
`b`, `bc`, `bclr` and `bcctr` when it does not chain blocks. A branch that is
always taken to a constant address leaves no code but the link: the translator
goes on at its target.
-/

namespace SheepShear.Kpx

-- ---------------------------------------------------------------------------
-- Fields and operands
-- ---------------------------------------------------------------------------

def boField (opcode : Word) : BitVec 5 := bitField 6 10 opcode
def biField (opcode : Word) : BitVec 5 := bitField 11 15 opcode
def bdField (opcode : Word) : BitVec 14 := bitField 16 29 opcode
def liField (opcode : Word) : BitVec 24 := bitField 6 29 opcode
def aaField : Predicate := fun opcode => bitField 30 30 opcode = 1#1
def lkField : Predicate := fun opcode => bitField 31 31 opcode = 1#1

def boDecrementCtr (bo : BitVec 5) : Bool := bo &&& 0x04#5 == 0
def boBranchIfCtrZero (bo : BitVec 5) : Bool := bo &&& 0x02#5 != 0
def boConditionalBranch (bo : BitVec 5) : Bool := bo &&& 0x10#5 == 0
def boBranchIfTrue (bo : BitVec 5) : Bool := bo &&& 0x08#5 != 0

/-- `BO_MAKE(0,0,0,0)`, which always branches. -/
def boAlways : BitVec 5 := 20#5

/-- `op_sign_extend_BD_32`. -/
def operandBD (opcode : Word) : Word := opSignExtend16 ((bdField opcode).setWidth 32 <<< 2)

/-- `op_sign_extend_LI_32`. -/
def operandLI (opcode : Word) : Word :=
  let value : Word := (liField opcode).setWidth 32
  let value := if value &&& 0x800000#32 ≠ 0 then value ||| 0xff000000#32 else value
  value <<< 2

/-- `& -4`. -/
def aligned (a : Word) : Word := a &&& 0xfffffffc#32

-- ---------------------------------------------------------------------------
-- The interpreter
-- ---------------------------------------------------------------------------

/-- `powerpc_cr_register::test`. -/
def crTest (cr : Word) (condition : BitVec 5) : Bool :=
  (cr <<< condition.toNat) &&& 0x80000000#32 != 0

def executeBranch (PC : Cpu → Word) (BO : Word → BitVec 5) (DP : Word → Word) (AA LK : Predicate)
    (opcode : Word) (s : Cpu) : Cpu :=
  let bo := BO opcode
  let condOk :=
    if boConditionalBranch bo then
      if boBranchIfTrue bo then crTest s.regs.cr (biField opcode)
      else !crTest s.regs.cr (biField opcode)
    else true
  let s : Cpu := if boDecrementCtr bo then { s with ctr := s.ctr - 1 } else s
  let ctrOk :=
    if boDecrementCtr bo then (if boBranchIfCtrZero bo then s.ctr == 0 else s.ctr != 0) else true
  let npc := s.pc + 4
  let s : Cpu :=
    if ctrOk && condOk then
      { s with pc := aligned ((if AA opcode then 0 else PC s) + DP opcode) }
    else { s with pc := npc }
  if LK opcode then { s with lr := npc } else s

inductive BranchInsn where
  | b
  | bc
  | bcctr
  | bclr
deriving DecidableEq, Repr

/-- The rows of `powerpc_ii_table` for the branches. -/
def BranchInsn.execute : BranchInsn → Word → Cpu → Cpu
  | .b => executeBranch Cpu.pc (fun _ => boAlways) operandLI aaField lkField
  | .bc => executeBranch Cpu.pc boField operandBD aaField lkField
  | .bcctr => executeBranch Cpu.ctr boField (fun _ => 0) (fun _ => false) lkField
  | .bclr => executeBranch Cpu.lr boField (fun _ => 0) (fun _ => false) lkField

-- ---------------------------------------------------------------------------
-- Ops
-- ---------------------------------------------------------------------------

/-- The op of `do_prep_branch_bo` carries the constant it is instantiated with. -/
inductive BranchOp where
  | storeImLR (im : Word)
  | loadT0CtrAligned
  | loadT0LrAligned
  | loadT1Crb (bi : BitVec 5)
  | prepBranchBo (bo : BitVec 5)
  | branch1Im (tpc : Word)
  | branch1T0
  | branch2ImIm (tpc npc : Word)
  | branch2T0Im (npc : Word)

/-- `do_prep_branch_bo`. -/
def doPrepBranchBo (bo : BitVec 5) (s : JitState) : JitState :=
  let condOk :=
    if boConditionalBranch bo then (if boBranchIfTrue bo then s.t1 != 0 else s.t1 == 0) else true
  let s : JitState :=
    if boDecrementCtr bo then
      { s with t2 := s.cpu.ctr - 1, cpu := { s.cpu with ctr := s.cpu.ctr - 1 } }
    else s
  let ctrOk :=
    if boDecrementCtr bo then (if boBranchIfCtrZero bo then s.t2 == 0 else s.t2 != 0) else true
  { s with t1 := if ctrOk && condOk then 1 else 0 }

def JitState.setPc (s : JitState) (pc : Word) : JitState := { s with cpu := { s.cpu with pc } }

def BranchOp.run (s : JitState) : BranchOp → JitState
  | .storeImLR im => { s with cpu := { s.cpu with lr := im } }
  | .loadT0CtrAligned => { s with t0 := aligned s.cpu.ctr }
  | .loadT0LrAligned => { s with t0 := aligned s.cpu.lr }
  | .loadT1Crb bi => { s with t1 := (s.cpu.regs.cr >>> (31 - bi.toNat)) &&& 1 }
  | .prepBranchBo bo => doPrepBranchBo bo s
  | .branch1Im tpc => s.setPc tpc
  | .branch1T0 => s.setPc s.t0
  | .branch2ImIm tpc npc => s.setPc (if s.t1 ≠ 0 then tpc else npc)
  | .branch2T0Im npc => s.setPc (if s.t1 ≠ 0 then s.t0 else npc)

def runBranchOps (ops : List BranchOp) (s : JitState) : JitState := ops.foldl BranchOp.run s

-- ---------------------------------------------------------------------------
-- The cases of compile_block
-- ---------------------------------------------------------------------------

/-- The op for a value of BO: the nine merged patterns of the switch of `gen_bc`. -/
def genPrepBranch (bo : BitVec 5) : BitVec 5 :=
  match (bo >>> 1).toNat with
  | 0 => 0b00000#5
  | 1 => 0b00010#5
  | 2 | 3 => 0b00100#5
  | 4 => 0b01000#5
  | 5 => 0b01010#5
  | 6 | 7 => 0b01100#5
  | 8 | 12 => 0b10000#5
  | 9 | 13 => 0b10010#5
  | _ => 0b10100#5

/-- The last op of `gen_bc`, two-way or one-way. -/
def genBranch (bo : BitVec 5) (tpc npc : Word) : BranchOp :=
  if boConditionalBranch bo || boDecrementCtr bo then
    if tpc ≠ 0xffffffff#32 then .branch2ImIm tpc npc else .branch2T0Im npc
  else if tpc ≠ 0xffffffff#32 then .branch1Im tpc
  else .branch1T0

def genBc (bo bi : BitVec 5) (tpc npc : Word) : List BranchOp :=
  (if boConditionalBranch bo then [.loadT1Crb bi] else []) ++
    [.prepBranchBo (genPrepBranch bo), genBranch bo tpc npc]

/-- `if (LK_field::test(opcode)) gen_store_im_LR(npc)`. -/
def genLink (opcode npc : Word) : List BranchOp := if lkField opcode then [.storeImLR npc] else []

/-- The code for a branch at `dpc` and, when the translator follows it, the address where it goes on. -/
def BranchInsn.compile (insn : BranchInsn) (dpc opcode : Word) : List BranchOp × Option Word :=
  let npc := dpc + 4
  match insn with
  | .b =>
    let tpc := aligned ((if aaField opcode then 0 else dpc) + operandLI opcode)
    if lkField opcode then (.storeImLR npc :: genBc boAlways 0 tpc 0, none) else ([], some tpc)
  | .bc =>
    let bo := boField opcode
    if !boConditionalBranch bo && !boDecrementCtr bo then
      let dpc := if aaField opcode then 0 else dpc
      (genLink opcode npc, some (aligned (dpc + operandBD opcode)))
    else
      let tpc := aligned ((if aaField opcode then 0 else dpc) + operandBD opcode)
      (genLink opcode npc ++ genBc bo (biField opcode) tpc npc, none)
  | .bcctr =>
    (.loadT0CtrAligned :: genLink opcode npc ++
      genBc (boField opcode) (biField opcode) 0xffffffff#32 npc, none)
  | .bclr =>
    (.loadT0LrAligned :: genLink opcode npc ++
      genBc (boField opcode) (biField opcode) 0xffffffff#32 npc, none)

/-- Where the guest goes on: at the followed target, or where the code has set the program counter. -/
def nextPc (code : List BranchOp × Option Word) (s : JitState) : Word :=
  code.2.getD (runBranchOps code.1 s).cpu.pc

-- ---------------------------------------------------------------------------
-- Whether a branch is taken
-- ---------------------------------------------------------------------------

def ctrAfter (bo : BitVec 5) (ctr : Word) : Word := if boDecrementCtr bo then ctr - 1 else ctr

/-- The test on CTR, after the decrement. -/
def ctrOk (bo : BitVec 5) (ctr : Word) : Bool :=
  !boDecrementCtr bo || (boBranchIfCtrZero bo == (ctr - 1 == 0))

/-- The test on the condition bit. -/
def condOk (bo : BitVec 5) (bit : Bool) : Bool :=
  !boConditionalBranch bo || (boBranchIfTrue bo == bit)

theorem ctrOk_eq (bo : BitVec 5) (ctr : Word) :
    ctrOk bo ctr = if boDecrementCtr bo then
      (if boBranchIfCtrZero bo then ctr - 1 == 0 else ctr - 1 != 0) else true := by
  unfold ctrOk
  rcases Bool.eq_false_or_eq_true (boDecrementCtr bo) with hd | hd <;>
    rcases Bool.eq_false_or_eq_true (boBranchIfCtrZero bo) with hz | hz <;> simp [hd, hz, bne]

theorem condOk_eq (bo : BitVec 5) (bit : Bool) :
    condOk bo bit = if boConditionalBranch bo then (if boBranchIfTrue bo then bit else !bit) else true := by
  unfold condOk
  rcases Bool.eq_false_or_eq_true (boConditionalBranch bo) with hc | hc <;>
    rcases Bool.eq_false_or_eq_true (boBranchIfTrue bo) with ht | ht <;> simp [hc, ht]

theorem executeBranch_eq (PC : Cpu → Word) (BO : Word → BitVec 5) (DP : Word → Word)
    (AA LK : Predicate) (opcode : Word) (s : Cpu) :
    let t := executeBranch PC BO DP AA LK opcode s
    let s' : Cpu := { s with ctr := ctrAfter (BO opcode) s.ctr }
    t.pc = (if ctrOk (BO opcode) s.ctr && condOk (BO opcode) (crTest s.regs.cr (biField opcode)) then
        aligned ((if AA opcode then 0 else PC s') + DP opcode) else s.pc + 4) ∧
      t.ctr = ctrAfter (BO opcode) s.ctr ∧ t.lr = if LK opcode then s.pc + 4 else s.lr := by
  simp only [executeBranch, ctrAfter, ctrOk_eq, condOk_eq]
  rcases Bool.eq_false_or_eq_true (boDecrementCtr (BO opcode)) with hd | hd <;>
    rcases Bool.eq_false_or_eq_true (LK opcode) with hl | hl <;>
    simp [hd, hl, apply_ite Cpu.pc, apply_ite Cpu.ctr, apply_ite Cpu.lr]

/-- The op of a merged pattern tests what the value of BO asks for. -/
theorem genPrepBranch_tests (bo : BitVec 5) :
    boDecrementCtr (genPrepBranch bo) = boDecrementCtr bo ∧
      boConditionalBranch (genPrepBranch bo) = boConditionalBranch bo ∧
      (boDecrementCtr bo → boBranchIfCtrZero (genPrepBranch bo) = boBranchIfCtrZero bo) ∧
      (boConditionalBranch bo → boBranchIfTrue (genPrepBranch bo) = boBranchIfTrue bo) := by
  revert bo; decide

/-- A word under a mask of one bit. -/
theorem and_twoPow_ne_zero (v : Word) (i : Nat) : (v &&& BitVec.twoPow 32 i != 0) = v.getLsbD i := by
  rw [BitVec.and_twoPow]
  cases hv : v.getLsbD i with
  | false => simp
  | true =>
    have hi : i < 32 := BitVec.lt_of_getLsbD hv
    have hne : BitVec.twoPow 32 i ≠ 0 := by
      intro h
      have hbit := congrArg (BitVec.getLsbD · i) h
      simp [hi] at hbit
    simpa using hne

theorem crTest_eq (cr : Word) (bi : BitVec 5) : crTest cr bi = cr.getLsbD (31 - bi.toNat) := by
  have hbi := bi.isLt
  rw [crTest, show (0x80000000#32) = BitVec.twoPow 32 31 from by decide, and_twoPow_ne_zero]
  rw [BitVec.getLsbD_shiftLeft]
  simp only [Nat.reduceLT, decide_true, Bool.true_and, show ¬ 31 < bi.toNat by omega, decide_false,
    Bool.not_false]

theorem crb_ne_zero (cr : Word) (bi : BitVec 5) :
    ((cr >>> (31 - bi.toNat)) &&& 1 != 0) = crTest cr bi := by
  rw [crTest_eq, show (1 : Word) = BitVec.twoPow 32 0 from by decide, and_twoPow_ne_zero]
  simp

-- ---------------------------------------------------------------------------
-- The generated code
-- ---------------------------------------------------------------------------

theorem doPrepBranchBo_eq (bo : BitVec 5) (s : JitState) :
    let t := doPrepBranchBo (genPrepBranch bo) s
    (t.t1 ≠ 0 ↔ (ctrOk bo s.cpu.ctr && condOk bo (s.t1 != 0)) = true) ∧ t.t0 = s.t0 ∧
      t.cpu = { s.cpu with ctr := ctrAfter bo s.cpu.ctr } := by
  obtain ⟨hdec, hcond, hzero, htrue⟩ := genPrepBranch_tests bo
  have hflag (c : Bool) : (if c then 1 else 0 : Word) ≠ 0 ↔ c = true := by cases c <;> simp
  simp only [doPrepBranchBo, hdec, hcond, ctrAfter, ctrOk_eq, condOk_eq, hflag]
  rcases Bool.eq_false_or_eq_true (boDecrementCtr bo) with hd | hd <;>
    rcases Bool.eq_false_or_eq_true (boConditionalBranch bo) with hc | hc <;>
    simp only [hd, hc, forall_const] at hzero htrue ⊢ <;> simp [hzero, htrue]

theorem runBranchOps_append (ops ops' : List BranchOp) (s : JitState) :
    runBranchOps (ops ++ ops') s = runBranchOps ops' (runBranchOps ops s) := List.foldl_append

/-- The last op, from a state whose `T1` says whether the branch is taken. -/
theorem genBranch_run (bo : BitVec 5) (tpc npc : Word) (s : JitState) (taken : Bool)
    (hflag : s.t1 ≠ 0 ↔ taken = true)
    (hone : (boConditionalBranch bo || boDecrementCtr bo) = false → taken = true) :
    ((genBranch bo tpc npc).run s).cpu =
      { s.cpu with pc := if taken then (if tpc ≠ 0xffffffff#32 then tpc else s.t0) else npc } := by
  unfold genBranch
  by_cases htwo : (boConditionalBranch bo || boDecrementCtr bo) = true
  · rw [if_pos htwo]
    by_cases htpc : tpc ≠ 0xffffffff#32
    · simp only [if_pos htpc, BranchOp.run, JitState.setPc, hflag]
    · simp only [if_neg htpc, BranchOp.run, JitState.setPc, hflag]
  · rw [if_neg htwo, hone (Bool.eq_false_iff.mpr htwo)]
    by_cases htpc : tpc ≠ 0xffffffff#32
    · simp only [if_pos htpc, BranchOp.run, JitState.setPc, if_true]
    · simp only [if_neg htpc, BranchOp.run, JitState.setPc, if_true]

/-- The code of `gen_bc`; with -1 for `tpc` the target is the one in `T0`. -/
theorem genBc_run (bo bi : BitVec 5) (tpc npc : Word) (s : JitState) :
    (runBranchOps (genBc bo bi tpc npc) s).cpu =
      { s.cpu with
        ctr := ctrAfter bo s.cpu.ctr
        pc := if ctrOk bo s.cpu.ctr && condOk bo (crTest s.cpu.regs.cr bi) then
          (if tpc ≠ 0xffffffff#32 then tpc else s.t0) else npc } := by
  -- the state at the op that prepares the branch
  obtain ⟨s', hrun, hcpu, ht0, hbit⟩ : ∃ s' : JitState,
      runBranchOps (if boConditionalBranch bo then [.loadT1Crb bi] else []) s = s' ∧
        s'.cpu = s.cpu ∧ s'.t0 = s.t0 ∧
        condOk bo (s'.t1 != 0) = condOk bo (crTest s.cpu.regs.cr bi) := by
    refine ⟨_, rfl, ?_⟩
    rcases Bool.eq_false_or_eq_true (boConditionalBranch bo) with hc | hc
    · simp only [hc, if_true]
      exact ⟨rfl, rfl, congrArg (condOk bo) (crb_ne_zero _ _)⟩
    · simp [hc, runBranchOps, condOk]
  obtain ⟨hflag, ht0', hcpu'⟩ := doPrepBranchBo_eq bo s'
  have hone : (boConditionalBranch bo || boDecrementCtr bo) = false →
      (ctrOk bo s.cpu.ctr && condOk bo (crTest s.cpu.regs.cr bi)) = true := by
    intro h
    obtain ⟨hc, hd⟩ := Bool.or_eq_false_iff.mp h
    simp [ctrOk, condOk, hc, hd]
  rw [hcpu, hbit] at hflag
  rw [genBc, runBranchOps_append, hrun]
  refine (genBranch_run bo tpc npc _ _ hflag hone).trans ?_
  rw [hcpu', ht0', hcpu, ht0]

theorem genLink_run (opcode npc : Word) (s : JitState) :
    runBranchOps (genLink opcode npc) s =
      { s with cpu := { s.cpu with lr := if lkField opcode then npc else s.cpu.lr } } := by
  unfold genLink
  split <;> simp_all [runBranchOps, BranchOp.run]

/-- A target of the form `x & -4` is not the mark for `T0`. -/
theorem aligned_ne (a : Word) : aligned a ≠ 0xffffffff#32 := by
  intro h
  have hbit := congrArg (BitVec.getLsbD · 0) h
  simp [aligned] at hbit

/-- The code for a branch to a register: `op` loads its target `v` into `T0`. -/
theorem genRegister_run (op : BranchOp) (v opcode npc : Word) (bo bi : BitVec 5) (s : JitState)
    (hop : op.run s = { s with t0 := v }) :
    (runBranchOps (op :: genLink opcode npc ++ genBc bo bi 0xffffffff#32 npc) s).cpu =
      { s.cpu with
        ctr := ctrAfter bo s.cpu.ctr
        lr := if lkField opcode then npc else s.cpu.lr
        pc := if ctrOk bo s.cpu.ctr && condOk bo (crTest s.cpu.regs.cr bi) then v else npc } := by
  have hrun : runBranchOps (op :: genLink opcode npc ++ genBc bo bi 0xffffffff#32 npc) s =
      runBranchOps (genBc bo bi 0xffffffff#32 npc)
        (runBranchOps (genLink opcode npc) { s with t0 := v }) := by
    rw [List.cons_append, ← hop, ← runBranchOps_append]
    rfl
  rw [hrun, genLink_run, genBc_run, if_neg (not_not.mpr rfl)]

/-- For every branch, opcode, processor state and address, the code leaves CTR and LR as the
interpreter does, and the guest goes on at the same address. -/
theorem branch_agrees (insn : BranchInsn) (dpc opcode : Word) (s : JitState)
    (hctr : insn = .bcctr → boDecrementCtr (boField opcode) = false) :
    let code := insn.compile dpc opcode
    let t := insn.execute opcode { s.cpu with pc := dpc }
    nextPc code s = t.pc ∧ (runBranchOps code.1 s).cpu.ctr = t.ctr ∧
      (runBranchOps code.1 s).cpu.lr = t.lr := by
  have halways : ctrOk boAlways s.cpu.ctr = true ∧ condOk boAlways true = true ∧
      condOk boAlways false = true ∧ ctrAfter boAlways s.cpu.ctr = s.cpu.ctr := by
    simp [ctrOk, condOk, ctrAfter, boAlways, boDecrementCtr, boConditionalBranch]
  obtain ⟨halwaysCtr, halwaysTrue, halwaysFalse, halwaysAfter⟩ := halways
  have halwaysCond (bit : Bool) : condOk boAlways bit = true := by
    cases bit
    · exact halwaysFalse
    · exact halwaysTrue
  cases insn with
  | b =>
    obtain ⟨hpc, hctr', hlr⟩ := executeBranch_eq Cpu.pc (fun _ => boAlways) operandLI aaField lkField
      opcode { s.cpu with pc := dpc }
    simp only [BranchInsn.execute, BranchInsn.compile, hpc, hctr', hlr, halwaysCtr, halwaysCond,
      halwaysAfter, Bool.and_self, if_true]
    by_cases hlk : lkField opcode = true
    · simp only [if_pos hlk, nextPc, Option.getD_none, runBranchOps, List.foldl_cons]
      rw [← runBranchOps, genBc_run]
      simp only [BranchOp.run, halwaysCtr, halwaysCond, halwaysAfter, Bool.and_self, if_true,
        if_pos (aligned_ne _), and_self]
    · simp [if_neg hlk, nextPc, runBranchOps]
  | bc =>
    obtain ⟨hpc, hctr', hlr⟩ := executeBranch_eq Cpu.pc boField operandBD aaField lkField opcode
      { s.cpu with pc := dpc }
    simp only [BranchInsn.execute, BranchInsn.compile, hpc, hctr', hlr]
    by_cases hone : (!boConditionalBranch (boField opcode) && !boDecrementCtr (boField opcode)) = true
    · have htests := hone
      simp only [Bool.and_eq_true, Bool.not_eq_true'] at htests
      simp only [nextPc, Option.getD_some, genLink_run, ctrOk, condOk, ctrAfter,
        htests.1, htests.2, Bool.not_false, Bool.true_or, Bool.and_self, if_true,
        Bool.false_eq_true, if_false, and_self]
    · simp only [if_neg hone, nextPc, Option.getD_none, runBranchOps_append, genLink_run, genBc_run,
        if_pos (aligned_ne _), and_self]
  | bcctr =>
    obtain ⟨hpc, hctr', hlr⟩ := executeBranch_eq Cpu.ctr boField (fun _ => 0) (fun _ => false) lkField
      opcode { s.cpu with pc := dpc }
    have hkeep : ctrAfter (boField opcode) s.cpu.ctr = s.cpu.ctr := by simp [ctrAfter, hctr rfl]
    simp only [BranchInsn.execute, BranchInsn.compile, hpc, hctr', hlr, hkeep, nextPc,
      Option.getD_none]
    rw [genRegister_run _ (aligned s.cpu.ctr) _ _ _ _ _ rfl]
    simp [hkeep]
  | bclr =>
    obtain ⟨hpc, hctr', hlr⟩ := executeBranch_eq Cpu.lr boField (fun _ => 0) (fun _ => false) lkField
      opcode { s.cpu with pc := dpc }
    simp only [BranchInsn.execute, BranchInsn.compile, hpc, hctr', hlr, nextPc, Option.getD_none]
    rw [genRegister_run _ (aligned s.cpu.lr) _ _ _ _ _ rfl]
    simp

/-- `bdnzl` over CTR 0: the count wraps, the branch is taken and LR is set. -/
theorem branch_agrees_bdnzl :
    let s : JitState := ⟨.initRegisters fun _ => 0, 0, 0, 0⟩
    nextPc (BranchInsn.bc.compile 0x1000#32 0x42000009#32) s = 0x1008#32 ∧
      (runBranchOps (BranchInsn.bc.compile 0x1000#32 0x42000009#32).1 s).cpu.lr = 0x1004#32 := by
  intro s
  obtain ⟨hpc, -, hlr⟩ := branch_agrees .bc 0x1000#32 0x42000009#32 s nofun
  rw [hpc, hlr]
  decide

end SheepShear.Kpx
