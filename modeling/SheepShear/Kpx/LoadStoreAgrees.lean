import SheepShear.Kpx.LoadStore

/-!
# Where the generated loads and stores agree with the interpreter

One lemma for the accesses of `do_load` and `do_store`, one for the multiple
transfers and one for the reservation.
-/

namespace SheepShear.Kpx

theorem runMemOps_append (wraps : Wraps) (ops ops' : List MemOp) (s : JitState) :
    runMemOps wraps (ops ++ ops') s = (runMemOps wraps ops s).bind (runMemOps wraps ops') :=
  List.foldlM_append

theorem runMemOps_cons (wraps : Wraps) (op : MemOp) (ops : List MemOp) (s : JitState) :
    runMemOps wraps (op :: ops) s = (op.run wraps s).bind (runMemOps wraps ops) :=
  List.foldlM_cons

@[simp] theorem runMemOps_nil (wraps : Wraps) (s : JitState) : runMemOps wraps [] s = some s := rfl

theorem runMemOps_single (wraps : Wraps) (op : MemOp) (s : JitState) :
    runMemOps wraps [op] s = op.run wraps s := by
  rw [runMemOps_cons]
  cases op.run wraps s <;> rfl

-- ---------------------------------------------------------------------------
-- Immediates
-- ---------------------------------------------------------------------------

theorem memAdd32T1Im_run (wraps : Wraps) (value : Word) (s : JitState) :
    runMemOps wraps (memAdd32T1Im value) s = some { s with t1 := s.t1 + value } := by
  unfold memAdd32T1Im
  split_ifs <;> simp_all [runMemOps_single, MemOp.run]

theorem memAdd32T0Im_run (wraps : Wraps) (value : Word) (s : JitState) :
    runMemOps wraps (memAdd32T0Im value) s = some { s with t0 := s.t0 + value } := by
  unfold memAdd32T0Im
  split_ifs <;> simp_all [runMemOps_single, MemOp.run]

theorem memMov32T0Im_run (wraps : Wraps) (value : Word) (s : JitState) :
    runMemOps wraps (memMov32T0Im value) s = some { s with t0 := value } := by
  unfold memMov32T0Im
  split_ifs <;> simp_all [runMemOps_single, MemOp.run]

-- ---------------------------------------------------------------------------
-- do_load and do_store
-- ---------------------------------------------------------------------------

/-- The register part of the address. -/
def Access.base (acc : Access) (opcode : Word) (s : Cpu) : Word :=
  if rAField opcode = 0 ∧ ¬acc.update then 0 else s.regs.gpr (rAField opcode)

/-- What is added to it. -/
def Access.displacement (acc : Access) (opcode : Word) (s : Cpu) : Word :=
  if acc.indexed then s.regs.gpr (rBField opcode) else dValue opcode

/-- Whether the sum is a guest address. -/
def Access.InRange (wraps : Wraps) (acc : Access) (opcode : Word) (s : Cpu) : Prop :=
  acc.indexed = true ∨ wraps = true ∨
    0 ≤ ((acc.base opcode s).toNat : Int) + (dValue opcode).toInt ∧
      ((acc.base opcode s).toNat : Int) + (dValue opcode).toInt < 2 ^ 32

/-- The processor after the access at `ea`. -/
def Access.effect (acc : Access) (opcode ea : Word) (s : Cpu) : Cpu :=
  let s : Cpu :=
    if acc.load then
      s.setGpr (rDField opcode) (extendLoad acc.size acc.sign (vmRead s.mem ea acc.size))
    else { s with mem := vmWrite s.mem ea (s.regs.gpr (rSField opcode)) acc.size }
  if acc.update then s.setGpr (rAField opcode) ea else s

theorem effectiveAddress_eq (wraps : Wraps) (acc : Access) (opcode : Word) (s : Cpu) (t2 : Word)
    (ht2 : acc.indexed = true → t2 = s.regs.gpr (rBField opcode)) :
    (acc.InRange wraps opcode s →
      effectiveAddress wraps (acc.base opcode s) t2 (acc.offset opcode) =
        some (acc.base opcode s + acc.displacement opcode s)) ∧
    (¬ acc.InRange wraps opcode s →
      effectiveAddress wraps (acc.base opcode s) t2 (acc.offset opcode) = none) := by
  unfold Access.InRange Access.offset Access.displacement
  cases hx : acc.indexed with
  | true => simp [effectiveAddress, ht2 hx]
  | false =>
    by_cases hd : dValue opcode = 0
    · have hlt := (acc.base opcode s).isLt
      have hrange : ((acc.base opcode s).toNat : Int) < 2 ^ 32 := by exact_mod_cast hlt
      refine ⟨fun _ => by simp [hd, effectiveAddress], fun h => absurd ?_ h⟩
      rw [hd]
      exact .inr (.inr ⟨by simp, by simpa using hrange⟩)
    · constructor
      · intro h
        rcases h with h | h | ⟨h, h'⟩
        · cases h
        · simp only [hd, if_false, Bool.false_eq_true, effectiveAddress, h, Bool.true_or, if_true]
        · simp only [hd, if_false, Bool.false_eq_true, effectiveAddress]
          rw [if_pos]
          simp only [Bool.or_eq_true, Bool.and_eq_true, decide_eq_true_eq]
          exact .inr ⟨h, h'⟩
      · intro h
        simp only [hd, if_false, Bool.false_eq_true, effectiveAddress]
        rw [if_neg]
        simp only [Bool.or_eq_true, Bool.and_eq_true, decide_eq_true_eq]
        rintro (h' | h')
        · exact h (.inr (.inl h'))
        · exact h (.inr (.inr h'))

theorem access_run (wraps : Wraps) (acc : Access) (opcode : Word) (s : JitState) :
    (acc.InRange wraps opcode s.cpu → ∃ t, runMemOps wraps (acc.compile opcode) s = some t ∧
      t.cpu = acc.effect opcode (acc.base opcode s.cpu + acc.displacement opcode s.cpu) s.cpu) ∧
    (¬ acc.InRange wraps opcode s.cpu → runMemOps wraps (acc.compile opcode) s = none) := by
  -- the temporaries at the access
  obtain ⟨t2, ht2, hhead⟩ : ∃ t2, (acc.indexed = true → t2 = s.cpu.regs.gpr (rBField opcode)) ∧
      runMemOps wraps
        ([if rAField opcode = 0 ∧ ¬acc.update then .mov32T1Zero else .loadT1Gpr (rAField opcode)] ++
          (if acc.indexed then [.loadT2Gpr (rBField opcode)] else [])) s =
        some { s with t1 := acc.base opcode s.cpu, t2 } := by
    have hbase : MemOp.run wraps s
        (if rAField opcode = 0 ∧ ¬acc.update then .mov32T1Zero else .loadT1Gpr (rAField opcode)) =
        some { s with t1 := acc.base opcode s.cpu } := by
      unfold Access.base
      split_ifs <;> rfl
    rw [runMemOps_append, runMemOps_single, hbase]
    cases hx : acc.indexed with
    | true => exact ⟨_, fun _ => rfl, rfl⟩
    | false => exact ⟨s.t2, nofun, rfl⟩
  obtain ⟨hin, hout⟩ := effectiveAddress_eq wraps acc opcode s.cpu t2 ht2
  -- the update, from any state that still has the address in the temporaries
  have htail (cpu : Cpu) (t0 : Word) : ∃ t1, runMemOps wraps
      (if acc.update then
        (if acc.indexed then [.add32T1T2] else memAdd32T1Im (dValue opcode)) ++
          [.storeT1Gpr (rAField opcode)]
      else []) ⟨cpu, t0, acc.base opcode s.cpu, t2⟩ = some
        ⟨if acc.update then cpu.setGpr (rAField opcode)
            (acc.base opcode s.cpu + acc.displacement opcode s.cpu) else cpu, t0, t1, t2⟩ := by
    unfold Access.displacement
    cases acc.update with
    | false => exact ⟨_, rfl⟩
    | true =>
      cases hx : acc.indexed with
      | true => exact ⟨_, by rw [← ht2 hx]; rfl⟩
      | false =>
        refine ⟨acc.base opcode s.cpu + dValue opcode, ?_⟩
        simp only [if_true, Bool.false_eq_true, if_false, runMemOps_append, memAdd32T1Im_run]
        rfl
  have hrun : runMemOps wraps (acc.compile opcode) s =
      (runMemOps wraps (if acc.load then
          [.loadT0 acc.size acc.sign (acc.offset opcode), .storeT0Gpr (rDField opcode)]
        else [.loadT0Gpr (rSField opcode), .storeT0 acc.size (acc.offset opcode)])
        { s with t1 := acc.base opcode s.cpu, t2 }).bind (runMemOps wraps
          (if acc.update then
            (if acc.indexed then [.add32T1T2] else memAdd32T1Im (dValue opcode)) ++
              [.storeT1Gpr (rAField opcode)]
          else [])) := by
    rw [Access.compile, runMemOps_append, runMemOps_append, hhead]
    rfl
  constructor
  · intro hrange
    rw [hrun]
    unfold Access.effect
    cases acc.load with
    | true =>
      simp only [if_true, runMemOps_cons, MemOp.run, hin hrange, Option.map_some, Option.bind_some,
        runMemOps_nil]
      obtain ⟨t1, ht1⟩ := htail _ _
      exact ⟨_, ht1, rfl⟩
    | false =>
      simp only [Bool.false_eq_true, if_false, runMemOps_cons, MemOp.run, hin hrange,
        Option.map_some, Option.bind_some, runMemOps_nil]
      obtain ⟨t1, ht1⟩ := htail _ _
      exact ⟨_, ht1, rfl⟩
  · intro hrange
    rw [hrun]
    cases acc.load <;>
      simp [runMemOps_cons, MemOp.run, hout hrange]

theorem extendLoad_vmRead (mem : Mem) (ea : Word) (size : Size) :
    extendLoad size false (vmRead mem ea size) = vmRead mem ea size := by
  cases size <;> simp [extendLoad, vmRead]

/-- The action of the interpreter with the operands of an access. -/
def Access.action (acc : Access) : Word → Cpu → Cpu :=
  executeLoadstore (if acc.sign then opSignExtend16 else id)
    (if acc.update then operandRA else operandRAOr0)
    (if acc.indexed then operandRB else operandD) acc.load acc.size acc.update false

theorem execute_eq_action (insn : MemInsn) (acc : Access) (h : insn.access = some acc) :
    insn.execute = acc.action := by
  cases insn <;> cases h <;> rfl

theorem sign_two (insn : MemInsn) (acc : Access) (h : insn.access = some acc) :
    acc.sign = true → acc.size = .two := by
  cases insn <;> cases h <;> decide

theorem action_eq_effect (acc : Access) (hsign : acc.sign = true → acc.size = .two) (opcode : Word)
    (s : Cpu) : acc.action opcode s =
      (acc.effect opcode (acc.base opcode s + acc.displacement opcode s) s).incrementPc 4 := by
  have hRA : (if acc.update then operandRA else operandRAOr0) s.regs opcode = acc.base opcode s := by
    unfold Access.base operandRA operandRAOr0
    cases acc.update <;> simp
  have hRB : (if acc.indexed then operandRB else operandD) s.regs opcode =
      acc.displacement opcode s := by
    unfold Access.displacement
    cases acc.indexed <;> rfl
  have hop (ea : Word) : (if acc.sign then opSignExtend16 else id) (vmRead s.mem ea acc.size) =
      extendLoad acc.size acc.sign (vmRead s.mem ea acc.size) := by
    cases hs : acc.sign with
    | false => exact (extendLoad_vmRead s.mem ea acc.size).symm
    | true =>
      rw [hsign hs]
      rfl
  simp only [Access.action, executeLoadstore, Access.effect, hRA, hRB, hop, Bool.false_eq_true,
    if_false, operandRS]

theorem execute_access (insn : MemInsn) (acc : Access) (h : insn.access = some acc) (opcode : Word)
    (s : Cpu) : insn.execute opcode s =
      (acc.effect opcode (acc.base opcode s + acc.displacement opcode s) s).incrementPc 4 := by
  rw [execute_eq_action insn acc h]
  exact action_eq_effect acc (sign_two insn acc h) opcode s

theorem access_agrees_iff (wraps : Wraps) (insn : MemInsn) (acc : Access)
    (h : insn.access = some acc) (opcode : Word) (s : JitState) :
    insn.Agrees wraps opcode s ↔ acc.InRange wraps opcode s.cpu := by
  have hcompile : insn.compile opcode = acc.compile opcode := by
    simp only [MemInsn.compile, h]
  obtain ⟨hin, hout⟩ := access_run wraps acc opcode s
  unfold MemInsn.Agrees
  rw [hcompile, execute_access insn acc h]
  constructor
  · rintro ⟨t, hrun, -⟩
    by_contra hrange
    rw [hout hrange] at hrun
    cases hrun
  · intro hrange
    obtain ⟨t, hrun, hcpu⟩ := hin hrange
    exact ⟨t, hrun, by rw [hcpu]; exact ⟨rfl, rfl, rfl, rfl⟩⟩

-- ---------------------------------------------------------------------------
-- lwarx and stwcx.
-- ---------------------------------------------------------------------------

theorem compileReserveAddress_run (wraps : Wraps) (opcode : Word) (s : JitState) :
    ∃ t2, runMemOps wraps (compileReserveAddress opcode) s = some
      { s with t1 := operandRAOr0 s.cpu.regs opcode + operandRB s.cpu.regs opcode, t2 } := by
  unfold compileReserveAddress operandRAOr0 operandRB
  by_cases hrA : rAField opcode = 0
  · exact ⟨s.t2, by simp [hrA, runMemOps_cons, MemOp.run]⟩
  · refine ⟨s.cpu.regs.gpr (rBField opcode), ?_⟩
    rw [if_neg hrA, if_pos hrA]
    rfl

theorem lwarx_agrees (wraps : Wraps) (opcode : Word) (s : JitState) :
    MemInsn.lwarx.Agrees wraps opcode s := by
  obtain ⟨t2, ht2⟩ := compileReserveAddress_run wraps opcode s
  unfold MemInsn.Agrees
  simp only [MemInsn.compile, MemInsn.access, runMemOps_append, ht2, Option.bind_some,
    runMemOps_cons, MemOp.run, runMemOps_nil]
  exact ⟨_, rfl, rfl, rfl, rfl, rfl⟩

/-- The two ways to write the field of CR. -/
theorem stwcx_cr (cr : Word) (so eq : Bool) :
    crSetSo (if eq then crSetField (cr &&& ~~~(0xf#32 <<< crShift 0)) 0 standaloneCrEq
        else cr &&& ~~~(0xf#32 <<< crShift 0)) 0 so =
      ((cr &&& ~~~0xf0000000#32) ||| ((if so then 1#32 else 0#32) <<< 28)) |||
        (if eq then 0x20000000#32 else 0#32) := by
  apply BitVec.eq_of_getLsbD_eq
  intro i hi
  simp only [crSetSo, crSetField, crShift, standaloneCrEq, standaloneCrSo]
  cases so <;> cases eq <;> simp [hi] <;> interval_cases i <;> simp

theorem stwcx_agrees (wraps : Wraps) (opcode : Word) (s : JitState) :
    MemInsn.stwcx.Agrees wraps opcode s := by
  obtain ⟨t2, ht2⟩ := compileReserveAddress_run wraps opcode s
  unfold MemInsn.Agrees
  simp only [MemInsn.compile, MemInsn.access, runMemOps_append, ht2, Option.bind_some,
    runMemOps_cons, MemOp.run, runMemOps_nil, MemInsn.execute]
  refine ⟨_, rfl, ?_⟩
  have hset := stwcx_cr s.cpu.regs.cr s.cpu.regs.xer.so true
  have hclear := stwcx_cr s.cpu.regs.cr s.cpu.regs.xer.so false
  simp only [if_true, Bool.false_eq_true, if_false, BitVec.or_zero] at hset hclear
  unfold opStwcxT0T1 executeStwcx
  by_cases hvalid : s.cpu.reserveValid = true
  · by_cases haddr : s.cpu.reserveAddr =
        operandRAOr0 s.cpu.regs opcode + operandRB s.cpu.regs opcode
    · simp only [Cpu.setCr, hvalid, haddr, if_true, hset]
      exact ⟨rfl, rfl, rfl, rfl⟩
    · simp only [Cpu.setCr, hvalid, haddr, if_true, if_false, hclear]
      exact ⟨rfl, rfl, rfl, rfl⟩
  · simp only [Cpu.setCr, hvalid, Bool.false_eq_true, if_false, hclear]
    exact ⟨rfl, rfl, rfl, rfl⟩

-- ---------------------------------------------------------------------------
-- lmw and stmw
-- ---------------------------------------------------------------------------

/-- The unrolled ops are the loop. -/
theorem doMultiple_cpu (ld : Bool) (left n : Nat) (s : JitState) :
    (doMultiple ld left n s).cpu = loadstoreMultipleLoop ld left n s.t0 s.cpu := by
  induction left generalizing n s with
  | zero => rfl
  | succ left ih =>
    cases left with
    | zero => rfl
    | succ left => exact ih (n + 1) { s with cpu := transferWord ld n s.t0 s.cpu, t0 := s.t0 + 4 }

theorem compileMultiple_run (wraps : Wraps) (ld : Bool) (opcode : Word) (s : JitState) (r : BitVec 5)
    (hr : r = if ld then rDField opcode else rSField opcode) :
    ∃ t, runMemOps wraps (compileMultiple ld opcode) s = some t ∧
      t.cpu = loadstoreMultipleLoop ld (32 - r.toNat) r.toNat (multipleAddress opcode s.cpu) s.cpu := by
  have haddr : runMemOps wraps (if rAField opcode = 0 then memMov32T0Im (dValue opcode)
      else .loadT0Gpr (rAField opcode) :: memAdd32T0Im (dValue opcode)) s =
      some { s with t0 := multipleAddress opcode s.cpu } := by
    unfold multipleAddress operandRAOr0
    by_cases hrA : rAField opcode = 0
    · rw [if_pos hrA, if_neg (not_not.mpr hrA), memMov32T0Im_run, zero_add]
    · rw [if_neg hrA, if_pos hrA, runMemOps_cons]
      exact memAdd32T0Im_run wraps (dValue opcode) _
  rw [compileMultiple, runMemOps_append, haddr, ← hr, Option.bind_some, runMemOps_single, genMultiple]
  split_ifs
  · exact ⟨_, rfl, doMultiple_cpu ld _ _ _⟩
  · exact ⟨_, rfl, rfl⟩

/-- The word after the next. -/
theorem wordAddress_succ (ea : Word) (i : Nat) :
    ea + .ofNat 32 (4 * (i + 1)) = ea + 4 + .ofNat 32 (4 * i) := by
  rw [mul_add, add_comm (4 * i), BitVec.ofNat_add, ← add_assoc]
  rfl

/-- The registers after a run of loads, from `r` on. -/
def loadedGpr (left r : Nat) (ea : Word) (s : Cpu) (k : BitVec 5) : Word :=
  if r ≤ k.toNat ∧ k.toNat < r + left then s.mem.readInt32 (ea + .ofNat 32 (4 * (k.toNat - r)))
  else s.regs.gpr k

theorem loadLoop_eq (left r : Nat) (ea : Word) (s : Cpu) (hr : r + left ≤ 32) :
    loadstoreMultipleLoop true left r ea s =
      { s with regs := { s.regs with gpr := loadedGpr left r ea s } } := by
  induction left generalizing r ea s with
  | zero =>
    have hgpr : loadedGpr 0 r ea s = s.regs.gpr := by
      funext k
      exact if_neg (by omega)
    rw [hgpr]
    rfl
  | succ left ih =>
    rw [loadstoreMultipleLoop, ih (r + 1) (ea + 4) _ (by omega)]
    have hgpr : loadedGpr left (r + 1) (ea + 4) (transferWord true r ea s) =
        loadedGpr (left + 1) r ea s := by
      funext k
      have hk : (k = .ofNat 5 r) ↔ k.toNat = r := by
        rw [← BitVec.toNat_inj, BitVec.toNat_ofNat, Nat.mod_eq_of_lt (by omega)]
      simp only [loadedGpr, transferWord, if_true, Cpu.setGpr, Regs.setGpr, hk]
      by_cases hlow : k.toNat = r
      · simp [hlow]
      · by_cases hin : r + 1 ≤ k.toNat ∧ k.toNat < r + 1 + left
        · have hk' : k.toNat - r = k.toNat - (r + 1) + 1 := by omega
          rw [if_pos hin, if_pos (by omega), hk', wordAddress_succ]
        · rw [if_neg hin, if_neg hlow, if_neg (by omega)]
    rw [hgpr]
    rfl

theorem loadLoop_same_iff (r : BitVec 5) (ea : Word) (s : Cpu) :
    SameData (loadstoreMultipleLoop true (32 - r.toNat) r.toNat ea s) s ↔
      HoldsWords r.toNat ea s := by
  rw [loadLoop_eq _ _ _ _ (by have := r.isLt; omega)]
  constructor
  · rintro ⟨hregs, -, -, -⟩ i hi
    have hgpr := congrFun (congrArg Regs.gpr hregs) (.ofNat 5 (r.toNat + i))
    have hk : (BitVec.ofNat 5 (r.toNat + i)).toNat = r.toNat + i := by
      rw [BitVec.toNat_ofNat, Nat.mod_eq_of_lt hi]
    simp only [loadedGpr, hk] at hgpr
    rw [if_pos (by omega), Nat.add_sub_cancel_left] at hgpr
    exact hgpr.symm
  · intro h
    have hgpr : loadedGpr (32 - r.toNat) r.toNat ea s = s.regs.gpr := by
      funext k
      unfold loadedGpr
      split_ifs with hk
      · have hword := h (k.toNat - r.toNat) (by omega)
        rw [Nat.add_sub_cancel' hk.1, BitVec.ofNat_toNat, BitVec.setWidth_eq] at hword
        exact hword.symm
      · rfl
    rw [hgpr]
    exact ⟨rfl, rfl, rfl, rfl⟩

/-- Stores from `d` bytes past a word on leave the word. -/
theorem storeLoop_readInt32_far (left r d : Nat) (ea : Word) (s : Cpu) (hd : 4 ≤ d)
    (hleft : d + 4 * left ≤ 2 ^ 32 - 4) :
    (loadstoreMultipleLoop false left r (ea + .ofNat 32 d) s).mem.readInt32 ea =
      s.mem.readInt32 ea := by
  induction left generalizing r d s with
  | zero => rfl
  | succ left ih =>
    have hnext : ea + BitVec.ofNat 32 d + 4 = ea + BitVec.ofNat 32 (d + 4) := by
      rw [add_assoc, BitVec.ofNat_add]
      rfl
    rw [loadstoreMultipleLoop, hnext, ih (r + 1) (d + 4) _ (by omega) (by omega)]
    have htoNat : (BitVec.ofNat 32 d).toNat = d := by
      rw [BitVec.toNat_ofNat, Nat.mod_eq_of_lt (by omega)]
    refine Mem.readInt32_writeInt32_of_far s.mem _ ?_ ?_
    · rw [sub_add_cancel_left, BitVec.toNat_neg, htoNat, Nat.mod_eq_of_lt (by omega)]
      omega
    · rw [add_sub_cancel_left, htoNat]
      exact hd

theorem storeLoop_readInt32 (left r : Nat) (ea : Word) (s : Cpu) (hr : r + left ≤ 32) (i : Nat)
    (hi : i < left) :
    (loadstoreMultipleLoop false left r ea s).mem.readInt32 (ea + .ofNat 32 (4 * i)) =
      s.regs.gpr (.ofNat 5 (r + i)) := by
  induction left generalizing r ea s i with
  | zero => omega
  | succ left ih =>
    rw [loadstoreMultipleLoop]
    cases i with
    | zero =>
      have hfar := storeLoop_readInt32_far left (r + 1) 4 ea (transferWord false r ea s) le_rfl
        (by omega)
      rw [Nat.mul_zero, BitVec.add_zero]
      refine hfar.trans ?_
      exact Mem.readInt32_writeInt32_self _ _ _
    | succ i =>
      rw [wordAddress_succ, ih (r + 1) (ea + 4) _ (by omega) i (by omega), Nat.add_right_comm, Nat.add_assoc r]
      rfl

/-- Nothing is stored that is not there. -/
theorem storeLoop_of_holds (left r : Nat) (ea : Word) (s : Cpu)
    (h : ∀ i < left, s.regs.gpr (.ofNat 5 (r + i)) = s.mem.readInt32 (ea + .ofNat 32 (4 * i))) :
    loadstoreMultipleLoop false left r ea s = s := by
  induction left generalizing r ea with
  | zero => rfl
  | succ left ih =>
    have hfirst : transferWord false r ea s = s := by
      have hword := h 0 (by omega)
      rw [Nat.mul_zero, Nat.add_zero, BitVec.add_zero] at hword
      simp only [transferWord, Bool.false_eq_true, if_false, hword, Mem.writeInt32_readInt32_self]
    rw [loadstoreMultipleLoop, hfirst]
    refine ih (r + 1) (ea + 4) fun i hi => ?_
    have hword := h (i + 1) (by omega)
    rwa [wordAddress_succ, Nat.add_comm i, ← Nat.add_assoc] at hword

theorem storeLoop_same_iff (r : BitVec 5) (ea : Word) (s : Cpu) :
    SameData (loadstoreMultipleLoop false (32 - r.toNat) r.toNat ea s) s ↔
      HoldsWords r.toNat ea s := by
  have hlt := r.isLt
  constructor
  · rintro ⟨-, -, -, hmem⟩ i hi
    rw [← storeLoop_readInt32 (32 - r.toNat) r.toNat ea s (by omega) i (by omega), hmem]
  · intro h
    rw [storeLoop_of_holds _ _ _ _ fun i hi => h i (by omega)]
    exact ⟨rfl, rfl, rfl, rfl⟩

/-- At an address that is not aligned the interpreter does nothing. -/
theorem multiple_agrees_iff (wraps : Wraps) (ld : Bool) (insn : MemInsn) (opcode : Word)
    (s : JitState) (r : BitVec 5) (hr : r = if ld then rDField opcode else rSField opcode)
    (hcompile : insn.compile opcode = compileMultiple ld opcode)
    (hexecute : insn.execute opcode s.cpu =
      executeLoadstoreMultiple operandRAOr0 operandD ld opcode s.cpu) :
    insn.Agrees wraps opcode s ↔ multipleAddress opcode s.cpu &&& 3#32 = 0 ∨
      HoldsWords r.toNat (multipleAddress opcode s.cpu) s.cpu := by
  obtain ⟨t, hrun, hcpu⟩ := compileMultiple_run wraps ld opcode s r hr
  have hsame : SameData t.cpu s.cpu ↔ HoldsWords r.toNat (multipleAddress opcode s.cpu) s.cpu := by
    rw [hcpu]
    cases ld with
    | true => exact loadLoop_same_iff r _ s.cpu
    | false => exact storeLoop_same_iff r _ s.cpu
  have hiff : insn.Agrees wraps opcode s ↔ SameData t.cpu (insn.execute opcode s.cpu) := by
    unfold MemInsn.Agrees
    rw [hcompile, hrun]
    simp
  have hr' : (if ld then (rDField opcode).toNat else (rSField opcode).toNat) = r.toNat := by
    rw [hr]
    split_ifs <;> rfl
  rw [hiff, hexecute, executeLoadstoreMultiple]
  by_cases halign : multipleAddress opcode s.cpu &&& 3#32 = 0
  · refine iff_of_true ?_ (.inl halign)
    have hloop : SameData t.cpu (Cpu.incrementPc (loadstoreMultipleLoop ld (32 - r.toNat) r.toNat
        (multipleAddress opcode s.cpu) s.cpu) 4) := by
      rw [hcpu]
      exact ⟨rfl, rfl, rfl, rfl⟩
    rw [← hr'] at hloop
    exact (if_neg (not_not.mpr halign)).symm ▸ hloop
  · have hskip : SameData t.cpu (s.cpu.incrementPc 4) ↔ SameData t.cpu s.cpu :=
      ⟨fun h => ⟨h.regs, h.reserveValid, h.reserveAddr, h.mem⟩,
        fun h => ⟨h.regs, h.reserveValid, h.reserveAddr, h.mem⟩⟩
    rw [or_iff_right halign, ← hsame, ← hskip]
    exact iff_of_eq (congrArg (SameData t.cpu) (if_pos halign))

-- ---------------------------------------------------------------------------
-- Every load and store
-- ---------------------------------------------------------------------------

theorem reversed_agrees (wraps : Wraps) (insn : MemInsn) (opcode : Word) (s : JitState)
    (h : insn.compile opcode = [.invoke insn.execute opcode]) : insn.Agrees wraps opcode s := by
  refine ⟨{ s with cpu := insn.execute opcode s.cpu }, ?_, rfl, rfl, rfl, rfl⟩
  rw [h, runMemOps_single]
  rfl

theorem loadstore_agrees_iff (wraps : Wraps) (insn : MemInsn) (opcode : Word) (s : JitState) :
    insn.Agrees wraps opcode s ↔ insn.HoldsWhen wraps opcode s.cpu := by
  cases hacc : insn.access with
  | some acc =>
    rw [access_agrees_iff wraps insn acc hacc]
    unfold MemInsn.HoldsWhen
    simp only [hacc]
    rfl
  | none =>
    cases insn
    case lmw => exact multiple_agrees_iff wraps true .lmw opcode s _ rfl rfl rfl
    case stmw => exact multiple_agrees_iff wraps false .stmw opcode s _ rfl rfl rfl
    case lwarx => exact iff_of_true (lwarx_agrees wraps opcode s) trivial
    case stwcx => exact iff_of_true (stwcx_agrees wraps opcode s) trivial
    case lhbrx | lwbrx | sthbrx | stwbrx =>
      exact iff_of_true (reversed_agrees wraps _ opcode s rfl) trivial
    all_goals exact nomatch hacc

/-- `lmw r31,1(0)` over a memory of ones. -/
def unalignedState : JitState := ⟨.initRegisters fun _ => 1, 0, 0, 0⟩

/-- The interpreter skips the load, the generated code does it. -/
theorem lmw_unaligned_differs :
    ¬ ∀ (wraps : Wraps) (insn : MemInsn) (opcode : Word) (s : JitState),
      insn.Agrees wraps opcode s := by
  intro h
  obtain ⟨t, hrun, hregs, -, -, -⟩ := h true .lmw 0xbbe00001#32 unalignedState
  have hloaded : (runMemOps true (MemInsn.lmw.compile 0xbbe00001#32) unalignedState).map
      (·.cpu.regs.gpr 31) = some 0x01010101#32 := by decide +kernel
  have hkept : (MemInsn.lmw.execute 0xbbe00001#32 unalignedState.cpu).regs.gpr 31 = 0#32 := by
    decide +kernel
  rw [hrun, Option.map_some, hregs, hkept] at hloaded
  cases hloaded

end SheepShear.Kpx
