import SheepShear.Kpx.Integer

/-!
# The translator agrees with the interpreter

Each op leaves an outcome in `T0` and XER; the generators load its operands,
store it and record it. Every sequence that `compile_block` generates for an
integer instruction so leaves the registers the interpreter leaves, and these
are the exact ones.
-/

namespace SheepShear.Kpx

open Word

-- ---------------------------------------------------------------------------
-- Runs of ops
-- ---------------------------------------------------------------------------

@[simp] theorem runOps_nil (s : DyngenState) : runOps [] s = s := rfl

@[simp] theorem runOps_cons (op : DyngenOp) (ops : List DyngenOp) (s : DyngenState) :
    runOps (op :: ops) s = runOps ops (op.run s) := rfl

@[simp] theorem runOps_append (ops ops' : List DyngenOp) (s : DyngenState) :
    runOps (ops ++ ops') s = runOps ops' (runOps ops s) := List.foldl_append ..

theorem recordCr0T0_eq (s : DyngenState) :
    s.recordCr0T0 = { s with regs := s.regs.recordCr0 s.t0 } := by
  have hso : s.soBit = if s.regs.xer.so then 1 else 0 := rfl
  have hmask : ∀ c : Word,
      (s.regs.cr &&& ~~~0xf0000000#32) ||| (s.soBit <<< 28) ||| (c <<< 28) =
        crSetField s.regs.cr 0 (c ||| s.soBit) := by
    intro c
    rw [crSetField, BitVec.shiftLeft_or_distrib, BitVec.or_assoc, BitVec.or_comm (c <<< _)]
    rfl
  rw [Regs.recordCr0, recordCr_eq, ← crSetField_crNibble, DyngenState.recordCr0T0]
  rcases lt_trichotomy s.t0.toInt 0 with h | h | h
  · rw [compare_lt_iff_lt.mpr h]
    simp only [if_pos h]
    rw [show 0x80000000#32 = 8#32 <<< 28 from rfl, hmask]
    rfl
  · rw [h]
    simp only [lt_irrefl, if_false]
    rw [show 0x20000000#32 = 2#32 <<< 28 from rfl, hmask]
    rfl
  · rw [compare_gt_iff_gt.mpr h]
    simp only [if_neg h.not_gt, if_pos h]
    rw [show 0x40000000#32 = 4#32 <<< 28 from rfl, hmask]
    rfl

theorem runOps_genRecord (opcode : Word) (s : DyngenState) :
    runOps (genRecord opcode) s =
      { s with regs := if rcField opcode then s.regs.recordCr0 s.t0 else s.regs } := by
  rw [genRecord]
  cases rcField opcode with
  | true => exact recordCr0T0_eq s
  | false => rfl

/-- An op that leaves an outcome in `T0` and XER, and the other registers alone. -/
def Yields (ops : List DyngenOp) (s : DyngenState) (o : Outcome) : Prop :=
  (runOps ops s).t0 = o.value ∧
    (runOps ops s).regs = { s.regs with xer := s.regs.xer.after o }

theorem yields_nil (s : DyngenState) (v : Word) (h : s.t0 = v) : Yields [] s (.plain v) :=
  ⟨h, by rw [Outcome.plain, after_none]; rfl⟩

theorem yields_of_setT0 (op : DyngenOp) (s : DyngenState) {v w : Word} (h : op.run s = s.setT0 w)
    (hv : w = v) : Yields [op] s (.plain v) := by
  refine ⟨?_, ?_⟩
  · rw [runOps_cons, h]
    exact hv
  · rw [runOps_cons, h, Outcome.plain, after_none]
    rfl

theorem yields_of_setT0Xer (op : DyngenOp) (s : DyngenState) {o : Outcome} {p : Word × Xer}
    (h : op.run s = s.setT0Xer p) (hp : p = (o.value, s.regs.xer.after o)) : Yields [op] s o := by
  refine ⟨?_, ?_⟩
  · rw [runOps_cons, h, hp]
    rfl
  · rw [runOps_cons, h, hp]
    rfl

/-- The store and the record after the operation, in either order. -/
theorem yields_commit {ops : List DyngenOp} {s : DyngenState} {o : Outcome} (h : Yields ops s o)
    (dest : BitVec 5) (opcode : Word) :
    (runOps (ops ++ [.storeT0Gpr dest] ++ genRecord opcode) s).regs =
        o.commit dest (rcField opcode) s.regs ∧
      (runOps (ops ++ genRecord opcode ++ [.storeT0Gpr dest]) s).regs =
        o.commit dest (rcField opcode) s.regs := by
  obtain ⟨hv, hr⟩ := h
  constructor
  · simp only [commit_eq, runOps_append, runOps_genRecord, runOps_cons, runOps_nil, DyngenOp.run,
      hv, hr]
    cases rcField opcode <;> rfl
  · simp only [commit_eq, runOps_append, runOps_genRecord, runOps_cons, runOps_nil, DyngenOp.run,
      hv, hr]

theorem yields_store {ops : List DyngenOp} {s : DyngenState} {o : Outcome} (h : Yields ops s o)
    (dest : BitVec 5) :
    (runOps (ops ++ [.storeT0Gpr dest]) s).regs = o.commit dest false s.regs := by
  obtain ⟨hv, hr⟩ := h
  simp only [commit_eq, runOps_append, runOps_cons, runOps_nil, DyngenOp.run, hv, hr]
  rfl

theorem yields_record_store {ops : List DyngenOp} {s : DyngenState} {o : Outcome}
    (h : Yields ops s o) (dest : BitVec 5) :
    (runOps (ops ++ [.recordCr0T0, .storeT0Gpr dest]) s).regs = o.commit dest true s.regs := by
  obtain ⟨hv, hr⟩ := h
  simp only [commit_eq, runOps_append, runOps_cons, runOps_nil, DyngenOp.run, recordCr0T0_eq, hv,
    hr]
  rfl

theorem yields_store_record {ops : List DyngenOp} {s : DyngenState} {o : Outcome}
    (h : Yields ops s o) (dest : BitVec 5) :
    (runOps (ops ++ [.storeT0Gpr dest, .recordCr0T0]) s).regs = o.commit dest true s.regs := by
  obtain ⟨hv, hr⟩ := h
  simp only [commit_eq, runOps_append, runOps_cons, runOps_nil, DyngenOp.run, recordCr0T0_eq, hv,
    hr]
  rfl

-- ---------------------------------------------------------------------------
-- Generators
-- ---------------------------------------------------------------------------

section

variable {opcode t0 t1 : Word} {r : Regs}

theorem genArith_regs {op opO : DyngenOp} {ca : Bool} {o : Outcome}
    (h : Yields [op] ⟨r, r.gpr (rAField opcode), r.gpr (rBField opcode)⟩ (o.keep ca false))
    (hO : Yields [opO] ⟨r, r.gpr (rAField opcode), r.gpr (rBField opcode)⟩ (o.keep ca true)) :
    (runOps (genArith op opO opcode) ⟨r, t0, t1⟩).regs = xoForm opcode r ca o := by
  rw [genArith, xoForm]
  cases oeField opcode with
  | true => exact (yields_commit hO (rDField opcode) opcode).2
  | false => exact (yields_commit h (rDField opcode) opcode).2

theorem genArithUnary_regs {op opO : DyngenOp} {ca : Bool} {o : Outcome}
    (h : Yields [op] ⟨r, r.gpr (rAField opcode), t1⟩ (o.keep ca false))
    (hO : Yields [opO] ⟨r, r.gpr (rAField opcode), t1⟩ (o.keep ca true)) :
    (runOps (genArithUnary op opO opcode) ⟨r, t0, t1⟩).regs = xoForm opcode r ca o := by
  rw [genArithUnary, xoForm]
  cases oeField opcode with
  | true => exact (yields_commit hO (rDField opcode) opcode).2
  | false => exact (yields_commit h (rDField opcode) opcode).2

theorem genLogical_regs {op : DyngenOp} {o : Outcome}
    (h : Yields [op] ⟨r, r.gpr (rSField opcode), r.gpr (rBField opcode)⟩ o) :
    (runOps (genLogical op opcode) ⟨r, t0, t1⟩).regs = xForm opcode r o :=
  (yields_commit h (rAField opcode) opcode).1

theorem genUnary_regs {op : DyngenOp} {o : Outcome}
    (h : Yields [op] ⟨r, r.gpr (rSField opcode), t1⟩ o) :
    (runOps (genUnary op opcode) ⟨r, t0, t1⟩).regs = xForm opcode r o :=
  (yields_commit h (rAField opcode) opcode).1

theorem genCrLogical_regs {op : DyngenOp} {w : Word → Word → Word} {f : Bool → Bool → Bool}
    (hop : ∀ s : DyngenState, op.run s = s.setT0 (w s.t0 s.t1))
    (h : ∀ x y : Word, (w x y).getLsbD 0 = f (x.getLsbD 0) (y.getLsbD 0)) :
    (runOps (genCrLogical op opcode) ⟨r, t0, t1⟩).regs = { r with
      cr := crCombine f r.cr (crbDField opcode) (crbAField opcode) (crbBField opcode) } := by
  simp only [genCrLogical, runOps_cons, runOps_nil, hop]
  rw [← crCombine_eq w f _ _ _ _ h]
  rfl

theorem compare_regs (lt : Word → Word → Bool) (s : DyngenState) (rhs : Word) (crf : BitVec 3) :
    (runOps [.storeT0Crf crf] (s.compare lt rhs)).regs =
      { s.regs with
        cr := crOrdering s.regs.cr crf
          (compare (if lt s.t0 rhs then (-1 : Int) else if lt rhs s.t0 then 1 else 0) 0)
          s.regs.xer.so } := by
  have hnibble : ∀ c : Word, s.soBit ||| c = c ||| (if s.regs.xer.so then 1 else 0) :=
    fun c => BitVec.or_comm _ _
  rw [← crSetField_crNibble, DyngenState.compare]
  cases lt s.t0 rhs with
  | true =>
    simp only [if_true, hnibble]
    rfl
  | false =>
    cases lt rhs s.t0 with
    | true =>
      simp only [if_true, Bool.false_eq_true, if_false, hnibble]
      rfl
    | false =>
      simp only [Bool.false_eq_true, if_false, hnibble]
      rfl

theorem add_eq_exactAdd (a b : Word) : a + b = (exactAdd a b false).value := by
  rw [exactAdd_value]
  exact (BitVec.add_zero _).symm

theorem sub_eq_exactSub (a b : Word) : b - a = (exactSub a b true).value :=
  congrArg Prod.fst (doExecuteSubtract_eq false false ⟨false, false, false, 0⟩ a b)

theorem genOr_regs :
    (runOps (genOr opcode) ⟨r, t0, t1⟩).regs =
      xForm opcode r (.plain (r.gpr (rSField opcode) ||| r.gpr (rBField opcode))) := by
  rw [genOr]
  by_cases h : rSField opcode = rBField opcode
  · rw [if_neg (not_not.mpr h), h, BitVec.or_self]
    exact (yields_commit (yields_nil ⟨r, r.gpr (rBField opcode), t1⟩ _ rfl) (rAField opcode)
      opcode).1
  · rw [if_pos h]
    exact (yields_commit (yields_of_setT0 .or32T0T1
      ⟨r, r.gpr (rSField opcode), r.gpr (rBField opcode)⟩ rfl rfl) (rAField opcode) opcode).1

theorem setGpr_self (r : Regs) (n : BitVec 5) : r.setGpr n (r.gpr n) = r := by
  simp only [Regs.setGpr]
  congr 1
  funext k
  split
  · next h => rw [h]
  · rfl

theorem commit_plain (v : Word) (dest : BitVec 5) (r : Regs) :
    (Outcome.plain v).commit dest false r = r.setGpr dest v := by
  rw [commit_eq, Outcome.plain, after_none]
  rfl

theorem genOri_regs :
    (runOps (genOri opcode) ⟨r, t0, t1⟩).regs =
      (Outcome.plain (r.gpr (rSField opcode) ||| unsignedImm opcode)).commit (rAField opcode)
        false r := by
  have himm : unsignedImm opcode = uimm opcode := (toWord_ofNat_imm _).symm
  rw [genOri, commit_plain, himm]
  by_cases h0 : uimm opcode = 0
  · rw [if_pos h0, h0]
    have hor : r.gpr (rSField opcode) ||| 0 = r.gpr (rSField opcode) := BitVec.or_zero
    rw [hor]
    by_cases h : rAField opcode = rSField opcode
    · rw [if_neg (not_not.mpr h), ← h, setGpr_self]
      rfl
    · rw [if_pos h]
      rfl
  · rw [if_neg h0]
    rfl

theorem genAddi_regs (value : Word) :
    (runOps (genAddi value opcode) ⟨r, t0, t1⟩).regs =
      dForm opcode r false false (exactAdd (regAOrZero opcode r) value false) := by
  have hout : (exactAdd (regAOrZero opcode r) value false).keep false false =
      .plain (regAOrZero opcode r + value) := by
    rw [add_eq_exactAdd]
    rfl
  rw [genAddi, dForm, hout, regAOrZero]
  by_cases h : rAField opcode = 0
  · rw [if_pos h, if_pos h, genMov32T0Im]
    have hv : value = 0 + value := (BitVec.zero_add _).symm
    split
    · next h0 =>
      exact yields_store (yields_of_setT0 .mov32T0Zero _ rfl (h0.symm.trans hv)) _
    · exact yields_store (yields_of_setT0 (.mov32T0Im value) _ rfl hv) _
  · rw [if_neg h, if_neg h, genAdd32T0Im]
    split_ifs with h0 h1 h2 h4 h8
    · rw [h0]
      exact yields_store (yields_nil ⟨r, r.gpr (rAField opcode), t1⟩ _ (BitVec.add_zero _).symm) _
    · rw [h1]
      exact yields_store (yields_of_setT0 .add32T0One ⟨r, r.gpr (rAField opcode), t1⟩ rfl rfl) _
    · rw [h2]
      exact yields_store (yields_of_setT0 .add32T0Two ⟨r, r.gpr (rAField opcode), t1⟩ rfl rfl) _
    · rw [h4]
      exact yields_store (yields_of_setT0 .add32T0Four ⟨r, r.gpr (rAField opcode), t1⟩ rfl rfl) _
    · rw [h8]
      exact yields_store (yields_of_setT0 .add32T0Eight ⟨r, r.gpr (rAField opcode), t1⟩ rfl rfl) _
    · exact yields_store (yields_of_setT0 (.add32T0Im value) ⟨r, r.gpr (rAField opcode), t1⟩ rfl rfl) _

theorem and_maskBits_full (x : Word) (mb me : BitVec 5) (hmb : mb.toNat = 0)
    (hme : me.toNat = 31) : x &&& maskBits mb me = x := by
  apply BitVec.eq_of_getLsbD_eq
  intro i hi
  rw [BitVec.getLsbD_and, maskBits_getLsbD _ _ _ hi, hmb, hme]
  simp [show i ≤ 31 by omega]

theorem rotateLeft_zero (x : Word) : x.rotateLeft 0 = x := by
  have hx : x >>> 32 = 0 := BitVec.ushiftRight_eq_zero (le_refl 32)
  rw [BitVec.rotateLeft_def]
  simp [hx]

/-- Every form that `rlwinm` is reduced to is the rotate under the mask. -/
theorem genRlwinm_regs :
    (runOps (genRlwinm opcode) ⟨r, t0, t1⟩).regs =
      xForm opcode r (.plain ((r.gpr (rSField opcode)).rotateLeft (shField opcode).toNat &&&
        maskBits (mbField opcode) (meField opcode))) := by
  have hsh : (shField opcode).toNat < 32 := (shField opcode).isLt
  have hmb : (mbField opcode).toNat < 32 := (mbField opcode).isLt
  let s : DyngenState := ⟨r, r.gpr (rSField opcode), t1⟩
  have hand (h0 : (shField opcode).toNat = 0) : Yields
      [.and32T0Im (maskCompute (mbField opcode) (meField opcode))] s
      (.plain (s.t0.rotateLeft (shField opcode).toNat &&&
        maskBits (mbField opcode) (meField opcode))) :=
    yields_of_setT0 _ _ rfl (by rw [h0, rotateLeft_zero, maskCompute_eq])
  have hrlw : Yields
      [.rlwinmT0T1 ((shField opcode).setWidth 32) (maskCompute (mbField opcode) (meField opcode))] s
      (.plain (s.t0.rotateLeft (shField opcode).toNat &&&
        maskBits (mbField opcode) (meField opcode))) :=
    yields_of_setT0 _ _ rfl (by rw [rotl_sh, maskCompute_eq])
  rw [genRlwinm]
  refine (yields_commit (s := s) ?_ (rAField opcode) opcode).1
  split_ifs with h0 h31 hpos hl hz hr hr0 hz'
  · exact yields_of_setT0 _ _ rfl (by rw [and_maskBits_full _ _ _ h0 h31]; exact rotl_sh _ _)
  · have hzero : (shField opcode).toNat = 0 := by omega
    exact yields_nil _ _ (by rw [and_maskBits_full _ _ _ h0 h31, hzero, rotateLeft_zero])
  · refine yields_of_setT0 _ _ rfl ?_
    rw [← rlwinm_slwi _ _ _ _ h0 hl, shl, BitVec.toNat_setWidth_of_le (by omega),
      Nat.mod_eq_of_lt hsh]
  · exact hand hz
  · exact hrlw
  · refine yields_of_setT0 _ _ rfl ?_
    rw [← rlwinm_srwi _ _ _ _ hr0 hr, shr, BitVec.toNat_setWidth_of_le (by omega),
      Nat.mod_eq_of_lt hmb]
  · exact hand hz'
  · exact hrlw
  · exact hrlw

theorem genRlwnm_regs :
    (runOps (genRlwnm opcode) ⟨r, t0, t1⟩).regs =
      xForm opcode r (.plain ((r.gpr (rSField opcode)).rotateLeft
        ((r.gpr (rBField opcode)).toNat % 32) &&& maskBits (mbField opcode) (meField opcode))) := by
  let s : DyngenState := ⟨r, r.gpr (rSField opcode), r.gpr (rBField opcode)⟩
  rw [genRlwnm]
  split_ifs with h
  · rw [and_maskBits_full _ _ _ h.1 h.2]
    exact (yields_commit (yields_of_setT0 .rol32T0T1 s rfl (opRotl_eq _ _)) (rAField opcode)
      opcode).1
  · rw [← maskCompute_eq, ← opRotl_eq]
    exact (yields_commit (yields_of_setT0 (.rlwnmT0T1 _) s rfl rfl) (rAField opcode) opcode).1

-- ---------------------------------------------------------------------------
-- Ops that do more than set `T0`
-- ---------------------------------------------------------------------------

theorem srawT0T1_yields (s : DyngenState) :
    Yields [.srawT0T1] s (exactShiftRight s.t0 (s.t1.toNat % 64)) := by
  rw [← toNat_and_63]
  rcases lt_or_ge (s.t1 &&& 0x3f#32).toNat 32 with h | h
  · have hvalid : ¬s.t1 &&& 0x3f#32 &&& 0x20#32 ≠ 0 := by
      rw [and_32_ne_zero, ← toNat_and_63]
      exact not_le.mpr h
    rw [exactShiftRight_of_lt _ _ h, Yields, after_ca]
    simp only [runOps_cons, runOps_nil, DyngenOp.run, DyngenState.srawT0T1, if_neg hvalid]
    exact ⟨rfl, rfl⟩
  · have hinvalid : s.t1 &&& 0x3f#32 &&& 0x20#32 ≠ 0 := by
      rw [and_32_ne_zero, ← toNat_and_63]
      exact h
    rw [exactShiftRight_of_le _ _ h, Yields, after_ca]
    simp only [runOps_cons, runOps_nil, DyngenOp.run, DyngenState.srawT0T1, if_pos hinvalid]
    exact ⟨rfl, rfl⟩

theorem srawT0Im_yields (s : DyngenState) (sh : BitVec 5) :
    Yields [.srawT0Im (sh.setWidth 32)] s (exactShiftRight s.t0 sh.toNat) := by
  have hsh : sh.toNat < 32 := sh.isLt
  have hn : (sh.setWidth 32).toNat = sh.toNat := BitVec.toNat_setWidth_of_le (by omega)
  rw [← hn, exactShiftRight_of_lt _ _ (by omega)]
  exact yields_of_setT0Xer _ _ rfl (by rw [after_ca])

/-- `slw` and `srw` also leave the masked count in `T1`. -/
theorem yields_of_shiftT0T1 (op : DyngenOp) (f : Word → Word → Word) (s : DyngenState) {v : Word}
    (hop : op.run s = s.shiftT0T1 f)
    (hv : (if s.t1 &&& 0x3f#32 &&& 0x20#32 ≠ 0 then 0 else f s.t0 (s.t1 &&& 0x3f#32)) = v) :
    Yields [op] s (.plain v) := by
  rw [Yields, Outcome.plain, after_none, runOps_cons, hop]
  exact ⟨hv, rfl⟩

theorem genCompare_regs (op : DyngenOp) (lt : Word → Word → Bool) (s : DyngenState) (rhs : Word)
    (crf : BitVec 3) (o : Ordering) (hop : op.run s = s.compare lt rhs)
    (h : compare (if lt s.t0 rhs then (-1 : Int) else if lt rhs s.t0 then 1 else 0) 0 = o) :
    (runOps [op, .storeT0Crf crf] s).regs =
      { s.regs with cr := crOrdering s.regs.cr crf o s.regs.xer.so } := by
  rw [runOps_cons, hop, compare_regs, h]

/-- A comparison with zero has ops of its own. -/
theorem genCompareT0Im_regs :
    (runOps (genCompareT0Im (crfDField opcode) (simm opcode))
      ⟨r, r.gpr (rAField opcode), t1⟩).regs =
      { r with
        cr := crOrdering r.cr (crfDField opcode)
          (compare (r.gpr (rAField opcode)).toInt (immField opcode).toInt) r.xer.so } := by
  rw [genCompareT0Im]
  split
  · next h =>
    refine genCompare_regs .compareT0Zero _ _ _ _ _ rfl ?_
    rw [← h]
    exact compare_slt_simm _ _
  · exact genCompare_regs (.compareT0Im _) _ _ _ _ _ rfl (compare_slt_simm _ _)

theorem genCompareLogicalT0Im_regs :
    (runOps (genCompareLogicalT0Im (crfDField opcode) (uimm opcode))
      ⟨r, r.gpr (rAField opcode), t1⟩).regs =
      { r with
        cr := crOrdering r.cr (crfDField opcode)
          (compare (r.gpr (rAField opcode)).toNat (immField opcode).toNat) r.xer.so } := by
  rw [genCompareLogicalT0Im]
  split
  · next h =>
    refine genCompare_regs .compareLogicalT0Zero _ _ _ _ _ rfl ?_
    rw [← h]
    exact compare_ult_uimm _ _
  · exact genCompare_regs (.compareLogicalT0Im _) _ _ _ _ _ rfl (compare_ult_uimm _ _)

theorem negoT0_outcome (a : Word) (x : Xer) :
    (-a, x.setOv (a == 0x80000000#32)) =
      ((exactNeg a).value, x.after ((exactNeg a).keep false true)) := by
  rw [exactNeg, BitVec.ofInt_neg, BitVec.ofInt_toInt, overflows_neg, after_keep_ov]
  rfl

theorem mul_eq_exactMul (a b : Word) : a * b = (exactMul a b).value := by
  rw [exactMul, BitVec.ofInt_mul, BitVec.ofInt_toInt, BitVec.ofInt_toInt]

theorem mullwo_outcome (a b : Word) (x : Xer) :
    (let rd : BitVec 64 := a.signExtend 64 * b.signExtend 64
     (rd.setWidth 32, x.setOv ((rd.setWidth 32).signExtend 64 != rd))) =
      ((exactMul a b).value, x.after ((exactMul a b).keep false true)) := by
  obtain ⟨hl, hu⟩ := toInt_mul_bounds a b
  simp only [mul_signExtend, setWidth_ofInt, mulo_eq _ hl hu]
  rw [exactMul, after_keep_ov]
  rfl

-- ---------------------------------------------------------------------------
-- Every instruction
-- ---------------------------------------------------------------------------

theorem compile_eq_exact (insn : IntInsn) :
    (runOps (insn.compile opcode) ⟨r, t0, t1⟩).regs = insn.exact opcode r := by
  cases insn with
  | add =>
    exact genArith_regs (yields_of_setT0 _ _ rfl (add_eq_exactAdd _ _))
      (yields_of_setT0Xer _ _ rfl (doExecuteAddition_eq false false true _ _ _))
  | addc =>
    exact genArith_regs (yields_of_setT0Xer _ _ rfl (doExecuteAddition_eq false true false _ _ _))
      (yields_of_setT0Xer _ _ rfl (doExecuteAddition_eq false true true _ _ _))
  | adde =>
    exact genArith_regs (yields_of_setT0Xer _ _ rfl (doExecuteAddition_eq true false false _ _ _))
      (yields_of_setT0Xer _ _ rfl (doExecuteAddition_eq true false true _ _ _))
  | addme | addze =>
    exact genArithUnary_regs
      (yields_of_setT0Xer _ _ rfl (doExecuteAddition_eq true false false _ _ _))
      (yields_of_setT0Xer _ _ rfl (doExecuteAddition_eq true false true _ _ _))
  | addi => exact genAddi_regs _
  | addis =>
    refine (genAddi_regs _).trans ?_
    rw [simmShifted, simmShifted_eq]
    rfl
  | addic =>
    exact yields_store (yields_of_setT0Xer _ ⟨r, r.gpr (rAField opcode), t1⟩ rfl
      (doExecuteAddition_eq false true false _ _ _)) _
  | addicRecord =>
    exact yields_record_store (yields_of_setT0Xer _ ⟨r, r.gpr (rAField opcode), t1⟩ rfl
      (doExecuteAddition_eq false true false _ _ _)) _
  | subf =>
    exact genArith_regs (yields_of_setT0 _ _ rfl (sub_eq_exactSub _ _))
      (yields_of_setT0Xer _ _ rfl (doExecuteSubtract_eq false true _ _ _))
  | subfc =>
    exact genArith_regs (yields_of_setT0Xer _ _ rfl (doExecuteSubtract_eq true false _ _ _))
      (yields_of_setT0Xer _ _ rfl (doExecuteSubtract_eq true true _ _ _))
  | subfe =>
    exact genArith_regs (yields_of_setT0Xer _ _ rfl (doExecuteSubtractExtended_eq false _ _ _))
      (yields_of_setT0Xer _ _ rfl (doExecuteSubtractExtended_eq true _ _ _))
  | subfme | subfze =>
    exact genArithUnary_regs
      (yields_of_setT0Xer _ _ rfl (doExecuteSubtractExtended_eq false _ _ _))
      (yields_of_setT0Xer _ _ rfl (doExecuteSubtractExtended_eq true _ _ _))
  | subfic =>
    exact yields_store (yields_of_setT0Xer _ ⟨r, r.gpr (rAField opcode), t1⟩ rfl
      (doExecuteSubtract_eq true false _ _ _)) _
  | neg =>
    exact genArithUnary_regs (yields_of_setT0 _ _ rfl (congrArg Prod.fst (negoT0_outcome _ r.xer)))
      (yields_of_setT0Xer _ _ rfl (negoT0_outcome _ _))
  | mullw =>
    exact genArith_regs (yields_of_setT0 _ _ rfl (mul_eq_exactMul _ _))
      (yields_of_setT0Xer _ _ rfl (mullwo_outcome _ _ _))
  | mulhw =>
    refine (yields_commit (yields_of_setT0 .mulhwT0T1
      ⟨r, r.gpr (rAField opcode), r.gpr (rBField opcode)⟩ rfl ?_) (rDField opcode) opcode).1
    obtain ⟨hl, hu⟩ := toInt_mul_bounds (r.gpr (rAField opcode)) (r.gpr (rBField opcode))
    rw [mul_signExtend, mulhw_sar_eq _ hl hu]
  | mulhwu =>
    exact (yields_commit (yields_of_setT0 .mulhwuT0T1
      ⟨r, r.gpr (rAField opcode), r.gpr (rBField opcode)⟩ rfl (mulhwu_eq _ _)) (rDField opcode)
      opcode).1
  | mulli =>
    exact yields_store (yields_of_setT0 _ ⟨r, r.gpr (rAField opcode), t1⟩ rfl
      (mul_eq_exactMul _ _)) _
  | divw =>
    exact genArith_regs (yields_of_setT0Xer _ _ rfl (doExecuteDivide_signed false _ _ _))
      (yields_of_setT0Xer _ _ rfl (doExecuteDivide_signed true _ _ _))
  | divwu =>
    exact genArith_regs (yields_of_setT0Xer _ _ rfl (doExecuteDivide_unsigned false _ _ _))
      (yields_of_setT0Xer _ _ rfl (doExecuteDivide_unsigned true _ _ _))
  | and | andc | eqv | nand | nor | orc | xor =>
    exact genLogical_regs (yields_of_setT0 _ _ rfl rfl)
  | or => exact genOr_regs
  | ori => exact genOri_regs
  | xori =>
    exact yields_store (yields_of_setT0 (.xor32T0Im _) ⟨r, r.gpr (rSField opcode), t1⟩ rfl
      (by rw [uimm, toWord_ofNat_imm]; rfl)) _
  | oris =>
    exact yields_store (yields_of_setT0 (.or32T0Im _) ⟨r, r.gpr (rSField opcode), t1⟩ rfl
      (by rw [uimmShifted, uimmShifted_eq]; rfl)) _
  | xoris =>
    exact yields_store (yields_of_setT0 (.xor32T0Im _) ⟨r, r.gpr (rSField opcode), t1⟩ rfl
      (by rw [uimmShifted, uimmShifted_eq]; rfl)) _
  | andi =>
    exact yields_store_record (yields_of_setT0 (.and32T0Im _) ⟨r, r.gpr (rSField opcode), t1⟩ rfl
      (by rw [uimm, toWord_ofNat_imm]; rfl)) _
  | andis =>
    exact yields_store_record (yields_of_setT0 (.and32T0Im _) ⟨r, r.gpr (rSField opcode), t1⟩ rfl
      (by rw [uimmShifted, uimmShifted_eq]; rfl)) _
  | extsb => exact genUnary_regs (yields_of_setT0 _ _ rfl (signExtend_low _ 8))
  | extsh => exact genUnary_regs (yields_of_setT0 _ _ rfl (signExtend_low _ 16))
  | cntlzw => exact genUnary_regs (yields_of_setT0 _ _ rfl (opCntlzw_eq _))
  | rlwimi =>
    refine (yields_commit (yields_of_setT0 (.rlwimiT0T1 _ _)
      ⟨r, r.gpr (rAField opcode), r.gpr (rSField opcode)⟩ rfl ?_) (rAField opcode) opcode).1
    rw [opPpcRlwimi, rotl_sh, maskCompute_eq]
  | rlwinm => exact genRlwinm_regs
  | rlwnm => exact genRlwnm_regs
  | slw => exact genLogical_regs (yields_of_shiftT0T1 _ shl _ rfl (slw_eq _ _))
  | srw => exact genLogical_regs (yields_of_shiftT0T1 _ shr _ rfl (srw_eq _ _))
  | sraw => exact genLogical_regs (srawT0T1_yields _)
  | srawi => exact genUnary_regs (srawT0Im_yields _ _)
  | cmp =>
    exact genCompare_regs _ _ ⟨r, r.gpr (rAField opcode), r.gpr (rBField opcode)⟩ _ _ _ rfl
      (compare_slt _ _)
  | cmpl =>
    exact genCompare_regs _ _ ⟨r, r.gpr (rAField opcode), r.gpr (rBField opcode)⟩ _ _ _ rfl
      (compare_ult _ _)
  | cmpi => exact genCompareT0Im_regs
  | cmpli => exact genCompareLogicalT0Im_regs
  | crand => exact genCrLogical_regs (fun _ => rfl) crBit_and
  | crandc => exact genCrLogical_regs (fun _ => rfl) crBit_andc
  | creqv => exact genCrLogical_regs (fun _ => rfl) crBit_eqv
  | crnand => exact genCrLogical_regs (fun _ => rfl) crBit_nand
  | crnor => exact genCrLogical_regs (fun _ => rfl) crBit_nor
  | cror => exact genCrLogical_regs (fun _ => rfl) crBit_or
  | crorc => exact genCrLogical_regs (fun _ => rfl) crBit_orc
  | crxor => exact genCrLogical_regs (fun _ => rfl) crBit_xor

end

/-- For every integer instruction, opcode word and register file, the generated ops leave what the
interpreter leaves, and both leave what the exact arithmetic says. -/
theorem compile_agrees (insn : IntInsn) (opcode : Word) (r : Regs) (t0 t1 : Word) :
    (runOps (insn.compile opcode) ⟨r, t0, t1⟩).regs = insn.execute opcode r ∧
      insn.execute opcode r = insn.exact opcode r := by
  rw [execute_eq_exact]
  exact ⟨compile_eq_exact insn, rfl⟩

end SheepShear.Kpx
