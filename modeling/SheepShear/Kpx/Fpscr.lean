import SheepShear.Kpx.Cpu

/-!
# The moves to FPSCR

`mtfsf`, `mtfsfi`, `mtfsb0` and `mtfsb1` of `ppc-execute.cpp` in a build with
`PPC_ENABLE_FPU_EXCEPTIONS` 0, against the bits that each of them is meant to
write.
-/

namespace SheepShear.Kpx

-- ---------------------------------------------------------------------------
-- Fields
-- ---------------------------------------------------------------------------

def frBField (opcode : Word) : BitVec 5 := bitField 16 20 opcode
def fmField (opcode : Word) : BitVec 8 := bitField 7 14 opcode
def imm4Field (opcode : Word) : BitVec 4 := bitField 16 19 opcode

-- The masks of the fields of FPSCR that the actions name.
def fpscrFx : Word := 0x80000000#32
def fpscrFex : Word := 0x40000000#32
def fpscrVx : Word := 0x20000000#32
def fpscrOx : Word := 0x10000000#32
def fpscrUx : Word := 0x08000000#32
def fpscrZx : Word := 0x04000000#32
def fpscrXx : Word := 0x02000000#32
def fpscrVxAny : Word := 0x01f80700#32
def fpscrVe : Word := 0x80#32
def fpscrOe : Word := 0x40#32
def fpscrUe : Word := 0x20#32
def fpscrZe : Word := 0x10#32
def fpscrXe : Word := 0x08#32
def fpscrRn : Word := 0x3#32

/-- `field2mask`, as the constructor fills it. -/
def field2mask (i : BitVec 8) : Word :=
  (if i &&& 0x01#8 ≠ 0 then 0x0000000f#32 else 0) ||| (if i &&& 0x02#8 ≠ 0 then 0x000000f0#32 else 0)
    ||| (if i &&& 0x04#8 ≠ 0 then 0x00000f00#32 else 0)
    ||| (if i &&& 0x08#8 ≠ 0 then 0x0000f000#32 else 0)
    ||| (if i &&& 0x10#8 ≠ 0 then 0x000f0000#32 else 0)
    ||| (if i &&& 0x20#8 ≠ 0 then 0x00f00000#32 else 0)
    ||| (if i &&& 0x40#8 ≠ 0 then 0x0f000000#32 else 0)
    ||| (if i &&& 0x80#8 ≠ 0 then 0xf0000000#32 else 0)

-- ---------------------------------------------------------------------------
-- Semantic actions
-- ---------------------------------------------------------------------------

def ppcEnableFpuExceptions : Bool := false

def ppcToNativeRoundingMode (round : Word) : FeRound :=
  if round = 0 then .toNearest
  else if round = 1 then .towardZero
  else if round = 2 then .upward
  else if round = 3 then .downward
  else .toNearest

/-- The body of `record_fpscr` that the build leaves out. -/
def recordExceptions (exceptions fpscr : Word) : Word :=
  let fpscr := fpscr &&& ~~~(fpscrVx ||| fpscrFex)
  let fpscr := if exceptions ≠ 0 then fpscr ||| (fpscrFx ||| exceptions) else fpscr
  let fpscr := if fpscr &&& fpscrVxAny ≠ 0 then fpscr ||| fpscrVx else fpscr
  if (fpscr &&& fpscrVx ≠ 0 ∧ fpscr &&& fpscrVe ≠ 0) ∨ (fpscr &&& fpscrOx ≠ 0 ∧ fpscr &&& fpscrOe ≠ 0) ∨
      (fpscr &&& fpscrUx ≠ 0 ∧ fpscr &&& fpscrUe ≠ 0) ∨
      (fpscr &&& fpscrZx ≠ 0 ∧ fpscr &&& fpscrZe ≠ 0) ∨
      (fpscr &&& fpscrXx ≠ 0 ∧ fpscr &&& fpscrXe ≠ 0) then
    fpscr ||| fpscrFex
  else fpscr

def recordFpscr (exceptions : Word) (s : Cpu) : Cpu :=
  if ppcEnableFpuExceptions then { s with fpscr := recordExceptions exceptions s.fpscr } else s

/-- The native control word follows RN when `m` covers it. -/
def updateRounding (m : Word) (s : Cpu) : Cpu :=
  if m &&& fpscrRn ≠ 0 then
    { s with feround := ppcToNativeRoundingMode (s.fpscr &&& fpscrRn) }
  else s

def executeMtfsf (opcode : Word) (s : Cpu) : Cpu :=
  let fsf := s.fpr (frBField opcode)
  let f := fmField opcode
  let m := field2mask f
  let m := if f &&& 0x80#8 = 0 then m &&& ~~~fpscrFx else m
  let exceptions := fsf.setWidth 32 &&& m
  let exceptions := exceptions &&& ~~~(fpscrFex ||| fpscrVx)
  let s : Cpu := { s with fpscr := (s.fpscr &&& ~~~m) ||| exceptions }
  let s := updateRounding m (recordFpscr 0 s)
  let s := if rcField opcode then s.recordCr1 else s
  s.incrementPc 4

def executeMtfsfi (opcode : Word) (s : Cpu) : Cpu :=
  let crfD := crfDField opcode
  let m := 0xf#32 <<< (4 * (7 - crfD.toNat))
  let m := if crfD = 0 then m &&& ~~~fpscrFx else m
  let exceptions := (imm4Field opcode).setWidth 32 &&& m
  let exceptions := exceptions &&& ~~~(fpscrFex ||| fpscrVx)
  let s : Cpu := { s with fpscr := (s.fpscr &&& ~~~m) ||| exceptions }
  let s := recordFpscr 0 (updateRounding m s)
  let s := if rcField opcode then s.recordCr1 else s
  s.incrementPc 4

def executeMtfsb (setBit : Bool) (opcode : Word) (s : Cpu) : Cpu :=
  let m := 1#32 <<< (31 - (crbDField opcode).toNat)
  let m := m &&& ~~~(fpscrFex ||| fpscrVx)
  let s : Cpu := { s with fpscr := s.fpscr &&& ~~~m }
  let s := updateRounding m (recordFpscr (if setBit then m else 0) s)
  let s := if rcField opcode then s.recordCr1 else s
  s.incrementPc 4

inductive FpscrMove where
  | mtfsb0
  | mtfsb1
  | mtfsfi
  | mtfsf
deriving DecidableEq, Repr

/-- The rows of `powerpc_ii_table` for these instructions. -/
def FpscrMove.execute : FpscrMove → Word → Cpu → Cpu
  | .mtfsb0 => executeMtfsb false
  | .mtfsb1 => executeMtfsb true
  | .mtfsfi => executeMtfsfi
  | .mtfsf => executeMtfsf

-- ---------------------------------------------------------------------------
-- What is meant
-- ---------------------------------------------------------------------------

/-- Bit `k` of FPSCR in the processor's numbering, FX first. -/
def fpscrBit (v : Word) (k : Fin 32) : Bool := v.getLsbD (31 - k.val)

/-- FEX and VX, which no move writes. -/
def derivedBit (k : Fin 32) : Bool := k = 1 || k = 2

theorem derivedBit_field : ∀ k, derivedBit k = true → k.val / 4 = 0 := by decide

/-- Whether the instruction names bit `k`, alone or through its field. -/
def FpscrMove.names (insn : FpscrMove) (opcode : Word) (k : Fin 32) : Bool :=
  match insn with
  | .mtfsb0 | .mtfsb1 => k.val = (crbDField opcode).toNat
  | .mtfsfi => k.val / 4 = (crfDField opcode).toNat
  | .mtfsf => (fmField opcode).getLsbD (7 - k.val / 4)

/-- The bit it moves there. -/
def FpscrMove.source (insn : FpscrMove) (opcode : Word) (s : Cpu) (k : Fin 32) : Bool :=
  match insn with
  | .mtfsb0 => false
  | .mtfsb1 => true
  | .mtfsfi => (imm4Field opcode).getLsbD (3 - k.val % 4)
  | .mtfsf => (s.fpr (frBField opcode)).getLsbD (31 - k.val)

/-- The named bits except FEX and VX are those of the source, and all others are kept. -/
def FpscrMove.Exact (insn : FpscrMove) (opcode : Word) (s : Cpu) : Prop :=
  ∀ k, fpscrBit (insn.execute opcode s).fpscr k =
    if insn.names opcode k && !derivedBit k then insn.source opcode s k else fpscrBit s.fpscr k

/-- Where the actions do that. -/
def FpscrMove.HoldsWhen (insn : FpscrMove) (opcode : Word) (s : Cpu) : Prop :=
  match insn with
  | .mtfsb0 => True
  | .mtfsb1 => crbDField opcode = 1 ∨ crbDField opcode = 2
  | .mtfsfi =>
    crfDField opcode = 7 ∨
      (crfDField opcode ≠ 0 ∧ imm4Field opcode = 0) ∨
      (crfDField opcode = 0 ∧ fpscrBit s.fpscr 0 = (imm4Field opcode).getLsbD 3 ∧
        (imm4Field opcode).getLsbD 0 = false ∧ fpscrBit s.fpscr 1 = false ∧
        fpscrBit s.fpscr 2 = false)
  | .mtfsf =>
    (fmField opcode).getLsbD 7 = false ∨
      (fpscrBit s.fpscr 1 = false ∧ fpscrBit s.fpscr 2 = false)

-- ---------------------------------------------------------------------------
-- The word that is written
-- ---------------------------------------------------------------------------

@[simp] theorem recordFpscr_eq (exceptions : Word) (s : Cpu) : recordFpscr exceptions s = s := rfl

@[simp] theorem updateRounding_fpscr (m : Word) (s : Cpu) : (updateRounding m s).fpscr = s.fpscr := by
  unfold updateRounding
  split <;> rfl

/-- The mask of the bits that are cleared. -/
def FpscrMove.cleared (insn : FpscrMove) (opcode : Word) : Word :=
  match insn with
  | .mtfsb0 | .mtfsb1 => (1#32 <<< (31 - (crbDField opcode).toNat)) &&& ~~~(fpscrFex ||| fpscrVx)
  | .mtfsfi =>
    if crfDField opcode = 0 then (0xf#32 <<< (4 * (7 - (crfDField opcode).toNat))) &&& ~~~fpscrFx
    else 0xf#32 <<< (4 * (7 - (crfDField opcode).toNat))
  | .mtfsf =>
    if fmField opcode &&& 0x80#8 = 0 then field2mask (fmField opcode) &&& ~~~fpscrFx
    else field2mask (fmField opcode)

/-- The word whose bits then go under it. -/
def FpscrMove.operand (insn : FpscrMove) (opcode : Word) (s : Cpu) : Word :=
  match insn with
  | .mtfsb0 | .mtfsb1 => 0#32
  | .mtfsfi => (imm4Field opcode).setWidth 32
  | .mtfsf => (s.fpr (frBField opcode)).setWidth 32

theorem execute_fpscr (insn : FpscrMove) (opcode : Word) (s : Cpu) :
    (insn.execute opcode s).fpscr = (s.fpscr &&& ~~~insn.cleared opcode) |||
      (insn.operand opcode s &&& insn.cleared opcode &&& ~~~(fpscrFex ||| fpscrVx)) := by
  cases insn <;>
    simp only [FpscrMove.execute, FpscrMove.cleared, FpscrMove.operand, executeMtfsb, executeMtfsfi,
      executeMtfsf, Cpu.incrementPc_fpscr, apply_ite Cpu.fpscr, Cpu.recordCr1_fpscr, recordFpscr_eq,
      updateRounding_fpscr, ite_self, BitVec.zero_and, BitVec.or_zero]

theorem fpscrBit_execute (insn : FpscrMove) (opcode : Word) (s : Cpu) (k : Fin 32) :
    fpscrBit (insn.execute opcode s).fpscr k =
      if fpscrBit (insn.cleared opcode) k then !derivedBit k && fpscrBit (insn.operand opcode s) k
      else fpscrBit s.fpscr k := by
  have hderived : fpscrBit (~~~(fpscrFex ||| fpscrVx)) k = !derivedBit k := by
    revert k; decide
  have hk : 31 - k.val < 32 := by omega
  rw [execute_fpscr]
  simp only [fpscrBit, BitVec.getLsbD_or, BitVec.getLsbD_and] at hderived ⊢
  rw [hderived, BitVec.getLsbD_not, decide_eq_true hk]
  have hmux (c x y d : Bool) : (x && (true && !c) || y && c && !d) = if c then !d && y else x := by
    revert c x y d; decide
  exact hmux _ _ _ _

-- ---------------------------------------------------------------------------
-- The masks, bit by bit
-- ---------------------------------------------------------------------------

theorem bit_mask (n : BitVec 5) (k : Fin 32) :
    fpscrBit ((1#32 <<< (31 - n.toNat)) &&& ~~~(fpscrFex ||| fpscrVx)) k =
      (decide (k.val = n.toNat) && !derivedBit k) := by
  revert n k; decide +kernel

theorem fpscrBit_field_mask (crfD : BitVec 3) (k : Fin 32) :
    fpscrBit (0xf#32 <<< (4 * (7 - crfD.toNat))) k = decide (k.val / 4 = crfD.toNat) := by
  revert crfD k; decide +kernel

theorem fpscrBit_field2mask (f : BitVec 8) (k : Fin 32) :
    fpscrBit (field2mask f) k = f.getLsbD (7 - k.val / 4) := by
  revert f k; decide +kernel

theorem fpscrBit_cleared (insn : FpscrMove) (opcode : Word) (k : Fin 32) :
    fpscrBit (insn.cleared opcode) k =
      match insn with
      | .mtfsb0 | .mtfsb1 => insn.names opcode k && !derivedBit k
      | .mtfsfi => insn.names opcode k && !decide (k = 0)
      | .mtfsf => insn.names opcode k := by
  have hfx : fpscrBit (~~~fpscrFx) k = !decide (k = 0) := by
    revert k; decide
  have hand (a c : Word) : fpscrBit (a &&& c) k = (fpscrBit a k && fpscrBit c k) :=
    BitVec.getLsbD_and
  cases insn with
  | mtfsb0 | mtfsb1 => exact bit_mask _ k
  | mtfsfi =>
    simp only [FpscrMove.cleared, FpscrMove.names, apply_ite (fpscrBit · k), hand, hfx,
      fpscrBit_field_mask]
    split
    · rfl
    · rename_i hne
      have hzero : k = 0 → ¬ k.val / 4 = (crfDField opcode).toNat := by
        rintro rfl h
        exact hne (BitVec.eq_of_toNat_eq h.symm)
      by_cases hk : k = 0
      · simp [hzero hk]
      · simp [hk]
  | mtfsf =>
    simp only [FpscrMove.cleared, FpscrMove.names, apply_ite (fpscrBit · k), hand, hfx,
      fpscrBit_field2mask]
    split
    · rename_i hf
      have hzero : k = 0 → (fmField opcode).getLsbD (7 - k.val / 4) = false := by
        rintro rfl
        have hbit := congrArg (BitVec.getLsbD · 7) hf
        simpa using hbit
      by_cases hk : k = 0
      · simp [hzero hk]
      · simp [hk]
    · rfl

-- ---------------------------------------------------------------------------
-- Where the moves are exact
-- ---------------------------------------------------------------------------

section

variable (opcode : Word) (s : Cpu)

theorem mtfsb0_exact : FpscrMove.mtfsb0.Exact opcode s := by
  intro k
  simp only [fpscrBit_execute, fpscrBit_cleared]
  simp [FpscrMove.operand, FpscrMove.source, fpscrBit]

/-- The bit is cleared and `record_fpscr` never sets it again. -/
theorem mtfsb1_exact_iff :
    FpscrMove.mtfsb1.Exact opcode s ↔ crbDField opcode = 1 ∨ crbDField opcode = 2 := by
  have hbits (k : Fin 32) : fpscrBit (FpscrMove.mtfsb1.execute opcode s).fpscr k =
      if FpscrMove.mtfsb1.names opcode k && !derivedBit k then false else fpscrBit s.fpscr k := by
    simp only [fpscrBit_execute, fpscrBit_cleared]
    simp [FpscrMove.operand, fpscrBit]
  constructor
  · intro h
    have hk := h ⟨(crbDField opcode).toNat, (crbDField opcode).isLt⟩
    rw [hbits] at hk
    simp only [FpscrMove.names, FpscrMove.source, derivedBit, Fin.ext_iff, decide_true,
      Bool.true_and] at hk
    by_contra hne
    obtain ⟨h1, h2⟩ := not_or.mp hne
    simp [BitVec.toNat_eq] at h1 h2
    simp [h1, h2] at hk
  · rintro hd k
    have hnone : (FpscrMove.mtfsb1.names opcode k && !derivedBit k) = false := by
      revert k
      rcases hd with hd | hd <;> simp only [FpscrMove.names, hd] <;> decide
    rw [hbits, hnone]
    rfl

/-- FEX and VX are cleared with the other bits of their field. -/
theorem mtfsf_exact_iff :
    FpscrMove.mtfsf.Exact opcode s ↔
      (fmField opcode).getLsbD 7 = false ∨
        (fpscrBit s.fpscr 1 = false ∧ fpscrBit s.fpscr 2 = false) := by
  have hbits (k : Fin 32) : fpscrBit (FpscrMove.mtfsf.execute opcode s).fpscr k =
      if FpscrMove.mtfsf.names opcode k then !derivedBit k && FpscrMove.mtfsf.source opcode s k
      else fpscrBit s.fpscr k := by
    have hk : 31 - k.val < 32 := by omega
    simp only [fpscrBit_execute, fpscrBit_cleared]
    simp [FpscrMove.operand, FpscrMove.source, fpscrBit, hk]
  constructor
  · intro h
    have h1 := h 1
    have h2 := h 2
    rw [hbits] at h1 h2
    by_cases hf : (fmField opcode).getLsbD 7 = true
    · simp only [FpscrMove.names, derivedBit] at h1 h2
      exact .inr ⟨by simpa [hf] using h1.symm, by simpa [hf] using h2.symm⟩
    · exact .inl (by simpa using hf)
  · rintro hor k
    rw [hbits]
    cases hd : derivedBit k with
    | false => simp
    | true =>
      have hk : k = 1 ∨ k = 2 := by simpa [derivedBit] using hd
      have hold : FpscrMove.mtfsf.names opcode k = true → fpscrBit s.fpscr k = false := by
        intro hn
        rcases hor with hf | ⟨h1, h2⟩
        · have hn' : (fmField opcode).getLsbD 7 = true := by rcases hk with rfl | rfl <;> exact hn
          rw [hf] at hn'
          cases hn'
        · rcases hk with rfl | rfl
          · exact h1
          · exact h2
      by_cases hn : FpscrMove.mtfsf.names opcode k = true
      · simp [hn, hold hn]
      · simp [hn]

/-- What `mtfsfi` leaves: the immediate is not moved up to its field. -/
theorem mtfsfi_bit (k : Fin 32) :
    fpscrBit (FpscrMove.mtfsfi.execute opcode s).fpscr k =
      if k.val / 4 = (crfDField opcode).toNat ∧ k ≠ 0 then
        decide (k.val / 4 = 7) && (imm4Field opcode).getLsbD (3 - k.val % 4)
      else fpscrBit s.fpscr k := by
  have hoperand : fpscrBit (FpscrMove.mtfsfi.operand opcode s) k =
      (decide (k.val / 4 = 7) && (imm4Field opcode).getLsbD (3 - k.val % 4)) := by
    simp only [FpscrMove.operand, fpscrBit, BitVec.getLsbD_setWidth]
    by_cases hk : k.val / 4 = 7
    · have hpos : 31 - k.val = 3 - k.val % 4 := by omega
      have hlt : 3 - k.val % 4 < 32 := by omega
      simp [hk, hpos, hlt]
    · have hge : 4 ≤ 31 - k.val := by omega
      simp [hk, BitVec.getLsbD_of_ge _ _ hge]
  simp only [fpscrBit_execute, fpscrBit_cleared, hoperand]
  cases hd : derivedBit k with
  | false => simp [FpscrMove.names]
  | true => simp [FpscrMove.names, derivedBit_field k hd]

/-- Bit by bit, what has to hold for the move to be exact. -/
theorem mtfsfi_bit_exact_iff (k : Fin 32) :
    (fpscrBit (FpscrMove.mtfsfi.execute opcode s).fpscr k =
      if FpscrMove.mtfsfi.names opcode k && !derivedBit k then FpscrMove.mtfsfi.source opcode s k
      else fpscrBit s.fpscr k) ↔
    (k.val / 4 = (crfDField opcode).toNat →
      if k = 0 then fpscrBit s.fpscr 0 = (imm4Field opcode).getLsbD 3
      else if derivedBit k then fpscrBit s.fpscr k = false
      else k.val / 4 = 7 ∨ (imm4Field opcode).getLsbD (3 - k.val % 4) = false) := by
  rw [mtfsfi_bit]
  by_cases hn : k.val / 4 = (crfDField opcode).toNat
  · by_cases hk : k = 0
    · subst hk
      simp [FpscrMove.names, FpscrMove.source, derivedBit, ← hn]
    · cases hd : derivedBit k with
      | true =>
        have hlow : ¬ k.val / 4 = 7 := by rw [derivedBit_field k hd]; decide
        simp only [FpscrMove.names, ← hn, hk, hlow, not_false_eq_true, ne_eq, and_self, if_true,
          if_false, decide_false, decide_true, Bool.false_and, Bool.not_true, Bool.and_false,
          Bool.false_eq_true, true_implies]
        exact eq_comm
      | false =>
        by_cases h7 : k.val / 4 = 7
        · simp [FpscrMove.names, FpscrMove.source, ← hn, hk, h7]
        · simp only [FpscrMove.names, FpscrMove.source, ← hn, hk, h7, not_false_eq_true, ne_eq,
            and_self, if_true, if_false, decide_false, decide_true, Bool.false_and, Bool.not_false,
            Bool.and_true, Bool.false_eq_true, true_implies, false_or]
          exact eq_comm
  · simp [FpscrMove.names, hn]

theorem mtfsfi_exact_iff :
    FpscrMove.mtfsfi.Exact opcode s ↔ FpscrMove.mtfsfi.HoldsWhen opcode s := by
  rw [FpscrMove.Exact, forall_congr' (mtfsfi_bit_exact_iff opcode s)]
  have hlt := (crfDField opcode).isLt
  constructor
  · intro h
    by_cases h7 : crfDField opcode = 7
    · exact .inl h7
    by_cases h0 : crfDField opcode = 0
    · have hfield (k : Fin 32) (hk : k.val / 4 = 0) := h k (by rw [h0]; exact hk)
      exact .inr (.inr ⟨h0, hfield 0 rfl, (hfield 3 rfl).resolve_left (by decide), hfield 1 rfl,
        hfield 2 rfl⟩)
    · refine .inr (.inl ⟨h0, BitVec.eq_of_getLsbD_eq fun i hi => ?_⟩)
      have hne0 : (crfDField opcode).toNat ≠ 0 := fun hz => h0 (BitVec.eq_of_toNat_eq hz)
      have hne7 : (crfDField opcode).toNat ≠ 7 := fun hz => h7 (BitVec.eq_of_toNat_eq hz)
      have hbound : 4 * (crfDField opcode).toNat + (3 - i) < 32 := by omega
      have hk := h ⟨4 * (crfDField opcode).toNat + (3 - i), hbound⟩ (by simp only; omega)
      rw [if_neg (by simp [Fin.ext_iff]; omega),
        if_neg (by simp [derivedBit, Fin.ext_iff]; omega)] at hk
      have hpos : 3 - (4 * (crfDField opcode).toNat + (3 - i)) % 4 = i := by omega
      rw [hpos] at hk
      exact (hk.resolve_left (by simp only; omega)).trans BitVec.getLsbD_zero.symm
  · rintro hor k hk
    rcases hor with h7 | ⟨h0, himm⟩ | ⟨h0, hfx, hox, hfex, hvx⟩
    · have hk7 : k.val / 4 = 7 := by rw [hk, h7]; rfl
      rw [if_neg (by rintro rfl; cases hk7), if_neg fun hd => by rw [derivedBit_field k hd] at hk7; cases hk7]
      exact .inl hk7
    · have hne0 : k.val / 4 ≠ 0 := fun hz => h0 (BitVec.eq_of_toNat_eq (hk.symm.trans hz))
      rw [if_neg (by rintro rfl; exact hne0 rfl),
        if_neg (by simp [derivedBit, Fin.ext_iff]; omega), himm]
      exact .inr BitVec.getLsbD_zero
    · have hk0 : k.val / 4 = 0 := by rw [hk, h0]; rfl
      obtain rfl | rfl | rfl | rfl : k = 0 ∨ k = 1 ∨ k = 2 ∨ k = 3 := by
        simp only [Fin.ext_iff]; omega
      · exact hfx
      · exact hfex
      · exact hvx
      · exact .inr hox

end

/-- For every instruction, opcode and state, the move writes the bits it names and no others, and
neither FEX nor VX, exactly where `HoldsWhen` says. -/
theorem fpscr_moves_exact_iff (insn : FpscrMove) (opcode : Word) (s : Cpu) :
    insn.Exact opcode s ↔ insn.HoldsWhen opcode s := by
  cases insn with
  | mtfsb0 => exact iff_of_true (mtfsb0_exact opcode s) trivial
  | mtfsb1 => exact mtfsb1_exact_iff opcode s
  | mtfsfi => exact mtfsfi_exact_iff opcode s
  | mtfsf => exact mtfsf_exact_iff opcode s

/-- `mtfsb1 31` on a clear FPSCR leaves it clear. -/
theorem mtfsb1_leaves_clear : ¬ FpscrMove.mtfsb1.Exact 0xffe0004c#32 (.initRegisters fun _ => 0) :=
  fun h => absurd (h 31) (by decide)

end SheepShear.Kpx
