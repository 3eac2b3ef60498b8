import SheepShear.Kpx.VectorLoop
import SheepShear.Kpx.VectorMove

/-!
# Vector data movement with overlapping registers

Each handler is a loop of steps, so that it computes the AltiVec result where no
step reads what an earlier one has stored. Where one does, a register file with
the same contents in every register shows the difference.
-/

namespace SheepShear.Kpx

def vectorRegs (opcode : Word) : VectorRegs :=
  ⟨vDField opcode, vAField opcode, vBField opcode, vCField opcode⟩

theorem storeElement_plain (s : Cpu) (VD : VectorOperand) (h : VD.saturates = false) (d : BitVec 5)
    (i : Nat) (v : Int) : s.storeElement VD d i v = s.setElement VD d i v := by
  simp [Cpu.storeElement, VectorOperand.saturate, h]

-- ---------------------------------------------------------------------------
-- The steps of each loop
-- ---------------------------------------------------------------------------

def mergeValue (VD VA VB : VectorOperand) (LO i : Nat) (a b _ : Vr) : Int :=
  if i % 2 = 0 then VA.getElement a (i / 2 + LO * (VD.count / 2))
  else VB.getElement b (i / 2 + LO * (VD.count / 2))

def packValue (VD VA VB : VectorOperand) (i : Nat) (a b _ : Vr) : Int :=
  VD.element.conv (if i < VD.count / 2 then VA.getElement a i else VB.getElement b (i - VD.count / 2))

def unpackValue (VD VA : VectorOperand) (LO i : Nat) (_ b _ : Vr) : Int :=
  VA.getElement b (i + LO * VD.count)

def unpackPixelValue (LO i : Nat) (_ b _ : Vr) : Int :=
  (pixelWord ((b.h (halfElement (.ofNat 8 (i + LO * 4)))).setWidth 32)).toNat

def shiftOctetValue (SD : ShiftDirection) (VA : VectorOperand) (VB : Option VectorOperand) (sh i : Nat)
    (a b _ : Vr) : Int :=
  match SD with
  | .left => if i + sh < 16 then VA.getElement a (i + sh) else getElement VB b (i - (16 - sh))
  | .right => if i < sh then getElement VB b (16 + (sh - i)) else VA.getElement a (i - sh)

def permuteValue (i : Nat) (a b c : Vr) : Int :=
  let n := c.b (byteElement (.ofNat 16 i)) &&& 0x1f
  let en := byteElement (.ofNat 16 (n &&& 0xf).toNat)
  (if n &&& 0x10 ≠ 0 then b.b en else a.b en).toNat

/-- Half words 0, 4, 1, 5 and so on. -/
def packPixelSteps : List VectorStep :=
  (List.range 4).flatMap fun i =>
    [⟨i, fun a _ _ => ((pixelHalf (a.w (.ofNat 4 i))).setWidth 16).toNat⟩,
      ⟨i + 4, fun _ b _ => ((pixelHalf (b.w (.ofNat 4 i))).setWidth 16).toNat⟩]

/-- A loop that does two steps an iteration. -/
theorem foldl_range_even {α : Type} (f : α → Nat → α) (n : Nat) (hn : n % 2 = 0) (x : α) :
    (List.range n).foldl f x =
      (List.range (n / 2)).foldl (fun x k => f (f x (2 * k)) (2 * k + 1)) x := by
  obtain ⟨n, rfl⟩ : ∃ m, n = 2 * m := ⟨n / 2, by omega⟩
  rw [Nat.mul_div_cancel_left n (by decide)]
  induction n with
  | zero => rfl
  | succ n ih =>
    rw [Nat.mul_succ, List.range_succ, List.range_succ, List.range_succ]
    simp only [List.foldl_append, List.foldl_cons, List.foldl_nil, ih (by omega)]

theorem runSteps_range_eq (VD : VectorOperand) (r : VectorRegs) (n : Nat)
    (value : Nat → Vr → Vr → Vr → Int) (s : Cpu) :
    runSteps VD r (rangeSteps n value) s =
      (List.range n).foldl (fun s i =>
        s.storeElement VD r.d i (value i (s.vr r.a) (s.vr r.b) (s.vr r.c))) s := by
  rw [runSteps, rangeSteps, List.foldl_map]

theorem executeVectorMerge_eq (VD VA VB : VectorOperand) (hsat : VD.saturates = false) (LO : Nat)
    (opcode : Word) (s : Cpu) : executeVectorMerge VD VA VB LO opcode s =
      (runSteps VD (vectorRegs opcode) (rangeSteps VD.count (mergeValue VD VA VB LO)) s).incrementPc 4 := by
  have heven : VD.count % 2 = 0 := by
    unfold VectorOperand.count VectorOperand.size
    cases VD.lane <;> rfl
  rw [runSteps_range_eq, foldl_range_even _ _ heven]
  have hodd (k : Nat) : (2 * k + 1) / 2 = k := by omega
  simp only [storeElement_plain _ VD hsat, mergeValue, Nat.mul_mod_right, Nat.mul_add_mod_self_left,
    if_true, hodd, Nat.mul_div_cancel_left _ (show 0 < 2 by decide), Nat.one_mod, one_ne_zero, if_false]
  rfl

theorem executeVectorPack_eq (VD VA VB : VectorOperand) (opcode : Word) (s : Cpu) :
    executeVectorPack VD VA VB opcode s =
      (runSteps VD (vectorRegs opcode) (rangeSteps VD.count (packValue VD VA VB)) s).incrementPc 4 := by
  rw [runSteps_range_eq]
  rfl

theorem executeVectorUnpack_eq (LO : Nat) (VD VA : VectorOperand) (hsat : VD.saturates = false)
    (opcode : Word) (s : Cpu) : executeVectorUnpack LO VD VA opcode s =
      (runSteps VD (vectorRegs opcode) (rangeSteps VD.count (unpackValue VD VA LO)) s).incrementPc 4 := by
  rw [runSteps_range_eq]
  simp only [storeElement_plain _ VD hsat]
  rfl

/-- A pixel operation stores through the array itself. -/
theorem setElement_half (s : Cpu) (d : BitVec 5) (i : Nat) (x : BitVec 16) :
    s.storeElement .v8HIm d i x.toNat =
      s.setVr d ((s.vr d).setH (halfElement (.ofNat 8 i)) x) := by
  rw [storeElement_plain _ _ rfl]
  simp [Cpu.setElement, VectorOperand.setElement, VectorOperand.index, VectorOperand.v8HIm,
    VectorOperand.plain, Lane.mixedIndex, Vr.setLane]

theorem executeVectorPackPixel_eq (opcode : Word) (s : Cpu) :
    executeVectorPackPixel opcode s =
      (runSteps .v8HIm (vectorRegs opcode) packPixelSteps s).incrementPc 4 := by
  rw [runSteps, packPixelSteps, List.foldl_flatMap]
  simp only [List.foldl_cons, List.foldl_nil, setElement_half]
  rfl

theorem setElement_word (s : Cpu) (d : BitVec 5) (i : Nat) (x : Word) :
    s.storeElement .v4SI d i x.toNat = s.setVr d ((s.vr d).setW (.ofNat 4 i) x) := by
  rw [storeElement_plain _ _ rfl]
  simp [Cpu.setElement, VectorOperand.setElement, VectorOperand.index, VectorOperand.v4SI,
    VectorOperand.plain, Vr.setLane]

theorem executeVectorUnpackPixel_eq (LO : Nat) (opcode : Word) (s : Cpu) :
    executeVectorUnpackPixel LO opcode s =
      (runSteps .v4SI (vectorRegs opcode) (rangeSteps 4 (unpackPixelValue LO)) s).incrementPc 4 := by
  rw [runSteps_range_eq]
  simp only [unpackPixelValue, setElement_word]
  rfl

theorem setElement_byte (s : Cpu) (d : BitVec 5) (i : Nat) (x : Byte) :
    s.storeElement .v16QIm d i x.toNat =
      s.setVr d ((s.vr d).setB (byteElement (.ofNat 16 i)) x) := by
  rw [storeElement_plain _ _ rfl]
  simp [Cpu.setElement, VectorOperand.setElement, VectorOperand.index, VectorOperand.v16QIm,
    VectorOperand.plain, Lane.mixedIndex, Vr.setLane]

theorem executeVectorPermute_eq (opcode : Word) (s : Cpu) :
    executeVectorPermute opcode s =
      (runSteps .v16QIm (vectorRegs opcode) (rangeSteps 16 permuteValue) s).incrementPc 4 := by
  rw [runSteps_range_eq]
  simp only [permuteValue, setElement_byte]
  rfl

theorem executeVectorShiftOctet_eq (SD : ShiftDirection) (VD VA : VectorOperand)
    (VB : Option VectorOperand) (SH : (BitVec 5 → Vr) → Word → Nat) (hsat : VD.saturates = false)
    (opcode : Word) (s : Cpu) : executeVectorShiftOctet SD VD VA VB SH opcode s =
      (runSteps VD (vectorRegs opcode)
        (rangeSteps 16 (shiftOctetValue SD VA VB (SH s.vr opcode))) s).incrementPc 4 := by
  rw [runSteps_range_eq]
  unfold executeVectorShiftOctet forElements shiftOctetValue
  cases SD with
  | left =>
    simp only [storeElement_plain _ VD hsat, vectorRegs]
    congr
    funext s i
    split_ifs <;> rfl
  | right =>
    simp only [storeElement_plain _ VD hsat, vectorRegs]
    congr
    funext s i
    split_ifs <;> rfl

-- ---------------------------------------------------------------------------
-- Steps that read what is still there
-- ---------------------------------------------------------------------------

/-- A handler whose loop is undisturbed has the result that the old contents give. -/
theorem correct_of_undisturbed (insn : MoveInsn) (VD : VectorOperand)
    (value : Nat → Vr → Vr → Vr → Int) (opcode : Word) (s : Cpu)
    (hexec : insn.execute opcode s =
      (runSteps VD (vectorRegs opcode) (rangeSteps VD.count value) s).incrementPc 4)
    (h : ∀ i < VD.count, ∀ x, AgreeOff VD (List.range i) x (s.vr (vDField opcode)) →
      value i (Function.update s.vr (vDField opcode) x (vAField opcode))
        (Function.update s.vr (vDField opcode) x (vBField opcode))
        (Function.update s.vr (vDField opcode) x (vCField opcode)) =
      value i (s.vr (vAField opcode)) (s.vr (vBField opcode)) (s.vr (vCField opcode)))
    (hresult : VD.ofElements (fun i => (VD.saturate (value i (s.vr (vAField opcode))
      (s.vr (vBField opcode)) (s.vr (vCField opcode)))).1) = insn.result opcode s.vr) :
    insn.Correct opcode s := by
  unfold MoveInsn.Correct
  rw [hexec, runSteps_range VD (vectorRegs opcode) s value h, ← hresult]
  rfl

theorem value_lt (l : Lane) (v : Vr) (i : Nat) : AltiVec.value l v i < 2 ^ (8 * l.bytes) := by
  cases l <;> exact BitVec.isLt _

/-- A view of elements without a sign. -/
theorem getElement_unsigned (o : VectorOperand) (h : o.mixed = true ∨ o.lane = .w)
    (hvalue : o.value = ⟨false, 8 * o.lane.bytes⟩) (helement : o.element = o.value) (v : Vr) (i : Nat)
    (hi : i < o.count) : o.getElement v i = AltiVec.value o.lane v i := by
  have hlt := value_lt o.lane v i
  have hmod : (AltiVec.value o.lane v i : Int) % 2 ^ (8 * o.lane.bytes) = AltiVec.value o.lane v i :=
    Int.emod_eq_of_lt (by omega) (by exact_mod_cast hlt)
  rw [o.getElement_guest h v i hi, helement, hvalue]
  simp only [CType.conv, Bool.false_eq_true, if_false, hmod]

theorem merge_correct (insn : MoveInsn) (V : VectorOperand) (LO : Nat) (opcode : Word) (s : Cpu)
    (hexec : insn.execute opcode s = executeVectorMerge V V V LO opcode s)
    (hresult : insn.result opcode s.vr = AltiVec.merge V.lane (LO * (V.count / 2))
      (s.vr (vAField opcode)) (s.vr (vBField opcode)))
    (hsat : V.saturates = false) (horder : V.mixed = true ∨ V.lane = .w)
    (hvalue : V.value = ⟨false, 8 * V.lane.bytes⟩) (helement : V.element = V.value) (hLO : LO ≤ 1)
    (h : LO = 1 ∨ vAField opcode ≠ vDField opcode ∧ vBField opcode ≠ vDField opcode) :
    insn.Correct opcode s := by
  have heven : V.count % 2 = 0 := by
    unfold VectorOperand.count VectorOperand.size
    cases V.lane <;> rfl
  have hlt (i : Nat) (hi : i < V.count) : i / 2 + LO * (V.count / 2) < V.count := by
    interval_cases LO <;> omega
  refine correct_of_undisturbed insn V (mergeValue V V V LO) opcode s
    (hexec.trans (executeVectorMerge_eq V V V hsat LO opcode s)) ?_ ?_
  · intro i hi x hx
    have hread (a : BitVec 5) (ha : LO = 1 ∨ a ≠ vDField opcode) :
        V.getElement (Function.update s.vr (vDField opcode) x a) (i / 2 + LO * (V.count / 2)) =
          V.getElement (s.vr a) (i / 2 + LO * (V.count / 2)) := by
      refine getElement_update hx V a _ (hlt i hi) ?_
      rcases ha with rfl | ha
      · exact .inr (clear_of_le V i _ (by omega) (hlt i hi))
      · exact .inl ha
    unfold mergeValue
    split_ifs
    · exact hread _ (h.imp_right And.left)
    · exact hread _ (h.imp_right And.right)
  · rw [hresult, V.ofElements_guest horder]
    refine ofValues_congr _ _ _ fun i hi => ?_
    simp only [VectorOperand.saturate, hsat, Bool.false_eq_true, if_false, mergeValue]
    split_ifs <;> rw [getElement_unsigned V horder hvalue helement _ _ (hlt i hi)]

theorem pack_correct (insn : MoveInsn) (VD V : VectorOperand) (get : Vr → Nat → Int) (f : Int → Int)
    (opcode : Word) (s : Cpu)
    (hexec : insn.execute opcode s = executeVectorPack VD V V opcode s)
    (hresult : insn.result opcode s.vr = AltiVec.pack VD.lane V.lane get f
      (s.vr (vAField opcode)) (s.vr (vBField opcode)))
    (horder : VD.mixed = true ∨ VD.lane = .w) (hcount : VD.count = 2 * V.count)
    (hclear : ∀ i < V.count, Clear VD (List.range i) V i)
    (hvalue : ∀ v, ∀ j < V.count,
      BitVec.ofInt (8 * VD.lane.bytes) (VD.saturate (VD.element.conv (V.getElement v j))).1 =
        .ofInt (8 * VD.lane.bytes) (f (get v j)))
    (h : vBField opcode ≠ vDField opcode) : insn.Correct opcode s := by
  have hhalf : VD.count / 2 = V.count := by omega
  refine correct_of_undisturbed insn VD (packValue VD V V) opcode s
    (hexec.trans (executeVectorPack_eq VD V V opcode s)) ?_ ?_
  · intro i hi x hx
    unfold packValue
    rw [hhalf]
    split_ifs with hlow
    · rw [getElement_update hx V _ i hlow (.inr (hclear i hlow))]
    · rw [getElement_update hx V _ _ (by omega) (.inl h)]
  · rw [hresult, VD.ofElements_guest horder]
    refine ofValues_congr _ _ _ fun i hi => ?_
    have hi' : i < VD.count := hi
    have hV : 16 / V.lane.bytes = V.count := rfl
    unfold packValue AltiVec.pairValue
    rw [hhalf, hV]
    by_cases hlow : i < V.count
    · rw [if_pos hlow, if_pos hlow]
      exact hvalue _ i hlow
    · rw [if_neg hlow, if_neg hlow]
      exact hvalue _ _ (by omega)

theorem unpack_correct (insn : MoveInsn) (LO : Nat) (VD V : VectorOperand) (opcode : Word) (s : Cpu)
    (hexec : insn.execute opcode s = executeVectorUnpack LO VD V opcode s)
    (hresult : insn.result opcode s.vr =
      AltiVec.unpack VD.lane V.lane (LO * VD.count) (s.vr (vBField opcode)))
    (hsat : VD.saturates = false) (horder : VD.mixed = true ∨ VD.lane = .w)
    (hcount : V.count = 2 * VD.count) (hLO : LO ≤ 1)
    (hvalue : ∀ v, ∀ j < V.count, V.getElement v j = AltiVec.svalue V.lane v j)
    (h : (∀ i < VD.count, Clear VD (List.range i) V (i + LO * VD.count)) ∨
      vBField opcode ≠ vDField opcode) : insn.Correct opcode s := by
  have hlt (i : Nat) (hi : i < VD.count) : i + LO * VD.count < V.count := by
    interval_cases LO <;> omega
  refine correct_of_undisturbed insn VD (unpackValue VD V LO) opcode s
    (hexec.trans (executeVectorUnpack_eq LO VD V hsat opcode s)) ?_ ?_
  · intro i hi x hx
    exact getElement_update hx V _ _ (hlt i hi) (h.symm.imp_right fun h => h i hi)
  · rw [hresult, VD.ofElements_guest horder]
    refine ofValues_congr _ _ _ fun i hi => ?_
    simp only [VectorOperand.saturate, hsat, Bool.false_eq_true, if_false, unpackValue]
    rw [hvalue _ _ (hlt i hi)]

-- ---------------------------------------------------------------------------
-- Pixels
-- ---------------------------------------------------------------------------

theorem pixelHalf_eq (a : Word) : (pixelHalf a).setWidth 16 = AltiVec.packPixel a := by
  apply BitVec.eq_of_getLsbD_eq
  intro i hi
  unfold pixelHalf AltiVec.packPixel
  change _ = BitVec.getLsbD (w := 1 + 5 + 5 + 5) (_ ++ _) i
  rw [BitVec.getLsbD_append, BitVec.getLsbD_append, BitVec.getLsbD_append]
  interval_cases i <;> simp

theorem pixel_sign (h : BitVec 16) :
    h.setWidth 32 &&& 0x8000#32 ≠ 0#32 ↔ h.getLsbD 15 = true := by
  have hbit : 0x8000#32 = BitVec.twoPow 32 15 := rfl
  rw [hbit, BitVec.and_twoPow, BitVec.getLsbD_setWidth]
  cases h.getLsbD 15 <;> simp
  decide

theorem pixelWord_eq (h : BitVec 16) : pixelWord (h.setWidth 32) = AltiVec.unpackPixel h := by
  apply BitVec.eq_of_getLsbD_eq
  intro i hi
  have hsign : (if h.setWidth 32 &&& 0x8000 ≠ 0 then 0xff000000#32 else 0#32) =
      if h.getLsbD 15 then 0xff000000#32 else 0#32 := if_congr (pixel_sign h) rfl rfl
  have hextend : ∀ x : BitVec 1, x.signExtend 8 = if x.getLsbD 0 then 0xff#8 else 0#8 := by decide
  have hbit : (h.extractLsb' 15 1).getLsbD 0 = h.getLsbD 15 := by simp
  unfold pixelWord AltiVec.unpackPixel
  rw [hsign, hextend, hbit]
  change _ = BitVec.getLsbD (w := 8 + 8 + 8 + 8) (_ ++ _) i
  rw [BitVec.getLsbD_append, BitVec.getLsbD_append, BitVec.getLsbD_append]
  cases h.getLsbD 15 <;> interval_cases i <;> simp

theorem conv_toNat (w : Nat) (x : BitVec w) : CType.conv ⟨false, w⟩ (x.toNat : Int) = x.toNat := by
  have hlt := x.isLt
  simp only [CType.conv, Bool.false_eq_true, if_false]
  exact Int.emod_eq_of_lt (by omega) (by exact_mod_cast hlt)

theorem getElement_half (v : Vr) (j : Nat) :
    VectorOperand.v8HIm.getElement v j = (v.h (halfElement (.ofNat 8 j))).toNat := by
  have hconv := conv_toNat 16 (v.h (halfElement (.ofNat 8 j)))
  unfold VectorOperand.getElement
  simp only [VectorOperand.v8HIm, VectorOperand.plain, VectorOperand.index, Lane.mixedIndex, Vr.lane,
    if_true, Fin.ofNat_val_eq_self, CType.uint16, hconv]

theorem getElement_word (v : Vr) (j : Nat) :
    VectorOperand.v4SI.getElement v j = (v.w (.ofNat 4 j)).toNat := by
  have hconv := conv_toNat 32 (v.w (.ofNat 4 j))
  unfold VectorOperand.getElement
  simp only [VectorOperand.v4SI, VectorOperand.plain, VectorOperand.index, Vr.lane,
    Bool.false_eq_true, if_false, CType.uint32, hconv]

theorem getElement_byte (v : Vr) (j : Nat) :
    VectorOperand.v16QIm.getElement v j = (v.b (byteElement (.ofNat 16 j))).toNat := by
  have hconv := conv_toNat 8 (v.b (byteElement (.ofNat 16 j)))
  unfold VectorOperand.getElement
  simp only [VectorOperand.v16QIm, VectorOperand.plain, VectorOperand.index, Lane.mixedIndex, Vr.lane,
    if_true, Fin.ofNat_val_eq_self, CType.uint8, hconv]

theorem getElement_half_value (v : Vr) (j : Nat) (hj : j < 8) :
    VectorOperand.v8HIm.getElement v j = AltiVec.value .h v j :=
  getElement_unsigned .v8HIm (.inl rfl) rfl rfl v j hj

theorem getElement_word_value (v : Vr) (j : Nat) (hj : j < 4) :
    VectorOperand.v4SI.getElement v j = AltiVec.value .w v j :=
  getElement_unsigned .v4SI (.inr rfl) rfl rfl v j hj

theorem unpackPixelValue_eq (LO i : Nat) (a b c : Vr) :
    unpackPixelValue LO i a b c =
      (AltiVec.unpackPixel (.ofInt 16 (VectorOperand.v8HIm.getElement b (i + LO * 4)))).toNat := by
  rw [unpackPixelValue, pixelWord_eq, getElement_half]
  simp

theorem unpackPixel_correct (insn : MoveInsn) (LO : Nat) (opcode : Word) (s : Cpu)
    (hexec : insn.execute opcode s = executeVectorUnpackPixel LO opcode s)
    (hresult : insn.result opcode s.vr = AltiVec.vupkpx (LO * 4) (s.vr (vBField opcode)))
    (hLO : LO ≤ 1)
    (h : (∀ i < 4, Clear .v4SI (List.range i) .v8HIm (i + LO * 4)) ∨
      vBField opcode ≠ vDField opcode) : insn.Correct opcode s := by
  refine correct_of_undisturbed insn .v4SI (unpackPixelValue LO) opcode s
    (hexec.trans (executeVectorUnpackPixel_eq LO opcode s)) ?_ ?_
  · intro i hi x hx
    have hi' : i < 4 := hi
    have hlt : i + LO * 4 < 8 := by omega
    rw [unpackPixelValue_eq, unpackPixelValue_eq,
      getElement_update hx .v8HIm _ _ hlt (h.symm.imp_right fun h => h i hi')]
  · rw [hresult, VectorOperand.ofElements_guest _ (.inr rfl)]
    refine ofValues_congr _ _ _ fun i hi => ?_
    have hi' : i < 4 := hi
    simp only [VectorOperand.saturate, VectorOperand.v4SI, VectorOperand.plain, Bool.false_eq_true,
      if_false, unpackPixelValue_eq]
    have hhalf := BitVec.ofInt_natCast 16 (AltiVec.value .h (s.vr (vBField opcode)) (i + LO * 4))
    rw [getElement_half_value _ _ (by omega), hhalf]

-- ---------------------------------------------------------------------------
-- Octets
-- ---------------------------------------------------------------------------

/-- Bytes as numbers. -/
theorem ofElements_eq_ofValues (f : Fin 16 → Byte) :
    Vr.ofElements f = AltiVec.ofValues .b fun i => (f (.ofNat 16 i)).toNat := by
  unfold AltiVec.ofValues
  congr
  funext k
  simp [Lane.bytes, Nat.mod_one]

theorem getElement_element (v : Vr) (j : Nat) (hj : j < 16) :
    VectorOperand.v16QIm.getElement v j = (v.element ⟨j, hj⟩).toNat := by
  have hindex : Fin.ofNat 16 j = ⟨j, hj⟩ := Fin.ext (Nat.mod_eq_of_lt hj)
  rw [getElement_byte, hindex]
  rfl

/-- A loop over the bytes of the destination. -/
theorem bytes_correct (insn : MoveInsn) (value : Nat → Vr → Vr → Vr → Int) (opcode : Word) (s : Cpu)
    (hexec : insn.execute opcode s =
      (runSteps .v16QIm (vectorRegs opcode) (rangeSteps 16 value) s).incrementPc 4)
    (hvalue : ∀ i : Fin 16, value i (s.vr (vAField opcode)) (s.vr (vBField opcode))
      (s.vr (vCField opcode)) = ((insn.result opcode s.vr).element i).toNat)
    (h : ∀ i < 16, ∀ x, AgreeOff .v16QIm (List.range i) x (s.vr (vDField opcode)) →
      value i (Function.update s.vr (vDField opcode) x (vAField opcode))
        (Function.update s.vr (vDField opcode) x (vBField opcode))
        (Function.update s.vr (vDField opcode) x (vCField opcode)) =
      value i (s.vr (vAField opcode)) (s.vr (vBField opcode)) (s.vr (vCField opcode))) :
    insn.Correct opcode s := by
  refine correct_of_undisturbed insn .v16QIm value opcode s hexec h ?_
  rw [VectorOperand.ofElements_guest _ (.inl rfl),
    (insn.result opcode s.vr).eq_ofElements _ fun _ => rfl, ofElements_eq_ofValues]
  refine ofValues_congr _ _ _ fun i hi => ?_
  have hindex : (Fin.ofNat 16 i).val = i := Nat.mod_eq_of_lt hi
  simp only [VectorOperand.saturate, VectorOperand.v16QIm, VectorOperand.plain, Bool.false_eq_true,
    if_false]
  rw [← hvalue, hindex]

theorem operandSHBO_eq (vr : BitVec 5 → Vr) (opcode : Word) :
    operandSHBO vr opcode = AltiVec.octetShift (vr (vBField opcode)) := by
  have hshift : ∀ x : Byte, (x.setWidth 32 >>> 3 &&& 15#32).toNat = (x >>> 3).toNat % 16 := by decide
  exact hshift _

/-- A shift to the left reads from the next element on. -/
theorem shiftLeft_undisturbed {vr : BitVec 5 → Vr} {d : BitVec 5} {x : Vr} {i : Nat}
    (hx : AgreeOff .v16QIm (List.range i) x (vr d)) (a : BitVec 5) (sh : Nat) (hlow : i + sh < 16) :
    VectorOperand.v16QIm.getElement (Function.update vr d x a) (i + sh) =
      VectorOperand.v16QIm.getElement (vr a) (i + sh) :=
  getElement_update hx .v16QIm a _ hlow (.inr (clear_of_le .v16QIm i _ (by omega) hlow))

theorem vsldoi_correct (opcode : Word) (s : Cpu) (h : MoveInsn.HoldsWhen .vsldoi opcode) :
    MoveInsn.Correct .vsldoi opcode s := by
  refine bytes_correct .vsldoi _ opcode s
    (executeVectorShiftOctet_eq .left .v16QIm .v16QIm (some .v16QIm) operandSHB rfl opcode s)
    (fun i => ?_) fun i hi x hx => ?_
  · have hsh : (vSHField opcode).toFin.val = operandSHB s.vr opcode := rfl
    simp only [shiftOctetValue, MoveInsn.result, AltiVec.vsldoi, Vr.element_ofElements,
      AltiVec.pairByte, hsh]
    split_ifs with hlow
    · exact getElement_element _ _ hlow
    · have hlt : operandSHB s.vr opcode < 16 := (vSHField opcode).isLt
      have hback : i.val - (16 - operandSHB s.vr opcode) = i.val + operandSHB s.vr opcode - 16 := by
        omega
      rw [hback]
      exact getElement_element _ _ (by omega)
  · unfold shiftOctetValue
    simp only
    split_ifs with hlow
    · exact shiftLeft_undisturbed hx _ _ hlow
    · rcases h with h | h
      · rw [Function.update_of_ne h]
      · exact absurd (by simpa [operandSHB, h] using hi) hlow

theorem vslo_correct (opcode : Word) (s : Cpu) : MoveInsn.Correct .vslo opcode s := by
  refine bytes_correct .vslo _ opcode s
    (executeVectorShiftOctet_eq .left .v16QIm .v16QIm none operandSHBO rfl opcode s)
    (fun i => ?_) fun i hi x hx => ?_
  · simp only [shiftOctetValue, MoveInsn.result, AltiVec.vslo, Vr.element_ofElements, operandSHBO_eq]
    split_ifs with hlow
    · exact getElement_element _ _ hlow
    · rfl
  · unfold shiftOctetValue
    simp only
    split_ifs with hlow
    · exact shiftLeft_undisturbed hx _ _ hlow
    · rfl

theorem vsro_correct (opcode : Word) (s : Cpu) (h : MoveInsn.HoldsWhen .vsro opcode) :
    MoveInsn.Correct .vsro opcode s := by
  refine bytes_correct .vsro _ opcode s
    (executeVectorShiftOctet_eq .right .v16QIm .v16QIm none operandSHBO rfl opcode s)
    (fun i => ?_) fun i hi x hx => ?_
  · simp only [shiftOctetValue, MoveInsn.result, AltiVec.vsro, Vr.element_ofElements, operandSHBO_eq]
    rcases lt_or_ge i.val (AltiVec.octetShift (s.vr (vBField opcode))) with hlow | hlow
    · rw [if_pos hlow, if_neg (by omega)]
      rfl
    · rw [if_neg (by omega), if_pos hlow]
      exact getElement_element _ _ _
  · unfold shiftOctetValue
    rw [Function.update_of_ne h]
    rfl

theorem permuteValue_eq (i : Nat) (a b c : Vr) :
    permuteValue i a b c =
      if (VectorOperand.v16QIm.getElement c i).toNat % 32 < 16 then
        VectorOperand.v16QIm.getElement a ((VectorOperand.v16QIm.getElement c i).toNat % 32)
      else VectorOperand.v16QIm.getElement b ((VectorOperand.v16QIm.getElement c i).toNat % 32 - 16) := by
  have hbits : ∀ x : Byte, ((x &&& 0x1f) &&& 0x10 ≠ 0 ↔ ¬ x.toNat % 32 < 16) ∧
      ((x &&& 0x1f) &&& 0xf).toNat = x.toNat % 16 := by decide
  obtain ⟨hhigh, hlow⟩ := hbits (c.b (byteElement (.ofNat 16 i)))
  have hmod := Nat.mod_lt (c.b (byteElement (.ofNat 16 i))).toNat (show 0 < 32 by decide)
  have hsub : (c.b (byteElement (.ofNat 16 i))).toNat % 16 =
      ((c.b (byteElement (.ofNat 16 i))).toNat % 32) % 16 := by omega
  simp only [getElement_byte, Int.toNat_natCast]
  unfold permuteValue
  simp only [hhigh, hlow]
  by_cases hlt : (c.b (byteElement (.ofNat 16 i))).toNat % 32 < 16
  · rw [if_neg (not_not.mpr hlt), if_pos hlt, hsub, Nat.mod_eq_of_lt hlt]
  · have hhalf : ((c.b (byteElement (.ofNat 16 i))).toNat % 32) % 16 =
        (c.b (byteElement (.ofNat 16 i))).toNat % 32 - 16 := by omega
    rw [if_pos hlt, if_neg hlt, hsub, hhalf]

theorem vperm_correct (opcode : Word) (s : Cpu) (h : MoveInsn.HoldsWhen .vperm opcode) :
    MoveInsn.Correct .vperm opcode s := by
  refine bytes_correct .vperm _ opcode s (executeVectorPermute_eq opcode s)
    (fun i => ?_) fun i hi x hx => ?_
  · have hmod := Nat.mod_lt ((s.vr (vCField opcode)).element i).toNat (show 0 < 32 by decide)
    rw [permuteValue_eq, getElement_element _ _ i.isLt, Int.toNat_natCast]
    simp only [MoveInsn.result, AltiVec.vperm, Vr.element_ofElements, AltiVec.pairByte]
    split_ifs with hlt
    · exact getElement_element _ _ hlt
    · exact getElement_element _ _ (by omega)
  · rw [permuteValue_eq, permuteValue_eq, Function.update_of_ne h.1, Function.update_of_ne h.2,
      getElement_update hx .v16QIm _ i hi (.inr (clear_of_le .v16QIm i i le_rfl hi))]

-- ---------------------------------------------------------------------------
-- vpkpx
-- ---------------------------------------------------------------------------

theorem setElement_comm (VD : VectorOperand) (x : Vr) (i j : Nat) (hi : i < VD.count)
    (hj : j < VD.count) (hij : i ≠ j) (v w : Int) :
    VD.setElement (VD.setElement x i v) j w = VD.setElement (VD.setElement x j w) i v := by
  have hne : VD.index i ≠ VD.index j := by
    intro h
    exact hij (by rw [← VD.index_index i hi, h, VD.index_index j hj])
  funext k
  unfold VectorOperand.setElement
  rw [Vr.setLane_apply _ _ _ (VD.index_lt j hj), Vr.setLane_apply _ _ _ (VD.index_lt i hi),
    Vr.setLane_apply _ _ _ (VD.index_lt i hi), Vr.setLane_apply _ _ _ (VD.index_lt j hj)]
  split_ifs with h1 h2
  · exact absurd (h2.symm.trans h1) hne
  · rfl
  · rfl
  · rfl

/-- The order of the stores does not matter. -/
theorem fill_perm (VD : VectorOperand) {l l' : List (Nat × Int)} (h : l.Perm l')
    (hpos : ∀ p ∈ l, p.1 < VD.count) (hnodup : ∀ p ∈ l, ∀ q ∈ l, p.1 = q.1 → p = q) (x : Vr) :
    fill VD l x = fill VD l' x := by
  refine h.foldl_eq' (fun p hp q hq z => ?_) x
  by_cases heq : p.1 = q.1
  · rw [hnodup p hp q hq heq]
  · exact setElement_comm VD z _ _ (hpos p hp) (hpos q hq) heq _ _

/-- Nothing is disturbed where the sources are other registers. -/
theorem undisturbed_of_ne (VD : VectorOperand) (r : VectorRegs) (vr : BitVec 5 → Vr)
    (written : List Nat) (steps : List VectorStep)
    (h : ∀ st ∈ steps, ∀ x, st.value (Function.update vr r.d x r.a) (Function.update vr r.d x r.b)
      (Function.update vr r.d x r.c) = st.value (vr r.a) (vr r.b) (vr r.c)) :
    Undisturbed VD r vr written steps := by
  induction steps generalizing written with
  | nil => trivial
  | cons st steps ih =>
    exact ⟨fun x _ => h st List.mem_cons_self x,
      ih _ fun st' hst' => h st' (List.mem_cons_of_mem st hst')⟩

/-- What `execute_vector_pack_pixel` stores in half word `i`. -/
def packPixelValue (i : Nat) (a b : Vr) : Int :=
  ((pixelHalf (if i < 4 then a.w (.ofNat 4 i) else b.w (.ofNat 4 (i - 4)))).setWidth 16).toNat

theorem packPixelValue_eq (i : Nat) (hi : i < 8) (a b : Vr) :
    packPixelValue i a b = (AltiVec.packPixel (.ofNat 32
      (if i < 4 then AltiVec.value .w a i else AltiVec.value .w b (i - 4)))).toNat := by
  have hword (v : Vr) (j : Nat) (hj : j < 4) : v.w (.ofNat 4 j) = .ofNat 32 (AltiVec.value .w v j) := by
    have hvalue := (getElement_word v j).symm.trans (getElement_word_value v j hj)
    rw [← Int.ofNat_inj.mp hvalue, BitVec.ofNat_toNat, BitVec.setWidth_eq]
  unfold packPixelValue
  rw [pixelHalf_eq]
  split_ifs with hlow
  · rw [hword a i hlow]
  · rw [hword b (i - 4) (by omega)]

theorem stepValues_packPixel (r : VectorRegs) (vr : BitVec 5 → Vr) :
    (stepValues r vr packPixelSteps).Perm
      ((List.range 8).map fun i => (i, packPixelValue i (vr r.a) (vr r.b))) :=
  (show [0, 4, 1, 5, 2, 6, 3, 7].Perm (List.range 8) by decide).map
    fun i => (i, packPixelValue i (vr r.a) (vr r.b))

theorem vpkpx_correct (opcode : Word) (s : Cpu) (h : MoveInsn.HoldsWhen .vpkpx opcode) :
    MoveInsn.Correct .vpkpx opcode s := by
  obtain ⟨ha, hb⟩ := h
  have hundisturbed : Undisturbed .v8HIm (vectorRegs opcode) s.vr [] packPixelSteps := by
    refine undisturbed_of_ne _ _ _ _ _ fun st hst x => ?_
    obtain ⟨i, -, hst⟩ := List.mem_flatMap.mp hst
    rcases List.mem_pair.mp hst with rfl | rfl
    · simp only [vectorRegs, Function.update_of_ne ha]
    · simp only [vectorRegs, Function.update_of_ne hb]
  have hpos : ∀ st ∈ packPixelSteps, st.pos < VectorOperand.v8HIm.count := by
    intro st hst
    obtain ⟨i, hi, hst⟩ := List.mem_flatMap.mp hst
    have hlt := List.mem_range.mp hi
    have hcount : VectorOperand.v8HIm.count = 8 := rfl
    rcases List.mem_pair.mp hst with rfl | rfl <;> simp only [hcount] <;> omega
  have hvalues := stepValues_packPixel (vectorRegs opcode) s.vr
  have hfill : fill .v8HIm (stepValues (vectorRegs opcode) s.vr packPixelSteps) (s.vr (vDField opcode)) =
      AltiVec.vpkpx (s.vr (vAField opcode)) (s.vr (vBField opcode)) := by
    rw [fill_perm .v8HIm hvalues ?_ ?_]
    · refine (fill_range .v8HIm _ _).trans ?_
      rw [VectorOperand.ofElements_guest _ (.inl rfl)]
      refine ofValues_congr _ _ _ fun i hi => ?_
      simp only [VectorOperand.saturate, VectorOperand.v8HIm, VectorOperand.plain, Bool.false_eq_true,
        if_false, packPixelValue_eq i hi]
      rfl
    · intro p hp
      obtain ⟨i, hi, rfl⟩ := List.mem_map.mp (hvalues.mem_iff.mp hp)
      exact List.mem_range.mp hi
    · intro p hp q hq heq
      obtain ⟨i, -, rfl⟩ := List.mem_map.mp (hvalues.mem_iff.mp hp)
      obtain ⟨j, -, rfl⟩ := List.mem_map.mp (hvalues.mem_iff.mp hq)
      obtain rfl : i = j := heq
      rfl
  have hexec : MoveInsn.execute .vpkpx opcode s = executeVectorPackPixel opcode s := rfl
  have hrun := runSteps_eq .v8HIm (vectorRegs opcode) s packPixelSteps hpos hundisturbed
  unfold MoveInsn.Correct
  rw [hexec, executeVectorPackPixel_eq, hrun]
  exact congrArg (Function.update s.vr (vDField opcode)) hfill

end SheepShear.Kpx
