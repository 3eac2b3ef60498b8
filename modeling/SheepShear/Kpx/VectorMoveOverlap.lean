import SheepShear.Kpx.VectorMoveCorrect

/-!
# When vector data movement is right

The registers that may not overlap, instruction by instruction. Where they may,
the loop is undisturbed; where they may not, a register file with one value in
every register gives another result.
-/

namespace SheepShear.Kpx

-- ---------------------------------------------------------------------------
-- Values of the views
-- ---------------------------------------------------------------------------

/-- A view of elements with a sign. -/
theorem getElement_signed (o : VectorOperand) (h : o.mixed = true ∨ o.lane = .w)
    (hvalue : o.value = ⟨true, 8 * o.lane.bytes⟩) (helement : o.element = o.value) (v : Vr) (i : Nat)
    (hi : i < o.count) : o.getElement v i = AltiVec.svalue o.lane v i := by
  rw [o.getElement_guest h v i hi, helement, hvalue]
  simp only [CType.conv, if_true, Int.bmod_bmod, AltiVec.svalue]

theorem saturate_clamp (VD : VectorOperand) (h : VD.saturates = true) (x : Int) :
    (VD.saturate x).1 = AltiVec.clamp VD.value.min VD.value.max x := by
  unfold VectorOperand.saturate AltiVec.clamp
  rw [if_pos h]
  split_ifs <;> rfl

theorem ofInt_conv (t : CType) (x : Int) : BitVec.ofInt t.bits (t.conv x) = .ofInt t.bits x := by
  apply BitVec.eq_of_toInt_eq
  unfold CType.conv
  rw [BitVec.toInt_ofInt, BitVec.toInt_ofInt]
  split_ifs
  · exact Int.bmod_bmod
  · have hpow : (2 : Int) ^ t.bits = ((2 ^ t.bits : Nat) : Int) := by norm_cast
    rw [hpow, Int.emod_bmod]

theorem pack_clamped (VD V : VectorOperand) (get : Vr → Nat → Int) (f : Int → Int)
    (hsat : VD.saturates = true) (hf : f = AltiVec.clamp VD.value.min VD.value.max)
    (hvalue : ∀ v, ∀ j < V.count, VD.element.conv (V.getElement v j) = get v j) (v : Vr) (j : Nat)
    (hj : j < V.count) :
    BitVec.ofInt (8 * VD.lane.bytes) (VD.saturate (VD.element.conv (V.getElement v j))).1 =
      .ofInt (8 * VD.lane.bytes) (f (get v j)) := by
  rw [saturate_clamp VD hsat, hvalue v j hj, hf]

theorem pack_modulo (VD V : VectorOperand) (hsat : VD.saturates = false)
    (hbits : VD.element.bits = 8 * VD.lane.bytes) (get : Vr → Nat → Int)
    (hvalue : ∀ v, ∀ j < V.count, V.getElement v j = get v j) (v : Vr) (j : Nat) (hj : j < V.count) :
    BitVec.ofInt (8 * VD.lane.bytes) (VD.saturate (VD.element.conv (V.getElement v j))).1 =
      .ofInt (8 * VD.lane.bytes) (id (get v j)) := by
  unfold VectorOperand.saturate
  rw [hsat, hvalue v j hj, ← hbits]
  exact ofInt_conv VD.element _

theorem conv_half_signed (v : Vr) (j : Nat) (hj : j < 8) :
    CType.int16.conv (VectorOperand.v8HIm.getElement v j) = AltiVec.svalue .h v j := by
  simp only [getElement_half_value v j hj, CType.conv, CType.int16, if_true, AltiVec.svalue, Lane.bytes]

theorem conv_word_signed (v : Vr) (j : Nat) (hj : j < 4) :
    CType.int32.conv (VectorOperand.v4SI.getElement v j) = AltiVec.svalue .w v j := by
  simp only [getElement_word_value v j hj, CType.conv, CType.int32, if_true, AltiVec.svalue, Lane.bytes]

theorem conv_half_unsigned (v : Vr) (j : Nat) (hj : j < 8) :
    CType.uint16.conv (VectorOperand.v8HIm.getElement v j) = AltiVec.value .h v j := by
  have hlt := value_lt .h v j
  rw [getElement_half_value v j hj]
  exact Int.emod_eq_of_lt (by omega) (by exact_mod_cast hlt)

theorem conv_word_unsigned (v : Vr) (j : Nat) (hj : j < 4) :
    CType.uint32.conv (VectorOperand.v4SI.getElement v j) = AltiVec.value .w v j := by
  have hlt := value_lt .w v j
  rw [getElement_word_value v j hj]
  exact Int.emod_eq_of_lt (by omega) (by exact_mod_cast hlt)

-- ---------------------------------------------------------------------------
-- Right where the registers do not overlap
-- ---------------------------------------------------------------------------

open VectorOperand in
theorem MoveInsn.correct_of_holdsWhen (insn : MoveInsn) (opcode : Word) (s : Cpu)
    (h : insn.HoldsWhen opcode) : insn.Correct opcode s := by
  cases insn with
  | vmrghb => exact merge_correct .vmrghb v16QIm 0 opcode s rfl rfl rfl (.inl rfl) rfl rfl (by decide) (.inr h)
  | vmrghh => exact merge_correct .vmrghh v8HIm 0 opcode s rfl rfl rfl (.inl rfl) rfl rfl (by decide) (.inr h)
  | vmrghw => exact merge_correct .vmrghw v4SI 0 opcode s rfl rfl rfl (.inr rfl) rfl rfl (by decide) (.inr h)
  | vmrglb => exact merge_correct .vmrglb v16QIm 1 opcode s rfl rfl rfl (.inl rfl) rfl rfl (by decide) (.inl rfl)
  | vmrglh => exact merge_correct .vmrglh v8HIm 1 opcode s rfl rfl rfl (.inl rfl) rfl rfl (by decide) (.inl rfl)
  | vmrglw => exact merge_correct .vmrglw v4SI 1 opcode s rfl rfl rfl (.inr rfl) rfl rfl (by decide) (.inl rfl)
  | vpkshss =>
    exact pack_correct .vpkshss (v16QImSat .int8) v8HIm _ _ opcode s rfl rfl (.inl rfl) rfl (by decide)
      (pack_clamped _ _ _ _ rfl rfl conv_half_signed) h
  | vpkshus =>
    exact pack_correct .vpkshus (v16QImSat .uint8) v8HIm _ _ opcode s rfl rfl (.inl rfl) rfl (by decide)
      (pack_clamped _ _ _ _ rfl rfl conv_half_signed) h
  | vpkswss =>
    exact pack_correct .vpkswss (v8HImSat .int16) v4SI _ _ opcode s rfl rfl (.inl rfl) rfl (by decide)
      (pack_clamped _ _ _ _ rfl rfl conv_word_signed) h
  | vpkswus =>
    exact pack_correct .vpkswus (v8HImSat .uint16) v4SI _ _ opcode s rfl rfl (.inl rfl) rfl (by decide)
      (pack_clamped _ _ _ _ rfl rfl conv_word_signed) h
  | vpkuhum =>
    exact pack_correct .vpkuhum v16QIm v8HIm _ _ opcode s rfl rfl (.inl rfl) rfl (by decide)
      (pack_modulo _ _ rfl rfl _ getElement_half_value) h
  | vpkuhus =>
    exact pack_correct .vpkuhus (v16QImUSat .uint8) v8HIm _ _ opcode s rfl rfl (.inl rfl) rfl (by decide)
      (pack_clamped _ _ _ _ rfl rfl conv_half_unsigned) h
  | vpkuwum =>
    exact pack_correct .vpkuwum v8HIm v4SI _ _ opcode s rfl rfl (.inl rfl) rfl (by decide)
      (pack_modulo _ _ rfl rfl _ getElement_word_value) h
  | vpkuwus =>
    exact pack_correct .vpkuwus (v8HImUSat .uint16) v4SI _ _ opcode s rfl rfl (.inl rfl) rfl (by decide)
      (pack_clamped _ _ _ _ rfl rfl conv_word_unsigned) h
  | vpkpx => exact vpkpx_correct opcode s h
  | vupkhsb =>
    exact unpack_correct .vupkhsb 0 v8HIms v16QIms opcode s rfl rfl rfl (.inl rfl) rfl (by decide)
      (getElement_signed _ (.inl rfl) rfl rfl) (.inr h)
  | vupkhsh =>
    exact unpack_correct .vupkhsh 0 v4SIs v8HIms opcode s rfl rfl rfl (.inr rfl) rfl (by decide)
      (getElement_signed _ (.inl rfl) rfl rfl) (.inr h)
  | vupklsb =>
    exact unpack_correct .vupklsb 1 v8HIms v16QIms opcode s rfl rfl rfl (.inl rfl) rfl (by decide)
      (getElement_signed _ (.inl rfl) rfl rfl) (.inl (by decide))
  | vupklsh =>
    exact unpack_correct .vupklsh 1 v4SIs v8HIms opcode s rfl rfl rfl (.inr rfl) rfl (by decide)
      (getElement_signed _ (.inl rfl) rfl rfl) (.inl (by decide))
  | vupkhpx => exact unpackPixel_correct .vupkhpx 0 opcode s rfl rfl (by decide) (.inr h)
  | vupklpx => exact unpackPixel_correct .vupklpx 1 opcode s rfl rfl (by decide) (.inl (by decide))
  | vsldoi => exact vsldoi_correct opcode s h
  | vslo => exact vslo_correct opcode s
  | vsro => exact vsro_correct opcode s h
  | vperm => exact vperm_correct opcode s h

-- ---------------------------------------------------------------------------
-- Wrong where they do
-- ---------------------------------------------------------------------------

/-- The guest's bytes are their own numbers. -/
def countingVr : Vr := .ofElements fun k => .ofNat 8 k

/-- Words that no pack clamps. -/
def smallWordsVr : Vr := .ofElements fun k => if k.val % 4 = 3 then .ofNat 8 k else 0

/-- Selects from the last byte to the first, in turn from either source. -/
def mirrorVr : Vr := .ofElements fun k => .ofNat 8 (15 - k + if k.val % 2 = 1 then 16 else 0)

def Cpu.uniform (X : Vr) : Cpu := { Cpu.initRegisters (fun _ => 0) with vr := fun _ => X }

theorem not_correct_of_runLocal (insn : MoveInsn) (VD : VectorOperand) (X : Vr)
    (steps : List VectorStep) (opcode : Word)
    (hexec : insn.execute opcode (.uniform X) =
      (runSteps VD (vectorRegs opcode) steps (.uniform X)).incrementPc 4)
    (h : runLocal VD (vAField opcode = vDField opcode) (vBField opcode = vDField opcode)
      (vCField opcode = vDField opcode) X steps ≠ insn.result opcode fun _ => X) :
    ¬ insn.Correct opcode (.uniform X) := by
  intro hcorrect
  have hrun := runSteps_uniform VD (vectorRegs opcode) X steps (.uniform X) rfl
  have hvd := congrFun hcorrect (vDField opcode)
  rw [Function.update_self, hexec] at hvd
  exact h (hrun.symm.trans hvd)

/-- The result where every register is the same, of an instruction without an immediate. -/
theorem not_correct_of_overlap (insn : MoveInsn) (VD : VectorOperand) (X : Vr)
    (steps : List VectorStep) (opcode : Word)
    (hexec : insn.execute opcode (.uniform X) =
      (runSteps VD (vectorRegs opcode) steps (.uniform X)).incrementPc 4)
    (hresult : (insn.result opcode fun _ => X) = insn.result 0 fun _ => X)
    (hlocal : ∀ a b c : Bool, (a || b) = true →
      runLocal VD a b c X steps ≠ insn.result 0 fun _ => X)
    (h : ¬ (vAField opcode ≠ vDField opcode ∧ vBField opcode ≠ vDField opcode)) :
    ¬ insn.Correct opcode (.uniform X) := by
  refine not_correct_of_runLocal insn VD X steps opcode hexec ?_
  rw [hresult]
  refine hlocal _ _ _ ?_
  rw [Bool.or_eq_true, decide_eq_true_eq, decide_eq_true_eq]
  tauto

theorem not_correct_of_overlap_b (insn : MoveInsn) (VD : VectorOperand) (X : Vr)
    (steps : List VectorStep) (opcode : Word)
    (hexec : insn.execute opcode (.uniform X) =
      (runSteps VD (vectorRegs opcode) steps (.uniform X)).incrementPc 4)
    (hresult : (insn.result opcode fun _ => X) = insn.result 0 fun _ => X)
    (hlocal : ∀ a c : Bool, runLocal VD a true c X steps ≠ insn.result 0 fun _ => X)
    (h : ¬ vBField opcode ≠ vDField opcode) : ¬ insn.Correct opcode (.uniform X) := by
  refine not_correct_of_runLocal insn VD X steps opcode hexec ?_
  rw [hresult, decide_eq_true (not_not.mp h)]
  exact hlocal _ _

theorem vsldoi_overlap : ∀ sh : BitVec 4, sh ≠ 0 → ∀ a c : Bool,
    runLocal .v16QIm a true c countingVr
        (rangeSteps 16 (shiftOctetValue .left .v16QIm (some .v16QIm) sh.toNat)) ≠
      AltiVec.vsldoi countingVr countingVr sh.toFin := by
  decide +kernel

theorem vsro_overlap : ∀ b c : Bool,
    runLocal .v16QIm true b c countingVr (rangeSteps 16 (shiftOctetValue .right .v16QIm none 1)) ≠
      AltiVec.vsro countingVr countingVr := by
  decide +kernel

open VectorOperand in
theorem MoveInsn.holdsWhen_of_correct (insn : MoveInsn) (opcode : Word)
    (hcorrect : ∀ s, insn.Correct opcode s) : insn.HoldsWhen opcode := by
  by_contra h
  cases insn with
  | vmrghb =>
    exact not_correct_of_overlap .vmrghb v16QIm countingVr _ opcode
      (executeVectorMerge_eq _ _ _ rfl _ _ _) rfl (by decide +kernel) h (hcorrect _)
  | vmrghh =>
    exact not_correct_of_overlap .vmrghh v8HIm countingVr _ opcode
      (executeVectorMerge_eq _ _ _ rfl _ _ _) rfl (by decide +kernel) h (hcorrect _)
  | vmrghw =>
    exact not_correct_of_overlap .vmrghw v4SI countingVr _ opcode
      (executeVectorMerge_eq _ _ _ rfl _ _ _) rfl (by decide +kernel) h (hcorrect _)
  | vpkpx =>
    exact not_correct_of_overlap .vpkpx v8HIm countingVr _ opcode
      (executeVectorPackPixel_eq _ _) rfl (by decide +kernel) h (hcorrect _)
  | vperm =>
    exact not_correct_of_overlap .vperm v16QIm mirrorVr _ opcode
      (executeVectorPermute_eq _ _) rfl (by decide +kernel) h (hcorrect _)
  | vpkshss =>
    exact not_correct_of_overlap_b .vpkshss _ countingVr _ opcode
      (executeVectorPack_eq (v16QImSat .int8) v8HIm v8HIm _ _) rfl (by decide +kernel) h (hcorrect _)
  | vpkshus =>
    exact not_correct_of_overlap_b .vpkshus _ countingVr _ opcode
      (executeVectorPack_eq (v16QImSat .uint8) v8HIm v8HIm _ _) rfl (by decide +kernel) h (hcorrect _)
  | vpkswss =>
    exact not_correct_of_overlap_b .vpkswss _ smallWordsVr _ opcode
      (executeVectorPack_eq (v8HImSat .int16) v4SI v4SI _ _) rfl (by decide +kernel) h (hcorrect _)
  | vpkswus =>
    exact not_correct_of_overlap_b .vpkswus _ smallWordsVr _ opcode
      (executeVectorPack_eq (v8HImSat .uint16) v4SI v4SI _ _) rfl (by decide +kernel) h (hcorrect _)
  | vpkuhum =>
    exact not_correct_of_overlap_b .vpkuhum _ countingVr _ opcode
      (executeVectorPack_eq v16QIm v8HIm v8HIm _ _) rfl (by decide +kernel) h (hcorrect _)
  | vpkuhus =>
    exact not_correct_of_overlap_b .vpkuhus _ countingVr _ opcode
      (executeVectorPack_eq (v16QImUSat .uint8) v8HIm v8HIm _ _) rfl (by decide +kernel) h (hcorrect _)
  | vpkuwum =>
    exact not_correct_of_overlap_b .vpkuwum _ countingVr _ opcode
      (executeVectorPack_eq v8HIm v4SI v4SI _ _) rfl (by decide +kernel) h (hcorrect _)
  | vpkuwus =>
    exact not_correct_of_overlap_b .vpkuwus _ smallWordsVr _ opcode
      (executeVectorPack_eq (v8HImUSat .uint16) v4SI v4SI _ _) rfl (by decide +kernel) h (hcorrect _)
  | vupkhsb =>
    exact not_correct_of_overlap_b .vupkhsb _ countingVr _ opcode
      (executeVectorUnpack_eq 0 v8HIms v16QIms rfl _ _) rfl (by decide +kernel) h (hcorrect _)
  | vupkhsh =>
    exact not_correct_of_overlap_b .vupkhsh _ countingVr _ opcode
      (executeVectorUnpack_eq 0 v4SIs v8HIms rfl _ _) rfl (by decide +kernel) h (hcorrect _)
  | vupkhpx =>
    exact not_correct_of_overlap_b .vupkhpx _ countingVr _ opcode
      (executeVectorUnpackPixel_eq 0 _ _) rfl (by decide +kernel) h (hcorrect _)
  | vsldoi =>
    obtain ⟨hb, hsh⟩ := not_or.mp h
    refine not_correct_of_runLocal .vsldoi v16QIm countingVr _ opcode
      (executeVectorShiftOctet_eq .left v16QIm v16QIm (some v16QIm) operandSHB rfl _ _) ?_ (hcorrect _)
    rw [decide_eq_true (not_not.mp hb)]
    exact vsldoi_overlap _ hsh _ _
  | vsro =>
    have hcount : operandSHBO (Cpu.uniform countingVr).vr opcode = 1 :=
      (operandSHBO_eq _ opcode).trans (show AltiVec.octetShift countingVr = 1 by decide)
    have hexec := executeVectorShiftOctet_eq .right v16QIm v16QIm none operandSHBO rfl opcode
      (.uniform countingVr)
    rw [hcount] at hexec
    refine not_correct_of_runLocal .vsro v16QIm countingVr _ opcode hexec ?_ (hcorrect _)
    rw [decide_eq_true (not_not.mp h)]
    exact vsro_overlap _ _
  | vmrglb | vmrglh | vmrglw | vupklsb | vupklsh | vupklpx | vslo => exact h trivial

-- ---------------------------------------------------------------------------
-- Main result
-- ---------------------------------------------------------------------------

/-- Whatever the vector file, a move gives the AltiVec result if and only if its destination is not
one of the registers that its loop still reads. -/
theorem vectorMove_correct_iff (insn : MoveInsn) (opcode : Word) :
    (∀ s, insn.Correct opcode s) ↔ insn.HoldsWhen opcode :=
  ⟨insn.holdsWhen_of_correct opcode, fun h s => insn.correct_of_holdsWhen opcode s h⟩

/-- `vmrghb v0,v0,v1`. -/
theorem vmrghb_in_place_differs : ¬ MoveInsn.Correct .vmrghb 0x1000080c (.uniform countingVr) := by
  intro h
  have hbyte : ((MoveInsn.execute .vmrghb 0x1000080c (.uniform countingVr)).vr 0).element 2 ≠
      (MoveInsn.result .vmrghb 0x1000080c (Cpu.uniform countingVr).vr).element 2 := by
    decide +kernel
  exact hbyte (congrArg (fun v => Vr.element v 2) ((congrFun h 0).trans (Function.update_self ..)))

end SheepShear.Kpx
