import SheepShear.Kpx.Sse

/-!
# Where the SSE translations are right

One lemma for the result of each sequence on the host, and from it the
comparison with the AltiVec definition.
-/

namespace SheepShear.Kpx

@[simp] theorem runHost_nil (s : HostState) : runHost [] s = s := rfl

@[simp] theorem runHost_cons (insn : HostInsn) (code : List HostInsn) (s : HostState) :
    runHost (insn :: code) s = runHost code (insn.step s) := (rfl)

theorem runHost_append (code code' : List HostInsn) (s : HostState) :
    runHost (code ++ code') s = runHost code' (runHost code s) :=
  List.foldl_append

/-- The code writes one vector register of the processor's, and the host's registers. -/
def Writes (code : List HostInsn) (s : HostState) (vD : BitVec 5) (x : Vr) : Prop :=
  (runHost code s).vr = Function.update s.vr vD x ∧ (runHost code s).gpr = s.gpr ∧
    (runHost code s).host = s.host

-- ---------------------------------------------------------------------------
-- vsldoi
-- ---------------------------------------------------------------------------

/-- Reversed doublewords are the elements from the last one to the first. -/
theorem pshufd_rev (x : Xmm) (k : Fin 16) : Xmm.pshufd 0x1b x k = Vr.element x k.rev := by
  have hindex : ∀ k : Fin 16, byteElement k.rev = ⟨4 * (3 - k / 4) + k % 4, by omega⟩ := by decide
  rw [Xmm.pshufd_reverse, Vr.element, hindex]

theorem pshufd_element (x : Xmm) (i : Fin 16) : Vr.element (Xmm.pshufd 0x1b x) i = x i.rev := by
  rw [Vr.element, pshufd_rev, Vr.element]
  have hindex : ∀ i : Fin 16, byteElement (byteElement i).rev = i.rev := by decide
  rw [hindex]

theorem vsldoi_bytes (x y : Vr) (sh : Fin 16) :
    Xmm.pshufd 0x1b (.por (.pslldq sh (.pshufd 0x1b x)) (.psrldq (16 - sh) (.pshufd 0x1b y))) =
      AltiVec.vsldoi x y sh := by
  apply Vr.eq_ofElements
  intro i
  rw [pshufd_element]
  unfold Xmm.por Xmm.pslldq Xmm.psrldq AltiVec.pairByte
  by_cases hlow : i.val + sh.val < 16
  · have hleft : sh.val ≤ i.rev.val := by simp only [Fin.val_rev]; omega
    have hright : ¬ i.rev.val + (16 - sh.val) < 16 := by simp only [Fin.val_rev]; omega
    rw [if_pos hleft, dif_neg hright, dif_pos hlow, pshufd_rev]
    simp only [BitVec.ofNat_eq_ofNat, BitVec.or_zero]
    congr 1
    ext
    simp only [Fin.val_rev]
    omega
  · have hleft : ¬ sh.val ≤ i.rev.val := by simp only [Fin.val_rev]; omega
    have hright : i.rev.val + (16 - sh.val) < 16 := by simp only [Fin.val_rev]; omega
    rw [if_neg hleft, dif_pos hright, dif_neg hlow, pshufd_rev]
    simp only [BitVec.ofNat_eq_ofNat, BitVec.zero_or]
    congr 1
    ext
    simp only [Fin.val_rev]
    omega

theorem vsldoi_zero (x y : Vr) : AltiVec.vsldoi x y 0 = x := by
  symm
  apply Vr.eq_ofElements
  intro i
  simp [AltiVec.pairByte]

theorem genSse2Vsldoi_writes (vD vA vB : BitVec 5) (sh : Fin 16) (s : HostState) :
    Writes (genSse2Vsldoi vD vA vB sh) s vD (AltiVec.vsldoi (s.vr vA) (s.vr vB) sh) := by
  unfold genSse2Vsldoi Writes
  by_cases hsh : sh = 0
  · subst hsh
    rw [vsldoi_zero]
    by_cases hAD : vA = vD
    · rw [if_pos ⟨rfl, hAD⟩, hAD, Function.update_eq_self]
      exact ⟨rfl, rfl, rfl⟩
    · rw [if_neg (by simp [hAD]), if_pos rfl]
      exact ⟨rfl, rfl, rfl⟩
  · rw [if_neg (by simp [hsh]), if_neg hsh, ← vsldoi_bytes]
    simp [HostInsn.step, XmmOperand.read, XmmOperand.write, HostState.setV]

-- ---------------------------------------------------------------------------
-- vsel
-- ---------------------------------------------------------------------------

theorem vsel_bytes (x y z : Vr) : Xmm.por (.pandn z x) (.pand y z) = AltiVec.vsel x y z := by
  funext k
  apply BitVec.eq_of_getLsbD_eq
  intro n hn
  simp only [Xmm.por, Xmm.pandn, Xmm.pand, AltiVec.vsel, BitVec.getLsbD_or, BitVec.getLsbD_and,
    BitVec.getLsbD_not, BitVec.getLsbD_ofFnLE, hn, decide_true, Bool.true_and, dif_pos]
  cases (z k).getLsbD n <;> simp

theorem genSse2Vsel_writes (vD vA vB vC : BitVec 5) (s : HostState) :
    Writes (genSse2Vsel vD vA vB vC) s vD (AltiVec.vsel (s.vr vA) (s.vr vB) (s.vr vC)) := by
  rw [← vsel_bytes]
  unfold genSse2Vsel Writes
  simp [HostInsn.step, XmmOperand.read, XmmOperand.write, HostState.setV]

-- ---------------------------------------------------------------------------
-- vperm
-- ---------------------------------------------------------------------------

theorem pshufb_vswapMask (x : Xmm) (k : Fin 16) : Xmm.pshufb vswapMask x k = Vr.element x k := by
  have hmask : ∀ k : Fin 16, (vswapMask k).msb = false ∧
      (⟨(vswapMask k).toNat % 16, Nat.mod_lt _ (by decide)⟩ : Fin 16) = byteElement k := by decide
  rw [Xmm.pshufb, (hmask k).1, (hmask k).2]
  rfl

/-- The byte of a mask: an index with its bit 4 copied to the sign. -/
def maskByte (c : Byte) : Byte := (c &&& 0x1f) ||| if c.getLsbD 4 then 0x80 else 0

theorem maskByte_spec (c : Byte) :
    (maskByte c).msb = decide (16 ≤ c.toNat % 32) ∧ (maskByte c).toNat % 16 = c.toNat % 16 := by
  revert c
  decide

theorem maskByte_xor (c : Byte) :
    (maskByte c ^^^ 0x80).msb = !decide (16 ≤ c.toNat % 32) ∧
      (maskByte c ^^^ 0x80).toNat % 16 = c.toNat % 16 := by
  revert c
  decide

theorem getLsbD_index (c : Byte) : (c &&& 0x1f).getLsbD 4 = c.getLsbD 4 := by
  revert c
  decide

theorem and_zeroMask (x : Byte) : x &&& 0x80 = if x.msb then 0x80 else 0 := by
  revert x
  decide

/-- The masks that `gen_ssse3_vperm` makes, in the order of the elements. -/
def permMask (z : Vr) : Xmm :=
  let c := Xmm.pshufb vswapMask (.pand z indexMask)
  .por c (.pand (.psllq 3 c) zeroMask)

theorem permMask_eq (z : Vr) (k : Fin 16) : permMask z k = maskByte (z.element k) := by
  have hindex : Xmm.pshufb vswapMask (.pand z indexMask) k = z.element k &&& 0x1f :=
    pshufb_vswapMask _ k
  unfold permMask maskByte
  simp only [Xmm.por]
  rw [hindex]
  simp only [Xmm.pand, zeroMask, and_zeroMask, Xmm.psllq_three_msb]
  rw [hindex, getLsbD_index]

theorem vperm_bytes (x y z : Vr) :
    Xmm.pshufb vswapMask (.por (.pshufb (permMask z) (.pshufb vswapMask x))
      (.pshufb (.pxor (permMask z) zeroMask) (.pshufb vswapMask y))) = AltiVec.vperm x y z := by
  funext k
  rw [pshufb_vswapMask, AltiVec.vperm, Vr.ofElements, Vr.element]
  generalize byteElement k = i
  obtain ⟨hmsb, hidx⟩ := maskByte_spec (z.element i)
  obtain ⟨hmsb', hidx'⟩ := maskByte_xor (z.element i)
  have hx : Xmm.pshufb vswapMask x = x.element := funext (pshufb_vswapMask x)
  have hy : Xmm.pshufb vswapMask y = y.element := funext (pshufb_vswapMask y)
  have hlt : (z.element i).toNat % 32 < 32 := Nat.mod_lt _ (by decide)
  rw [hx, hy]
  simp only [Xmm.por, Xmm.pshufb, Xmm.pxor, zeroMask, permMask_eq]
  simp only [hmsb, hidx, hmsb', hidx']
  rcases lt_or_ge ((z.element i).toNat % 32) 16 with h | h
  · have hidx : (z.element i).toNat % 16 = (z.element i).toNat % 32 := by omega
    simp [AltiVec.pairByte, h, Nat.not_le.mpr h, hidx]
  · have hidx : (z.element i).toNat % 16 = (z.element i).toNat % 32 - 16 := by omega
    simp [AltiVec.pairByte, h, Nat.not_lt.mpr h, hidx]

theorem genSsse3Vperm_writes (vD vA vB vC : BitVec 5) (s : HostState) :
    Writes (genSsse3Vperm vD vA vB vC) s vD (AltiVec.vperm (s.vr vA) (s.vr vB) (s.vr vC)) := by
  rw [← vperm_bytes]
  unfold genSsse3Vperm Writes permMask
  simp [HostInsn.step, XmmOperand.read, XmmOperand.write, HostState.setV]

-- ---------------------------------------------------------------------------
-- lvx
-- ---------------------------------------------------------------------------

/-- The temporaries after the sum and the mask hold the address. -/
theorem vectorAddress_eq (gpr : BitVec 5 → Word) (rA rB : BitVec 5) :
    AltiVec.vectorAddress gpr rA rB =
      (if rA = 0 then gpr rB else gpr rB + gpr rA) &&& (-16) := by
  unfold AltiVec.vectorAddress
  split_ifs
  · rw [zero_add]
    rfl
  · rw [add_comm]
    rfl

theorem read_gpr (s : HostState) (n : BitVec 5) :
    (HostOperand.gpr n).read s 4 = (s.gpr n).setWidth 64 := by
  ext i hi
  simp [HostOperand.read, HostOperand.byte, ofBytes64, byteAt]
  grind

theorem genAddress_run (rA rB : BitVec 5) (code : List HostInsn) (s : HostState) :
    ∃ t, runHost (genAddress rA rB ++ .and32 (-16) 0 :: code) s = runHost code { s with t } ∧
      (t 0).setWidth 32 = AltiVec.vectorAddress s.gpr rA rB := by
  rw [vectorAddress_eq]
  unfold genAddress
  by_cases hrA : rA = 0
  · rw [if_neg (not_not.mpr hrA), if_pos hrA]
    exact ⟨_, rfl, by simp [HostInsn.step, HostOperand.write, read_gpr]⟩
  · rw [if_pos hrA, if_neg hrA]
    exact ⟨_, rfl, by simp [HostInsn.step, HostOperand.write, HostState.setT, read_gpr]⟩

theorem byteAt_read (s : HostState) (n : Nat) (src : HostOperand) (i : Nat) (hi : i < 8) :
    byteAt (src.read s n) i = if i < n then src.byte s i else 0 :=
  byteAt_ofBytes64 _ i hi

theorem update_zero {α : Type} (a b c x : α) : Function.update ![a, b, c] 0 x = ![x, b, c] := by
  funext i
  fin_cases i <;> rfl

theorem update_one {α : Type} (a b c x : α) : Function.update ![a, b, c] 1 x = ![a, x, c] := by
  funext i
  fin_cases i <;> rfl

theorem update_two {α : Type} (a b c x : α) : Function.update ![a, b, c] 2 x = ![a, b, x] := by
  funext i
  fin_cases i <;> rfl

/-- The temporaries one by one. -/
theorem HostState.exists_temporaries (s : HostState) :
    ∃ t0 t1 t2, s = ⟨s.vr, s.gpr, s.v, ![t0, t1, t2], s.host⟩ := by
  refine ⟨s.t 0, s.t 1, s.t 2, ?_⟩
  obtain ⟨vr, gpr, v, t, host⟩ := s
  congr
  funext i
  fin_cases i <;> rfl

theorem lvx_x86_64 (vD : BitVec 5) (s : HostState) :
    Writes [.mov 8 (.host 0) (.reg 1), .mov 8 (.host 8) (.reg 2), .bswap 8 1, .bswap 8 2, .rol64 1,
      .rol64 2, .mov 8 (.reg 1) (.vr vD 0), .mov 8 (.reg 2) (.vr vD 8)] s vD
      (AltiVec.lvx s.host s.address) := by
  obtain ⟨t0, t1, t2, hs⟩ := s.exists_temporaries
  rw [hs]
  unfold Writes
  simp only [runHost_cons, runHost_nil, HostInsn.step, HostOperand.write, HostState.setT, update_one,
    update_two, HostState.address, HostOperand.read, HostOperand.byte, Matrix.cons_val, and_true,
    Function.update_idem]
  congr
  funext k
  fin_cases k <;>
    simp [byteAt_ofBytes64, byteAt_bswap, byteAt_rotateLeft, AltiVec.lvx, Vr.ofElements, byteElement]

theorem lvx_x86_32 (vD : BitVec 5) (s : HostState) :
    Writes [.mov 4 (.host 0) (.reg 1), .mov 4 (.host 4) (.reg 2), .bswap 4 1, .bswap 4 2,
      .mov 4 (.reg 1) (.vr vD 0), .mov 4 (.reg 2) (.vr vD 4),
      .mov 4 (.host 8) (.reg 1), .mov 4 (.host 12) (.reg 2), .bswap 4 1, .bswap 4 2,
      .mov 4 (.reg 1) (.vr vD 8), .mov 4 (.reg 2) (.vr vD 12)] s vD
      (AltiVec.lvx s.host s.address) := by
  obtain ⟨t0, t1, t2, hs⟩ := s.exists_temporaries
  rw [hs]
  unfold Writes
  simp only [runHost_cons, runHost_nil, HostInsn.step, HostOperand.write, HostState.setT, update_one,
    update_two, HostState.address, HostOperand.read, HostOperand.byte, Matrix.cons_val, and_true,
    Function.update_idem]
  congr
  funext k
  fin_cases k <;>
    simp [byteAt_ofBytes64, byteAt_bswap, AltiVec.lvx, Vr.ofElements, byteElement]

theorem lvx_ssse3 (vD : BitVec 5) (s : HostState) :
    Writes [.movdqa .host (.reg 0), .pshufb (.data vswapMask) 0, .movdqa (.reg 0) (.vr vD)] s vD
      (AltiVec.lvx s.host s.address) := by
  refine ⟨congrArg (Function.update s.vr vD) ?_, rfl, rfl⟩
  funext k
  exact pshufb_vswapMask _ k

-- ---------------------------------------------------------------------------
-- stvx
-- ---------------------------------------------------------------------------

theorem read_reg (s : HostState) (n : Nat) (d : Fin 3) :
    (HostOperand.reg d).read s n = ofBytes64 fun i => if i.val < n then byteAt (s.t d) i else 0 := (rfl)

theorem read_vr (s : HostState) (n : Nat) (v : BitVec 5) (disp : Nat) :
    (HostOperand.vr v disp).read s n =
      ofBytes64 fun i => if i.val < n then s.vr v (.ofNat 16 (disp + i)) else 0 := (rfl)

/-- The code stores a vector and changes nothing else of the processor's. -/
def Stores (code : List HostInsn) (s : HostState) (ea : Word) (x : Vr) : Prop :=
  (runHost code s).vr = s.vr ∧ (runHost code s).gpr = s.gpr ∧
    (runHost code s).host = AltiVec.stvx s.host ea x

theorem setWidth_back (x : Word) : (x.setWidth 64).setWidth 32 = x := by
  simp

theorem ofBytes64_byteAt (x : BitVec 64) : (ofBytes64 fun i => byteAt x i) = x := by
  ext i hi
  simp [ofBytes64, byteAt]
  grind

/-- A swapped word fills the lower half of a register. -/
theorem ofBytes64_bswap (x : BitVec 64) :
    (ofBytes64 fun i => if i.val < 4 then byteAt (bswap 4 x) i else 0) = bswap 4 x := by
  refine Eq.trans ?_ (ofBytes64_byteAt (bswap 4 x))
  congr
  funext i
  rw [byteAt_bswap _ _ _ i.isLt]
  split_ifs <;> rfl

/-- Two quadwords with their doublewords swapped back. -/
theorem stvx_of_quadwords (m : Mem) (a : Word) (x : Vr) :
    (m.storeBytes a 8
      (byteAt ((bswap 8 (ofBytes64 fun i => x (.ofNat 16 (0 + i)))).rotateLeft 32))).storeBytes
      (a + 8#32) 8 (byteAt ((bswap 8 (ofBytes64 fun i => x (.ofNat 16 (8 + i)))).rotateLeft 32)) =
    AltiVec.stvx m a x := by
  refine (m.storeBytes_append a 8 8 _ _ (by decide)).trans ?_
  refine m.storeBytes_congr a 16 _ _ fun i hi => ?_
  interval_cases i <;>
    simp [byteAt_ofBytes64, byteAt_bswap, byteAt_rotateLeft, Vr.element, byteElement]
  all_goals rfl

/-- The word at `disp`, in the order of memory. -/
def swappedWord (x : Vr) (disp : Nat) : BitVec 64 :=
  bswap 4 (ofBytes64 fun i => if i.val < 4 then x (.ofNat 16 (disp + i)) else 0)

theorem stvx_of_words (m : Mem) (a : Word) (x : Vr) :
    (((m.storeBytes a 4 (byteAt (swappedWord x 0))).storeBytes
      (a + 4#32) 4 (byteAt (swappedWord x 4))).storeBytes
      (a + 8#32) 4 (byteAt (swappedWord x 8))).storeBytes
      (a + 12#32) 4 (byteAt (swappedWord x 12)) =
    AltiVec.stvx m a x := by
  rw [m.storeBytes_append a 4 4 _ _ (by decide), m.storeBytes_append a 8 4 _ _ (by decide),
    m.storeBytes_append a 12 4 _ _ (by decide)]
  refine m.storeBytes_congr a 16 _ _ fun i hi => ?_
  interval_cases i <;>
    simp [swappedWord, byteAt_ofBytes64, byteAt_bswap, Vr.element, byteElement]
  all_goals rfl

theorem stvx_x86_64 (vS rA rB : BitVec 5) (s : HostState) :
    Stores (genStvx vS rA rB .x86_64) s (AltiVec.vectorAddress s.gpr rA rB) (s.vr vS) := by
  rw [vectorAddress_eq]
  obtain ⟨t0, t1, t2, hs⟩ := s.exists_temporaries
  rw [hs]
  unfold Stores genStvx
  have hlt (i : Fin 8) : i.val < 8 := i.isLt
  by_cases hrA : rA = 0
  all_goals
    simp only [hrA, ne_eq, not_true_eq_false, not_false_eq_true, if_false, if_true,
      List.append_nil, List.cons_append, List.nil_append, runHost_cons, runHost_nil,
      HostInsn.step, HostOperand.write, HostState.setT, update_zero, update_one, update_two,
      HostState.address, read_gpr, read_reg, read_vr, Matrix.cons_val, true_and, setWidth_back, hlt,
      ofBytes64_byteAt, BitVec.add_zero]
    exact stvx_of_quadwords _ _ _

theorem stvx_x86_32 (vS rA rB : BitVec 5) (s : HostState) :
    Stores (genStvx vS rA rB .x86_32) s (AltiVec.vectorAddress s.gpr rA rB) (s.vr vS) := by
  rw [vectorAddress_eq]
  obtain ⟨t0, t1, t2, hs⟩ := s.exists_temporaries
  rw [hs]
  unfold Stores genStvx
  by_cases hrA : rA = 0
  all_goals
    simp only [hrA, ne_eq, not_true_eq_false, not_false_eq_true, if_false, if_true,
      List.append_nil, List.cons_append, List.nil_append, runHost_cons, runHost_nil,
      HostInsn.step, HostOperand.write, HostState.setT, update_zero, update_one, update_two,
      HostState.address, read_gpr, read_reg, read_vr, Matrix.cons_val, true_and, setWidth_back,
      ofBytes64_bswap, BitVec.add_zero]
    exact stvx_of_words _ _ _

theorem stvx_ssse3 (vS rA rB : BitVec 5) (s : HostState) :
    Stores (genStvx vS rA rB .ssse3) s (AltiVec.vectorAddress s.gpr rA rB) (s.vr vS) := by
  obtain ⟨t, hrun, ht⟩ := genAddress_run rA rB
    [.movdqa (.vr vS) (.reg 0), .pshufb (.data vswapMask) 0, .movdqa (.reg 0) .host] s
  unfold Stores genStvx
  rw [hrun, ← ht]
  have hx : Xmm.pshufb vswapMask (s.vr vS) = (s.vr vS).element := funext (pshufb_vswapMask _)
  refine ⟨rfl, rfl, ?_⟩
  change s.host.storeBytes _ 16 (fun i => Xmm.pshufb vswapMask (s.vr vS) (.ofNat 16 i)) = _
  rw [hx]
  rfl

-- ---------------------------------------------------------------------------
-- Host and guest addresses
-- ---------------------------------------------------------------------------

theorem genLvx_writes (access : VectorAccess) (vD rA rB : BitVec 5) (s : HostState) :
    Writes (genLvx vD rA rB access) s vD
      (AltiVec.lvx s.host (AltiVec.vectorAddress s.gpr rA rB)) := by
  cases access with
  | x86_64 =>
    obtain ⟨t, hrun, ht⟩ := genAddress_run rA rB _ s
    unfold Writes genLvx
    rw [hrun, ← ht]
    exact lvx_x86_64 vD { s with t }
  | x86_32 =>
    obtain ⟨t, hrun, ht⟩ := genAddress_run rA rB _ s
    unfold Writes genLvx
    rw [hrun, ← ht]
    exact lvx_x86_32 vD { s with t }
  | ssse3 =>
    obtain ⟨t, hrun, ht⟩ := genAddress_run rA rB _ s
    unfold Writes genLvx
    rw [hrun, ← ht]
    exact lvx_ssse3 vD { s with t }

theorem genStvx_stores (access : VectorAccess) (vS rA rB : BitVec 5) (s : HostState) :
    Stores (genStvx vS rA rB access) s (AltiVec.vectorAddress s.gpr rA rB) (s.vr vS) := by
  cases access with
  | x86_64 => exact stvx_x86_64 vS rA rB s
  | x86_32 => exact stvx_x86_32 vS rA rB s
  | ssse3 => exact stvx_ssse3 vS rA rB s

/-- Code that only writes a register does so for the guest. -/
theorem Writes.guest {code : List HostInsn} {s : HostState} {vD : BitVec 5} {x : Vr}
    (h : Writes code s vD x) (b : Addressing) :
    (runHost code s).guest b = { s.guest b with vr := Function.update s.vr vD x } := by
  obtain ⟨hvr, hgpr, hhost⟩ := h
  unfold HostState.guest
  rw [hvr, hgpr, hhost]

theorem realAddress_zero (b : Addressing) (h : b.vmBaseDiff = 0) (a : Word) :
    b.realAddress a = a := by
  rw [Addressing.realAddress, h, zero_add]

theorem lvx_correct_iff (b : Addressing) (access : VectorAccess) (vD rA rB : BitVec 5)
    (s : HostState) : (VectorInsn.lvx access vD rA rB).Correct b s ↔
      (VectorInsn.lvx access vD rA rB).HoldsWhen b s := by
  unfold VectorInsn.Correct VectorInsn.HoldsWhen VectorInsn.compile VectorInsn.exec
  rw [(genLvx_writes access vD rA rB s).guest b]
  constructor
  · intro h
    right
    intro i
    have hvr : Function.update s.vr vD _ vD = Function.update s.vr vD _ vD :=
      congrArg (fun g : GuestState => g.vr vD) h
    rw [Function.update_self, Function.update_self] at hvr
    have hbyte := congrArg (fun x => Vr.element x i) hvr
    simp only [AltiVec.lvx, Vr.element_ofElements] at hbyte
    exact hbyte
  · intro h
    have hbytes : ∀ i : Fin 16, s.host (AltiVec.vectorAddress s.gpr rA rB + .ofNat 32 i) =
        s.host (b.realAddress (AltiVec.vectorAddress s.gpr rA rB + .ofNat 32 i)) := by
      rcases h with hdiff | h
      · intro i
        rw [realAddress_zero b hdiff]
      · exact h
    have hload : AltiVec.lvx s.host (AltiVec.vectorAddress s.gpr rA rB) =
        AltiVec.lvx (s.guest b).mem (AltiVec.vectorAddress s.gpr rA rB) :=
      congrArg Vr.ofElements (funext hbytes)
    rw [hload]
    rfl

/-- Blocks of 16 bytes at the host's and at the guest's address do not meet. -/
theorem vmBaseDiff_far (b : Addressing) (h : b.vmBaseDiff ≠ 0) (d : Word) (hd : d.toNat < 16) :
    16 ≤ (b.vmBaseDiff + d).toNat ∧ 16 ≤ (d - b.vmBaseDiff).toNat := by
  have hpos : b.vmBaseDiff.toNat ≠ 0 := fun h0 => h (BitVec.eq_of_toNat_eq h0)
  have hlt := b.vmBaseDiff.isLt
  have hpage := b.page
  constructor
  · rw [BitVec.toNat_add]
    omega
  · rw [BitVec.toNat_sub]
    omega

theorem stvx_in (m : Mem) (ea d : Word) (v : Vr) (hd : d.toNat < 16) :
    AltiVec.stvx m ea v (ea + d) = v.element ⟨d.toNat, hd⟩ := by
  unfold AltiVec.stvx Mem.storeBytes
  rw [add_sub_cancel_left, if_pos hd]
  exact congrArg v.element (Fin.ext (Nat.mod_eq_of_lt hd))

theorem stvx_out (m : Mem) (ea d : Word) (v : Vr) (hd : 16 ≤ d.toNat) :
    AltiVec.stvx m ea v (ea + d) = m (ea + d) := by
  unfold AltiVec.stvx Mem.storeBytes
  rw [add_sub_cancel_left, if_neg (by omega)]

theorem stvx_correct_iff (b : Addressing) (access : VectorAccess) (vS rA rB : BitVec 5)
    (s : HostState) : (VectorInsn.stvx access vS rA rB).Correct b s ↔
      (VectorInsn.stvx access vS rA rB).HoldsWhen b s := by
  obtain ⟨hvr, hgpr, hhost⟩ := genStvx_stores access vS rA rB s
  unfold VectorInsn.Correct VectorInsn.HoldsWhen VectorInsn.compile VectorInsn.exec HostState.guest
  simp only
  rw [hvr, hgpr, hhost]
  generalize AltiVec.vectorAddress s.gpr rA rB = ea
  by_cases hdiff : b.vmBaseDiff = 0
  · refine iff_of_true ?_ (.inl hdiff)
    simp only [realAddress_zero b hdiff]
  have hfar := vmBaseDiff_far b hdiff
  have hreal (d : Word) : b.realAddress (ea + d) = ea + (b.vmBaseDiff + d) :=
    add_left_comm b.vmBaseDiff ea d
  have hword (i : Fin 16) : (BitVec.ofNat 32 i.val).toNat = i.val := by
    rw [BitVec.toNat_ofNat, Nat.mod_eq_of_lt (by omega)]
  constructor
  · intro h
    right
    intro i
    have hmem (d : Word) : AltiVec.stvx s.host ea (s.vr vS) (b.realAddress (ea + d)) =
        AltiVec.stvx (fun a => s.host (b.realAddress a)) ea (s.vr vS) (ea + d) :=
      congrFun (congrArg GuestState.mem h) (ea + d)
    obtain ⟨hadd, hsub⟩ := hfar (.ofNat 32 i) (by rw [hword]; exact i.isLt)
    have hin (m : Mem) : AltiVec.stvx m ea (s.vr vS) (ea + .ofNat 32 i) = (s.vr vS).element i := by
      rw [stvx_in m ea _ _ (by rw [hword]; exact i.isLt)]
      simp only [hword]
    constructor
    · -- the guest's address of the place that was written
      have hhostPlace := hmem (.ofNat 32 i - b.vmBaseDiff)
      rw [stvx_out _ _ _ _ hsub, hreal, add_sub_cancel, hin] at hhostPlace
      exact hhostPlace.symm
    · have hguestPlace := hmem (.ofNat 32 i)
      rwa [hin, hreal, stvx_out _ _ _ _ hadd, ← hreal] at hguestPlace
  · rintro (h | h)
    · exact absurd h hdiff
    congr
    funext a
    obtain ⟨d, rfl⟩ : ∃ d, a = ea + d := ⟨a - ea, (add_sub_cancel ea a).symm⟩
    rw [hreal]
    rcases lt_or_ge d.toNat 16 with hd | hd
    · rw [stvx_in _ _ _ _ hd, stvx_out _ _ _ _ (hfar d hd).1, ← hreal]
      have hbyte := (h ⟨d.toNat, hd⟩).2
      rwa [BitVec.ofNat_toNat, BitVec.setWidth_eq] at hbyte
    · rw [stvx_out _ _ _ _ hd, hreal]
      rcases lt_or_ge (b.vmBaseDiff + d).toNat 16 with hd' | hd'
      · have hbyte := (h ⟨(b.vmBaseDiff + d).toNat, hd'⟩).1
        rw [BitVec.ofNat_toNat, BitVec.setWidth_eq] at hbyte
        rw [stvx_in _ _ _ _ hd', hbyte]
      · exact stvx_out _ _ _ _ hd'

/-- The sequences compute the AltiVec result; `lvx` and `stvx` only where the guest's address is
the host's, or where it makes no difference. -/
theorem vector_correct_iff (b : Addressing) (insn : VectorInsn) (s : HostState) :
    insn.Correct b s ↔ insn.HoldsWhen b s := by
  cases insn with
  | vsldoi vD vA vB sh => exact iff_of_true ((genSse2Vsldoi_writes vD vA vB sh s).guest b) trivial
  | vsel vD vA vB vC => exact iff_of_true ((genSse2Vsel_writes vD vA vB vC s).guest b) trivial
  | vperm vD vA vB vC => exact iff_of_true ((genSsse3Vperm_writes vD vA vB vC s).guest b) trivial
  | lvx access vD rA rB => exact lvx_correct_iff b access vD rA rB s
  | stvx access vS rA rB => exact stvx_correct_iff b access vS rA rB s

/-- The offset of a Windows build. -/
def windowsAddressing : Addressing := ⟨0x11000000, by decide⟩

/-- The guest's byte 0 is 1, at host address 0x11000000; the rest of the host's memory is 0. -/
def lvxState : HostState :=
  ⟨fun _ => 0, fun _ => 0, fun _ => 0, fun _ => 0, Function.update (fun _ => 0) 0x11000000 1⟩

/-- `lvx v1,0,r2` loads zeros. -/
theorem lvx_reads_host_address :
    ¬ ∀ (b : Addressing) (insn : VectorInsn) (s : HostState), insn.Correct b s := by
  intro h
  have hcorrect := h windowsAddressing (.lvx .ssse3 1 0 2) lvxState
  have hloaded : ((runHost (VectorInsn.compile (.lvx .ssse3 1 0 2)) lvxState).guest
      windowsAddressing).vr 1 3 = 0 := by decide +kernel
  have hwanted : (VectorInsn.exec (lvxState.guest windowsAddressing) (.lvx .ssse3 1 0 2)).vr 1 3 = 1 := by
    decide +kernel
  rw [hcorrect, hwanted] at hloaded
  cases hloaded

end SheepShear.Kpx
