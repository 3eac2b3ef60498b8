import SheepShear.Kpx.LoadStore

/-!
# String transfers

`lswi`, `lswx`, `stswi` and `stswx`. The load takes whole words and then what is
left over; the definition it replaces, byte by byte, is kept in the source and
here. A string that is loaded and stored again is copied, and the registers hold
it from the first one on, wrapping from the last to register 0.
-/

namespace SheepShear.Kpx

-- ---------------------------------------------------------------------------
-- The handlers
-- ---------------------------------------------------------------------------

def nbField (opcode : Word) : BitVec 5 := bitField 16 20 opcode

def operandNb : Operand := fun _ opcode => (nbField opcode).setWidth 32
def operandXerCount : Operand := fun r _ => r.xer.byteCount.setWidth 32

/-- `ea` of a transfer. -/
def stringAddress (RA : Operand) (im : Bool) (opcode : Word) (r : Regs) : Word :=
  let ea := RA r opcode
  if !im then ea + operandRB r opcode else ea

/-- `nb` of a transfer. -/
def stringCount (im : Bool) (NB : Operand) (opcode : Word) (r : Regs) : Nat :=
  let nb := (NB r opcode).toNat
  if im ∧ nb = 0 then 32 else nb

/-- The loop over the words and the switch after it; `left` is `nb - i`. -/
def loadStringWords (ea : Word) : (left i : Nat) → (rd : BitVec 5) → Cpu → Cpu
  | left + 4, i, rd, s =>
    loadStringWords ea left (i + 4) (rd + 1) (s.setGpr rd (vmRead s.mem (ea + .ofNat 32 i) .four))
  | 0, _, _, s => s
  | 1, i, rd, s => s.setGpr rd (vmRead s.mem (ea + .ofNat 32 i) .one <<< 24)
  | 2, i, rd, s => s.setGpr rd (vmRead s.mem (ea + .ofNat 32 i) .two <<< 16)
  | 3, i, rd, s =>
    s.setGpr rd ((vmRead s.mem (ea + .ofNat 32 i) .two <<< 16) +
      (vmRead s.mem (ea + .ofNat 32 i + 2) .one <<< 8))

/-- The loop in the other branch of the `#if`. -/
def loadStringBytes (ea : Word) : (left i : Nat) → (rd : BitVec 5) → Cpu → Cpu
  | 0, _, _, s => s
  | left + 1, i, rd, s =>
    let byte := vmRead s.mem (ea + .ofNat 32 i) .one
    let gprRd := s.regs.gpr rd
    match i &&& 3 with
    | 0 => loadStringBytes ea left (i + 1) rd (s.setGpr rd (byte <<< 24))
    | 1 => loadStringBytes ea left (i + 1) rd (s.setGpr rd ((gprRd &&& 0xff00ffff#32) ||| (byte <<< 16)))
    | 2 => loadStringBytes ea left (i + 1) rd (s.setGpr rd ((gprRd &&& 0xffff00ff#32) ||| (byte <<< 8)))
    | _ => loadStringBytes ea left (i + 1) (rd + 1) (s.setGpr rd ((gprRd &&& 0xffffff00#32) ||| byte))

def executeLoadString (RA : Operand) (im : Bool) (NB : Operand) (opcode : Word) (s : Cpu) : Cpu :=
  (loadStringWords (stringAddress RA im opcode s.regs) (stringCount im NB opcode s.regs) 0
    (rDField opcode) s).incrementPc 4

def executeLoadStringBytes (RA : Operand) (im : Bool) (NB : Operand) (opcode : Word) (s : Cpu) : Cpu :=
  (loadStringBytes (stringAddress RA im opcode s.regs) (stringCount im NB opcode s.regs) 0
    (rDField opcode) s).incrementPc 4

def storeStringLoop (ea : Word) : (left i : Nat) → (rs : BitVec 5) → (sh : Int) → Cpu → Cpu
  | 0, _, _, _, s => s
  | left + 1, i, rs, sh, s =>
    let s : Cpu := { s with mem := vmWrite s.mem (ea + .ofNat 32 i) (s.regs.gpr rs >>> sh.toNat) .one }
    let sh := sh - 8
    if sh < 0 then storeStringLoop ea left (i + 1) (rs + 1) 24 s
    else storeStringLoop ea left (i + 1) rs sh s

def executeStoreString (RA : Operand) (im : Bool) (NB : Operand) (opcode : Word) (s : Cpu) : Cpu :=
  (storeStringLoop (stringAddress RA im opcode s.regs) (stringCount im NB opcode s.regs) 0
    (rSField opcode) 24 s).incrementPc 4

/-- The rows of `powerpc_ii_table`; `im` tells `lswi` and `stswi` from `lswx` and `stswx`. -/
def stringNb (im : Bool) : Operand := if im then operandNb else operandXerCount

def loadString (im : Bool) : Word → Cpu → Cpu := executeLoadString operandRAOr0 im (stringNb im)
def storeString (im : Bool) : Word → Cpu → Cpu := executeStoreString operandRAOr0 im (stringNb im)

-- ---------------------------------------------------------------------------
-- Bytes of a word
-- ---------------------------------------------------------------------------

theorem ofBytes_first (b : Byte) : b.setWidth 32 <<< 24 =
    Word.ofBytes b 0 0 0 := by
  apply BitVec.eq_of_getLsbD_eq
  intro i hi
  simp only [Word.ofBytes, BitVec.getLsbD_append, BitVec.getLsbD_shiftLeft, BitVec.getLsbD_setWidth]
  interval_cases i <;> simp

theorem ofBytes_second (b0 b1 b2 b3 b : Byte) : (Word.ofBytes b0 b1 b2 b3 &&& 0xff00ffff#32) ||| (b.setWidth 32 <<< 16) =
    Word.ofBytes b0 b b2 b3 := by
  apply BitVec.eq_of_getLsbD_eq
  intro i hi
  simp only [Word.ofBytes, BitVec.getLsbD_or, BitVec.getLsbD_and, BitVec.getLsbD_append,
    BitVec.getLsbD_shiftLeft, BitVec.getLsbD_setWidth]
  interval_cases i <;> simp

theorem ofBytes_third (b0 b1 b2 b3 b : Byte) : (Word.ofBytes b0 b1 b2 b3 &&& 0xffff00ff#32) ||| (b.setWidth 32 <<< 8) =
    Word.ofBytes b0 b1 b b3 := by
  apply BitVec.eq_of_getLsbD_eq
  intro i hi
  simp only [Word.ofBytes, BitVec.getLsbD_or, BitVec.getLsbD_and, BitVec.getLsbD_append,
    BitVec.getLsbD_shiftLeft, BitVec.getLsbD_setWidth]
  interval_cases i <;> simp

theorem ofBytes_fourth (b0 b1 b2 b3 b : Byte) : (Word.ofBytes b0 b1 b2 b3 &&& 0xffffff00#32) ||| b.setWidth 32 =
    Word.ofBytes b0 b1 b2 b := by
  apply BitVec.eq_of_getLsbD_eq
  intro i hi
  simp only [Word.ofBytes, BitVec.getLsbD_or, BitVec.getLsbD_and, BitVec.getLsbD_append,
    BitVec.getLsbD_setWidth]
  interval_cases i <;> simp

theorem ofBytes_half (b0 b1 : Byte) : (b0 ++ b1).setWidth 32 <<< 16 =
    Word.ofBytes b0 b1 0 0 := by
  apply BitVec.eq_of_getLsbD_eq
  intro i hi
  simp only [Word.ofBytes, BitVec.getLsbD_append, BitVec.getLsbD_shiftLeft, BitVec.getLsbD_setWidth]
  interval_cases i <;> simp

theorem ofBytes_three (b0 b1 b2 : Byte) :
    ((b0 ++ b1).setWidth 32 <<< 16) + (b2.setWidth 32 <<< 8) = Word.ofBytes b0 b1 b2 0 := by
  have hdisjoint : (Word.ofBytes b0 b1 0 0) &&& (b2.setWidth 32 <<< 8) = 0#32 := by
    apply BitVec.eq_of_getLsbD_eq
    intro i hi
    simp only [Word.ofBytes, BitVec.getLsbD_and, BitVec.getLsbD_append, BitVec.getLsbD_shiftLeft,
      BitVec.getLsbD_setWidth]
    interval_cases i <;> simp
  have hmask : Word.ofBytes b0 b1 0 0 &&& 0xffff00ff#32 = Word.ofBytes b0 b1 0 0 := by
    apply BitVec.eq_of_getLsbD_eq
    intro i hi
    simp only [Word.ofBytes, BitVec.getLsbD_and, BitVec.getLsbD_append]
    interval_cases i <;> simp
  rw [ofBytes_half, BitVec.add_eq_or_of_and_eq_zero _ _ hdisjoint, ← hmask, ofBytes_third]

-- ---------------------------------------------------------------------------
-- The load
-- ---------------------------------------------------------------------------

@[simp] theorem Cpu.setGpr_mem (s : Cpu) (n : BitVec 5) (v : Word) : (s.setGpr n v).mem = s.mem := rfl

@[simp] theorem Cpu.setGpr_gpr_self (s : Cpu) (n : BitVec 5) (v : Word) :
    (s.setGpr n v).regs.gpr n = v := if_pos rfl

@[simp] theorem Cpu.setGpr_setGpr (s : Cpu) (n : BitVec 5) (v w : Word) :
    (s.setGpr n v).setGpr n w = s.setGpr n w := by
  simp only [Cpu.setGpr, Regs.setGpr]
  congr 2
  funext k
  split <;> rfl

theorem vmRead_one (m : Mem) (ea : Word) : vmRead m ea .one = (m ea).setWidth 32 := rfl

theorem vmRead_four (m : Mem) (ea : Word) (i : Nat) :
    vmRead m (ea + .ofNat 32 i) .four = .ofBytes (m (ea + .ofNat 32 i)) (m (ea + .ofNat 32 (i + 1)))
      (m (ea + .ofNat 32 (i + 2))) (m (ea + .ofNat 32 (i + 3))) := by
  simp only [vmRead, Mem.readInt32, BitVec.ofNat_add, add_assoc]
  rfl

theorem vmRead_two (m : Mem) (ea : Word) (i : Nat) :
    vmRead m (ea + .ofNat 32 i) .two =
      (m (ea + .ofNat 32 i) ++ m (ea + .ofNat 32 (i + 1))).setWidth 32 := by
  simp only [vmRead, Mem.readInt16, BitVec.ofNat_add, add_assoc]
  rfl

/-- The position in the register, from the start of a word on. -/
theorem and_three {i : Nat} (hi : i % 4 = 0) :
    i &&& 3 = 0 ∧ (i + 1) &&& 3 = 1 ∧ (i + 1 + 1) &&& 3 = 2 ∧ (i + 1 + 1 + 1) &&& 3 = 3 := by
  have hmask (j : Nat) : j &&& 3 = j % 4 := Nat.and_two_pow_sub_one_eq_mod j 2
  simp only [hmask]
  omega

/-- Four bytes of the other definition, from the start of a word on. -/
theorem loadStringBytes_four (ea : Word) (left : Nat) {i : Nat} (hi : i % 4 = 0) (rd : BitVec 5)
    (s : Cpu) : loadStringBytes ea (left + 4) i rd s =
      loadStringBytes ea left (i + 4) (rd + 1) (s.setGpr rd (vmRead s.mem (ea + .ofNat 32 i) .four)) := by
  obtain ⟨h0, h1, h2, h3⟩ := and_three hi
  rw [vmRead_four]
  simp only [loadStringBytes, h0, h1, h2, h3, vmRead_one, Cpu.setGpr_mem, Cpu.setGpr_gpr_self,
    Cpu.setGpr_setGpr, ofBytes_first, ofBytes_second, ofBytes_third, ofBytes_fourth]

theorem loadStringWords_eq_bytes (ea : Word) (left : Nat) {i : Nat} (hi : i % 4 = 0) (rd : BitVec 5)
    (s : Cpu) : loadStringWords ea left i rd s = loadStringBytes ea left i rd s := by
  fun_induction loadStringWords ea left i rd s with
  | case1 left i rd s ih =>
    rw [loadStringBytes_four ea left hi]
    exact ih (by omega)
  | case2 => rfl
  | case3 i rd s =>
    obtain ⟨h0, -⟩ := and_three hi
    simp only [loadStringBytes, h0]
  | case4 i rd s =>
    obtain ⟨h0, h1, -⟩ := and_three hi
    simp only [loadStringBytes, h0, h1, vmRead_one, vmRead_two, Cpu.setGpr_mem, Cpu.setGpr_gpr_self,
      Cpu.setGpr_setGpr, ofBytes_first, ofBytes_second, ofBytes_half]
  | case5 i rd s =>
    obtain ⟨h0, h1, h2, -⟩ := and_three hi
    have htwo : ea + .ofNat 32 i + 2 = ea + .ofNat 32 (i + 1 + 1) := by
      rw [BitVec.ofNat_add, BitVec.ofNat_add, add_assoc, add_assoc]
      rfl
    simp only [loadStringBytes, h0, h1, h2, htwo, vmRead_one, vmRead_two, Cpu.setGpr_mem,
      Cpu.setGpr_gpr_self, Cpu.setGpr_setGpr, ofBytes_first, ofBytes_second, ofBytes_third,
      ofBytes_three]

-- ---------------------------------------------------------------------------
-- What the registers hold
-- ---------------------------------------------------------------------------

/-- Byte `j` of the string of `n` bytes at `ea`, and zeros after it. -/
def stringByte (m : Mem) (ea : Word) (n j : Nat) : Byte := if j < n then m (ea + .ofNat 32 j) else 0

/-- Word `k` of the string. -/
def stringWord (m : Mem) (ea : Word) (n k : Nat) : Word :=
  .ofBytes (stringByte m ea n (4 * k)) (stringByte m ea n (4 * k + 1)) (stringByte m ea n (4 * k + 2))
    (stringByte m ea n (4 * k + 3))

def Cpu.withGpr (s : Cpu) (f : BitVec 5 → Word) : Cpu := { s with regs := { s.regs with gpr := f } }

/-- The registers from `rd` on with the words of the string from word `k` on. -/
def stringGpr (ea : Word) (n k : Nat) (rd : BitVec 5) (s : Cpu) (r : BitVec 5) : Word :=
  if 4 * (k + (r - rd).toNat) < n then stringWord s.mem ea n (k + (r - rd).toNat) else s.regs.gpr r

theorem stringGpr_done (ea : Word) {n k : Nat} (h : n ≤ 4 * k) (rd : BitVec 5) (s : Cpu) :
    stringGpr ea n k rd s = s.regs.gpr := by
  funext r
  exact if_neg (by omega)

/-- One word more; no register is written twice. -/
theorem stringGpr_step (ea : Word) {n k : Nat} (hk : 4 * k < n) (hn : n ≤ 4 * k + 128) (rd : BitVec 5)
    (s : Cpu) : stringGpr ea n (k + 1) (rd + 1) (s.setGpr rd (stringWord s.mem ea n k)) =
      stringGpr ea n k rd s := by
  funext r
  by_cases hr : r = rd
  · subst hr
    have hlast : (r - (r + 1)).toNat = 31 := by
      rw [sub_add_eq_sub_sub, sub_self, zero_sub]
      rfl
    have hfirst : (r - r).toNat = 0 := by rw [sub_self]; rfl
    rw [stringGpr, stringGpr, hlast, hfirst, if_neg (by omega), if_pos (by omega), Cpu.setGpr_gpr_self,
      Nat.add_zero]
  · have hnext : k + 1 + (r - (rd + 1)).toNat = k + (r - rd).toNat := by
      have hpred : ∀ d : BitVec 5, d ≠ 0 → (d - 1).toNat + 1 = d.toNat := by decide
      have hsub := hpred (r - rd) (sub_ne_zero.mpr hr)
      rw [sub_add_eq_sub_sub]
      omega
    have hother : (s.setGpr rd (stringWord s.mem ea n k)).regs.gpr r = s.regs.gpr r := if_neg hr
    rw [stringGpr, stringGpr, hnext, hother, Cpu.setGpr_mem]

theorem withGpr_setGpr (s : Cpu) (rd : BitVec 5) (v : Word) (f : BitVec 5 → Word) :
    (s.setGpr rd v).withGpr f = s.withGpr f := rfl

theorem stringByte_lt (m : Mem) (ea : Word) {n j : Nat} (h : j < n) :
    stringByte m ea n j = m (ea + .ofNat 32 j) := if_pos h

theorem stringByte_ge (m : Mem) (ea : Word) {n j : Nat} (h : n ≤ j) : stringByte m ea n j = 0 :=
  if_neg (Nat.not_lt.mpr h)

/-- The words that are left go to registers that are not written again. -/
theorem loadStringWords_eq (ea : Word) (n left k : Nat) (hn : 4 * k + left = n) (hleft : left ≤ 128)
    (rd : BitVec 5) (s : Cpu) :
    loadStringWords ea left (4 * k) rd s = s.withGpr (stringGpr ea n k rd s) := by
  induction left using Nat.strongRecOn generalizing k rd s with
  | ind left ih =>
    have hstep (hpos : 0 < left) : (s.setGpr rd (stringWord s.mem ea n k)).withGpr
        (stringGpr ea n (k + 1) (rd + 1) (s.setGpr rd (stringWord s.mem ea n k))) =
          s.withGpr (stringGpr ea n k rd s) := by
      rw [withGpr_setGpr, stringGpr_step ea (by omega) (by omega)]
    have hlast (hpos : 0 < left) (hfew : left < 4) :
        s.setGpr rd (stringWord s.mem ea n k) = s.withGpr (stringGpr ea n k rd s) := by
      rw [← hstep hpos, stringGpr_done ea (by omega)]
      rfl
    rcases left with _ | _ | _ | _ | left
    · rw [stringGpr_done ea (by omega)]
      rfl
    · rw [← hlast (by omega) (by omega), loadStringWords, vmRead_one, ofBytes_first, stringWord,
        stringByte_lt _ _ (by omega), stringByte_ge _ _ (by omega), stringByte_ge _ _ (by omega),
        stringByte_ge _ _ (by omega)]
    · rw [← hlast (by omega) (by omega), loadStringWords, vmRead_two, ofBytes_half, stringWord,
        stringByte_lt _ _ (by omega), stringByte_lt _ _ (by omega), stringByte_ge _ _ (by omega),
        stringByte_ge _ _ (by omega)]
    · have htwo : ea + .ofNat 32 (4 * k) + 2 = ea + .ofNat 32 (4 * k + 2) := by
        rw [BitVec.ofNat_add, add_assoc]
        rfl
      rw [← hlast (by omega) (by omega), loadStringWords, vmRead_two, htwo, vmRead_one, ofBytes_three,
        stringWord, stringByte_lt _ _ (by omega), stringByte_lt _ _ (by omega),
        stringByte_lt _ _ (by omega), stringByte_ge _ _ (by omega)]
    · have hword : vmRead s.mem (ea + .ofNat 32 (4 * k)) .four = stringWord s.mem ea n k := by
        rw [vmRead_four, stringWord, stringByte_lt _ _ (by omega), stringByte_lt _ _ (by omega),
          stringByte_lt _ _ (by omega), stringByte_lt _ _ (by omega)]
      rw [← hstep (by omega), loadStringWords, hword]
      exact ih left (by omega) (k + 1) (by omega) (by omega) (rd + 1) _

-- ---------------------------------------------------------------------------
-- The store
-- ---------------------------------------------------------------------------

/-- Byte `j` of the registers from `rs` on. -/
def gprByte (gpr : BitVec 5 → Word) (rs : BitVec 5) (j : Nat) : Byte :=
  (gpr (rs + .ofNat 5 (j / 4)) >>> (24 - 8 * (j % 4))).setWidth 8

theorem update_eq_storeBytes (m : Mem) (a : Word) (v : Byte) :
    Function.update m a v = m.storeBytes a 1 fun _ => v := by
  funext x
  have hzero : (x - a).toNat < 1 ↔ x = a := by
    rw [Nat.lt_one_iff, ← BitVec.toNat_zero (w := 32), BitVec.toNat_inj]
    exact sub_eq_zero
  rw [Function.update_apply, Mem.storeBytes]
  simp only [hzero]

theorem storeStringLoop_eq (ea : Word) (left i : Nat) (rs : BitVec 5) (s : Cpu)
    (hleft : left < 2 ^ 32) :
    storeStringLoop ea left i (rs + .ofNat 5 (i / 4)) (24 - 8 * ((i % 4 : Nat) : Int)) s =
      { s with mem := s.mem.storeBytes (ea + .ofNat 32 i) left fun j => gprByte s.regs.gpr rs (i + j) } := by
  induction left generalizing i s with
  | zero =>
    have hnone (f : Nat → Byte) : s.mem.storeBytes (ea + .ofNat 32 i) 0 f = s.mem := by
      funext x
      exact if_neg (Nat.not_lt_zero _)
    rw [hnone]
    rfl
  | succ left ih =>
    have hshift : (24 - 8 * ((i % 4 : Nat) : Int)).toNat = 24 - 8 * (i % 4) := by omega
    have hbyte : vmWrite s.mem (ea + .ofNat 32 i) (s.regs.gpr (rs + .ofNat 5 (i / 4)) >>>
        (24 - 8 * ((i % 4 : Nat) : Int)).toNat) .one =
          s.mem.storeBytes (ea + .ofNat 32 i) 1 fun _ => gprByte s.regs.gpr rs i := by
      rw [vmWrite, update_eq_storeBytes, hshift]
      rfl
    have hrest := ih (i + 1) { s with
      mem := s.mem.storeBytes (ea + .ofNat 32 i) 1 fun _ => gprByte s.regs.gpr rs i } (by omega)
    have hbytes : (s.mem.storeBytes (ea + .ofNat 32 i) 1 fun _ => gprByte s.regs.gpr rs i).storeBytes
        (ea + .ofNat 32 (i + 1)) left (fun j => gprByte s.regs.gpr rs (i + 1 + j)) =
          s.mem.storeBytes (ea + .ofNat 32 i) (left + 1) fun j => gprByte s.regs.gpr rs (i + j) := by
      rw [BitVec.ofNat_add, ← add_assoc, Mem.storeBytes_append _ _ _ _ _ _ (by omega), Nat.add_comm 1]
      refine Mem.storeBytes_congr _ _ _ _ _ fun j _ => ?_
      split
      · rw [show j = 0 by omega, Nat.add_zero]
      · rw [show i + 1 + (j - 1) = i + j by omega]
    rw [hbytes] at hrest
    rw [storeStringLoop]
    simp only [hbyte]
    -- the register and the shift of the next byte
    split
    · have hmod : (i + 1) % 4 = 0 := by omega
      have hdiv : (i + 1) / 4 = i / 4 + 1 := by omega
      rw [hmod, hdiv, BitVec.ofNat_add, ← add_assoc] at hrest
      exact hrest
    · have hmod : (24 : Int) - 8 * (((i + 1) % 4 : Nat) : Int) = 24 - 8 * ((i % 4 : Nat) : Int) - 8 := by
        omega
      have hdiv : (i + 1) / 4 = i / 4 := by omega
      rw [hmod, hdiv] at hrest
      exact hrest

-- ---------------------------------------------------------------------------
-- Copies
-- ---------------------------------------------------------------------------

theorem ofBytes_shift (b0 b1 b2 b3 : Byte) :
    (Word.ofBytes b0 b1 b2 b3 >>> 24).setWidth 8 = b0 ∧
    (Word.ofBytes b0 b1 b2 b3 >>> 16).setWidth 8 = b1 ∧
    (Word.ofBytes b0 b1 b2 b3 >>> 8).setWidth 8 = b2 ∧
    (Word.ofBytes b0 b1 b2 b3 >>> 0).setWidth 8 = b3 := by
  obtain ⟨h0, h1, h2, h3⟩ := Word.extractLsb'_ofBytes b0 b1 b2 b3
  simp only [BitVec.setWidth_ushiftRight_eq_extractLsb]
  exact ⟨h0, h1, h2, h3⟩

/-- A byte of a word of the string. -/
theorem stringWord_byte (m : Mem) (ea : Word) (n j : Nat) :
    (stringWord m ea n (j / 4) >>> (24 - 8 * (j % 4))).setWidth 8 = stringByte m ea n j := by
  obtain ⟨h0, h1, h2, h3⟩ := ofBytes_shift (stringByte m ea n (4 * (j / 4)))
    (stringByte m ea n (4 * (j / 4) + 1)) (stringByte m ea n (4 * (j / 4) + 2))
    (stringByte m ea n (4 * (j / 4) + 3))
  have hj := Nat.div_add_mod j 4
  have hlt := Nat.mod_lt j (show 0 < 4 by decide)
  rw [stringWord]
  rcases (by omega : j % 4 = 0 ∨ j % 4 = 1 ∨ j % 4 = 2 ∨ j % 4 = 3) with h | h | h | h
  · rw [h, h0, show 4 * (j / 4) = j by omega]
  · rw [h, h1, show 4 * (j / 4) + 1 = j by omega]
  · rw [h, h2, show 4 * (j / 4) + 2 = j by omega]
  · rw [h, h3, show 4 * (j / 4) + 3 = j by omega]

theorem gprByte_stringGpr (ea : Word) {n j : Nat} (hn : n ≤ 128) (hj : j < n) (rd : BitVec 5) (s : Cpu) :
    gprByte (stringGpr ea n 0 rd s) rd j = s.mem (ea + .ofNat 32 j) := by
  have hsub : (rd + .ofNat 5 (j / 4) - rd).toNat = j / 4 := by
    rw [add_sub_cancel_left, BitVec.toNat_ofNat]
    omega
  rw [gprByte, stringGpr, hsub, Nat.zero_add, if_pos (by omega), stringWord_byte, stringByte_lt _ _ hj]

theorem stringCount_le (im : Bool) (opcode : Word) {r : Regs} (h : r.xer.byteCount.toNat < 128) :
    stringCount im (stringNb im) opcode r ≤ 128 := by
  cases im with
  | true =>
    have hlt := (nbField opcode).isLt
    simp only [stringCount, stringNb, operandNb, if_true, true_and, BitVec.toNat_setWidth]
    split <;> omega
  | false =>
    simp only [stringCount, stringNb, operandXerCount, Bool.false_eq_true, if_false, false_and,
      BitVec.toNat_setWidth]
    omega

theorem loadString_eq (im : Bool) (opcode : Word) (s : Cpu) (h : s.regs.xer.byteCount.toNat < 128) :
    loadString im opcode s =
      (s.withGpr (stringGpr (stringAddress operandRAOr0 im opcode s.regs)
        (stringCount im (stringNb im) opcode s.regs) 0 (rDField opcode) s)).incrementPc 4 := by
  rw [loadString, executeLoadString, loadStringWords_eq _ _ _ 0 (Nat.zero_add _) (stringCount_le im opcode h)]

theorem storeString_mem (im : Bool) (opcode : Word) (s : Cpu) (h : s.regs.xer.byteCount.toNat < 128) :
    (storeString im opcode s).mem =
      s.mem.storeBytes (stringAddress operandRAOr0 im opcode s.regs)
        (stringCount im (stringNb im) opcode s.regs) (gprByte s.regs.gpr (rSField opcode)) := by
  have hle := stringCount_le im opcode h
  have hloop := storeStringLoop_eq (stringAddress operandRAOr0 im opcode s.regs)
    (stringCount im (stringNb im) opcode s.regs) 0 (rSField opcode) s (by omega)
  rw [show rSField opcode + BitVec.ofNat 5 (0 / 4) = rSField opcode from add_zero _] at hloop
  rw [storeString, executeStoreString]
  refine (congrArg Cpu.mem hloop).trans ?_
  dsimp only
  rw [show ∀ a : Word, a + BitVec.ofNat 32 0 = a from add_zero]
  simp only [Nat.zero_add]

/-- A string that is loaded and stored is copied, and nothing else is stored; the load agrees with
the definition byte by byte. -/
theorem string_round_trip :
    (∀ (RA : Operand) (im : Bool) (NB : Operand) (opcode : Word) (s : Cpu),
      executeLoadString RA im NB opcode s = executeLoadStringBytes RA im NB opcode s) ∧
    ∀ (im im' : Bool) (load store : Word) (s : Cpu), s.regs.xer.byteCount.toNat < 128 →
      rSField store = rDField load →
      let n := stringCount im (stringNb im) load s.regs
      let a := stringAddress operandRAOr0 im load s.regs
      let s' := loadString im load s
      let b := stringAddress operandRAOr0 im' store s'.regs
      stringCount im' (stringNb im') store s'.regs = n →
      (storeString im' store s').mem = s.mem.storeBytes b n (fun i => s.mem (a + .ofNat 32 i)) ∧
      ∀ k : BitVec 5, s'.regs.gpr (rDField load + k) =
        if 4 * k.toNat < n then stringWord s.mem a n k.toNat else s.regs.gpr (rDField load + k) := by
  refine ⟨fun RA im NB opcode s => ?_, fun im im' load store s hxer hreg => ?_⟩
  · rw [executeLoadString, executeLoadStringBytes, loadStringWords_eq_bytes _ _ (Nat.zero_mod 4)]
  · intro n a s' b hcount
    have hload : s' = (s.withGpr (stringGpr a n 0 (rDField load) s)).incrementPc 4 :=
      loadString_eq im load s hxer
    have hxer' : s'.regs.xer.byteCount.toNat < 128 := by
      rw [hload]
      exact hxer
    have hle : n ≤ 128 := stringCount_le im load hxer
    constructor
    · have hmem : s'.mem = s.mem := by rw [hload]; rfl
      have hgpr : s'.regs.gpr = stringGpr a n 0 (rDField load) s := by rw [hload]; rfl
      rw [storeString_mem im' store s' hxer', hcount, hmem, hgpr, hreg]
      exact Mem.storeBytes_congr _ _ _ _ _ fun i hi => gprByte_stringGpr a hle hi _ s
    · intro k
      have hsub : rDField load + k - rDField load = k := add_sub_cancel_left _ _
      rw [hload]
      change stringGpr a n 0 (rDField load) s _ = _
      rw [stringGpr, hsub, Nat.zero_add]

/-- Seven bytes through r31 and r0, from address 0 to the one in r5. -/
theorem string_round_trip_wrap : ∃ s : Cpu, s.regs.gpr 5 = 0x100 ∧
    (storeString true 0x7fe53daa (loadString true 0x7fe03caa s)).mem =
      s.mem.storeBytes 0x100 7 fun i => s.mem (0 + .ofNat 32 i) :=
  ⟨(Cpu.initRegisters fun a => a.setWidth 8).setGpr 5 0x100, rfl,
    (string_round_trip.2 true true 0x7fe03caa 0x7fe53daa _ (by decide) (by decide) (by decide)).1⟩

end SheepShear.Kpx
