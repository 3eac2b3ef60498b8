import SheepShear.Video.Accel

/-!
# Rectangles that are filled and inverted

What is written is one run of bytes a row, from the left edge on. Its length is
the width in bytes, unless that does not fit 16 bits or is less than what the
alignment takes off it. Filling sets exactly the pixels of the rectangle, and
inverting complements each of them once, when all runs have the length of a
row and rows that overlap do not disagree.
-/

namespace SheepShear.Video.Accel

open ByteRuns

-- ---------------------------------------------------------------------------
-- What is wanted
-- ---------------------------------------------------------------------------

inductive Op where
  | invert
  | fill
deriving DecidableEq

def AcclParams.rowStart (p : AcclParams) (host : HostConfig) (bpp i : Nat) : Int :=
  p.destStart host bpp + i * p.destRowBytes.toInt

/-- The width in bytes. -/
def AcclParams.rowWidth (p : AcclParams) (bpp : Nat) : Nat := p.width.toInt.toNat * bpp

def AcclParams.rowCount (p : AcclParams) : Nat := p.height.toInt.toNat

/-- A byte is in a row of the rectangle. -/
def AcclParams.InRect (p : AcclParams) (host : HostConfig) (bpp : Nat) (x : Int) : Prop :=
  ∃ i < p.rowCount, In (p.rowStart host bpp i) (p.rowWidth bpp) x

/-- Byte `k` of a pixel with the value of a pen. -/
def pixelByte (pen : Word) (bpp k : Nat) : Byte := pen.extractLsb' (8 * (bpp - 1 - k)) 8

/-- A pen is the value of a pixel, again and again. -/
def Replicated (pen : Word) (bpp : Nat) : Prop :=
  ∀ j < 4, pen.extractLsb' (8 * j) 8 = pen.extractLsb' (8 * (j % bpp)) 8

/-- Each byte of the rectangle is complemented, and written once; each pixel gets the value of the
pen. Nothing else changes. -/
def Op.Good (host : HostConfig) (p : AcclParams) (bpp : Nat) : Op → Prop
  | .invert => ∀ m, ∃ m', nqdInvrect host p m = some m' ∧
    (∀ x, p.InRect host bpp x →
      m'.bytes x = ~~~m.bytes x ∧ m'.writes x = m.writes x + 1) ∧
    ∀ x, ¬ p.InRect host bpp x → m'.bytes x = m.bytes x ∧ m'.writes x = m.writes x
  | .fill => ∀ m, ∃ m', nqdFillrect host p m = some m' ∧
    (∀ i < p.rowCount, ∀ j < p.width.toInt.toNat, ∀ k < bpp,
      m'.bytes (p.rowStart host bpp i + (j * bpp + k : Nat)) = pixelByte p.pen bpp k) ∧
    ∀ x, ¬ p.InRect host bpp x → m'.bytes x = m.bytes x

/-- The sizes of the cells that the alignment writes. -/
def alignSizes (unalignedProfitable : Bool) (bits : Nat) (dest : Int) : List Nat :=
  if unalignedProfitable then []
  else
    let first : List Nat := if bits < 16 ∧ dest % 2 ≠ 0 then [1] else []
    first ++ if bits < 32 ∧ 2 ≤ (dest + first.sum) % 4 then [2] else []

/-- The bytes that the alignment takes off the length. -/
def HostConfig.aligned (host : HostConfig) (bpp : Nat) (dest : Int) : Nat :=
  (alignSizes host.unalignedProfitable (8 * bpp) dest).sum

/-- `memset` does not align. -/
def Op.aligned (host : HostConfig) (bpp : Nat) (dest : Int) : Op → Nat
  | .invert => host.aligned bpp dest
  | .fill => if bpp = 1 then 0 else host.aligned bpp dest

/-- Rows do not overlap, or agree on the bytes that they share: the bytes `z` of a row and
`z - rowBytes` of the next are one. -/
def Op.RowsAgree (p : AcclParams) (bpp : Nat) : Op → Prop
  | .invert => p.rowWidth bpp ≤ p.destRowBytes.toInt.natAbs
  | .fill => ∀ z : Int, In 0 (p.rowWidth bpp) z → In 0 (p.rowWidth bpp) (z - p.destRowBytes.toInt) →
    pixelByte p.pen bpp (z % bpp).toNat =
      pixelByte p.pen bpp ((z - p.destRowBytes.toInt) % bpp).toNat

/-- When the rectangle is filled or inverted as it should be. -/
def Op.Cond (host : HostConfig) (p : AcclParams) (bpp : Nat) (op : Op) : Prop :=
  p.rowCount = 0 ∨ p.rowWidth bpp < 2 ^ 15 ∧
    (∀ i < p.rowCount, op.aligned host bpp (p.rowStart host bpp i) ≤ p.rowWidth bpp) ∧
    (2 ≤ p.rowCount → op.RowsAgree p bpp)

-- ---------------------------------------------------------------------------
-- The cells of a row
-- ---------------------------------------------------------------------------

section
variable (cell : Nat → Int → HostMem → HostMem)

theorem words_eq (k : Nat) (dest : Int) (m : HostMem) :
    words cell k dest m = cells cell (List.replicate k 8) (dest - 8 * k) m := by
  induction k generalizing m with
  | zero => rfl
  | succ k ih =>
    rw [words, ih, List.replicate_succ, cells]
    congr 1
    push_cast
    ring

theorem blocks_eq (n : Nat) (dest : Int) (m : HostMem) :
    blocks cell n dest m = (dest + 64 * n, cells cell (List.replicate (8 * n) 8) dest m) := by
  induction n generalizing dest m with
  | zero => simp [blocks, cells]
  | succ n ih =>
    have hsplit : List.replicate (8 * (n + 1)) 8 =
        List.replicate 8 8 ++ List.replicate (8 * n) 8 := by
      rw [List.replicate_append_replicate]
      congr 1
      omega
    rw [blocks, ih, words_eq, hsplit, cells_append, Prod.mk.injEq]
    constructor
    · push_cast
      ring
    · congr 2
      push_cast
      ring

theorem longWords_eq (dest : Int) (length : Word) (m : HostMem) :
    longWords cell dest length m = (dest + 8 * (length.toNat / 8 : Nat),
      cells cell (List.replicate (length.toNat / 8) 8) dest m) := by
  unfold longWords
  generalize length.toNat = l
  split_ifs with hlong
  · simp only
    split_ifs with hr
    · rw [blocks_eq, hr, Prod.mk.injEq]
      have hn : 8 * ((l / 8 + 7) / 8) = l / 8 := by omega
      constructor
      · omega
      · rw [hn]
        simp
    · rw [blocks_eq, words_eq, Prod.mk.injEq]
      have hn : l / 8 = l / 8 % 8 + 8 * ((l / 8 + 7) / 8 - 1) := by omega
      constructor
      · omega
      · conv_rhs => rw [hn, ← List.replicate_append_replicate, cells_append]
        congr 2
        · rw [List.sum_replicate]
          push_cast
          rfl
        · push_cast
          ring
  · have hnone : l / 8 = 0 := by omega
    simp [hnone, cells]

theorem align_eq (up : Bool) (bits : Nat) (dest : Int) (length : Word) (m : HostMem) :
    align cell up bits dest length m = (dest + (alignSizes up bits dest).sum,
      length - BitVec.ofNat 32 (alignSizes up bits dest).sum,
      cells cell (alignSizes up bits dest) dest m) := by
  unfold align alignSizes
  split
  · simp [cells]
  · by_cases hfirst : bits < 16 ∧ dest % 2 ≠ 0
    · simp only [if_pos hfirst, List.sum_singleton, Nat.cast_one]
      split_ifs with hsecond
      · simp only [cells, List.cons_append, List.nil_append, List.sum_cons, List.sum_nil,
          Prod.mk.injEq]
        refine ⟨by ring, ?_, rfl⟩
        rw [BitVec.sub_sub]
        rfl
      · simp [cells]
    · simp only [if_neg hfirst, List.sum_nil, Nat.cast_zero, add_zero, List.nil_append]
      split_ifs with hsecond
      · simp [cells]
      · simp [cells]

/-- The sizes of the last cells. -/
def lastSizes (bits : Nat) (length : Word) : List Nat :=
  (if length &&& 4 ≠ 0 then [4] else []) ++
    ((if bits ≤ 16 ∧ length &&& 2 ≠ 0 then [2] else []) ++
      if bits ≤ 8 ∧ length &&& 1 ≠ 0 then [1] else [])

theorem lastCells_eq (bits : Nat) (dest : Int) (length : Word) (m : HostMem) :
    lastCells cell bits dest length m = cells cell (lastSizes bits length) dest m := by
  unfold lastCells lastSizes
  split_ifs <;> first | omega | simp [cells]

/-- The sizes of the cells of a row. -/
def rowSizes (up : Bool) (bits : Nat) (dest : Int) (length : Word) : List Nat :=
  let length' := length - BitVec.ofNat 32 (alignSizes up bits dest).sum
  alignSizes up bits dest ++
    (List.replicate (length'.toNat / 8) 8 ++ lastSizes bits length')

theorem doRect_eq (up : Bool) (bits : Nat) (dest : Int) (length : Word) (m : HostMem) :
    doRect cell up bits dest length m = cells cell (rowSizes up bits dest length) dest m := by
  simp only [doRect, rowSizes, align_eq, longWords_eq, lastCells_eq]
  rw [cells_append, cells_append]
  simp [mul_comm]

end

-- ---------------------------------------------------------------------------
-- The run of a row
-- ---------------------------------------------------------------------------

/-- The length of the run: what is taken off a shorter length wraps. -/
def runLength (length aligned : Nat) : Nat :=
  if aligned ≤ length then length else 2 ^ 32 + length

/-- The sizes of pixels. -/
def PixelSize (bpp : Nat) : Prop := bpp = 1 ∨ bpp = 2 ∨ bpp = 4

theorem and_bit_ne_zero (v : Word) {i : Nat} (hi : i < 32) :
    v &&& BitVec.twoPow 32 i ≠ 0 ↔ v.toNat / 2 ^ i % 2 = 1 := by
  have hpow : BitVec.twoPow 32 i ≠ 0 := by
    intro h
    have hbit := congrArg (BitVec.getLsbD · i) h
    simp [hi] at hbit
  rw [BitVec.and_twoPow, BitVec.getLsbD, Nat.testBit_eq_decide_div_mod_eq]
  split_ifs with h
  · exact iff_of_true hpow (of_decide_eq_true h)
  · exact iff_of_false (fun hne => hne rfl) fun heq => h (decide_eq_true heq)

theorem lastSizes_sum {bpp : Nat} (hbpp : PixelSize bpp) {length : Word}
    (hlength : bpp ∣ length.toNat) : (lastSizes (8 * bpp) length).sum = length.toNat % 8 := by
  have h4 := and_bit_ne_zero length (i := 2) (by decide)
  have h2 := and_bit_ne_zero length (i := 1) (by decide)
  have h1 := and_bit_ne_zero length (i := 0) (by decide)
  rw [show BitVec.twoPow 32 2 = 4 from rfl] at h4
  rw [show BitVec.twoPow 32 1 = 2 from rfl] at h2
  rw [show BitVec.twoPow 32 0 = 1 from rfl] at h1
  unfold lastSizes
  rw [List.sum_append, List.sum_append]
  obtain rfl | rfl | rfl := hbpp <;> simp only [h4, h2, h1] <;> split_ifs <;> simp <;> omega

theorem cellSizes {up : Bool} {bpp : Nat} (hbpp : PixelSize bpp) {dest : Int} {length : Word} :
    ∀ n ∈ rowSizes up (8 * bpp) dest length, bpp ∣ n ∧ n ≤ 8 := by
  intro n hn
  simp only [rowSizes, alignSizes, lastSizes, List.mem_append] at hn
  obtain rfl | rfl | rfl := hbpp <;> grind

theorem aligned_dvd (host : HostConfig) {bpp : Nat} (hbpp : PixelSize bpp) (dest : Int) :
    bpp ∣ host.aligned bpp dest ∧ host.aligned bpp dest ≤ 3 := by
  unfold HostConfig.aligned alignSizes
  obtain rfl | rfl | rfl := hbpp <;> grind

theorem rowSizes_sum {host : HostConfig} {bpp : Nat} (hbpp : PixelSize bpp) {dest : Int}
    {length : Word} (hlength : bpp ∣ length.toNat) :
    (rowSizes host.unalignedProfitable (8 * bpp) dest length).sum =
      runLength length.toNat (host.aligned bpp dest) := by
  obtain ⟨hdvd, hle⟩ := aligned_dvd host hbpp dest
  unfold rowSizes
  rw [List.sum_append, List.sum_append, List.sum_replicate, ← HostConfig.aligned]
  generalize host.aligned bpp dest = p at hdvd hle
  have hlt := length.isLt
  have hrest : (length - BitVec.ofNat 32 p).toNat = runLength length.toNat p - p := by
    rw [BitVec.toNat_sub, BitVec.toNat_ofNat, Nat.mod_eq_of_lt (by omega : p < 2 ^ 32), runLength]
    split_ifs <;> omega
  have hruns : p ≤ runLength length.toNat p := by
    unfold runLength
    split_ifs <;> omega
  have hdvd' : bpp ∣ (length - BitVec.ofNat 32 p).toNat := by
    rw [hrest, runLength]
    split_ifs
    · exact Nat.dvd_sub hlength hdvd
    · refine Nat.dvd_sub (Nat.dvd_add ?_ hlength) hdvd
      obtain rfl | rfl | rfl := hbpp <;> decide
  rw [lastSizes_sum hbpp hdvd', hrest, smul_eq_mul]
  omega

/-- A row is one run of bytes, when its cells write what belongs to their place in the row. -/
theorem doRect_modify {host : HostConfig} {bpp : Nat} (hbpp : PixelSize bpp)
    {cell : Nat → Int → HostMem → HostMem} {dest : Int} {f : Int → Byte → Byte}
    (hcell : ∀ n ≤ 8, bpp ∣ n → ∀ x m, (bpp : Int) ∣ x - dest → cell n x m = m.modify x n f)
    {length : Word} (hlength : bpp ∣ length.toNat) (m : HostMem) :
    doRect cell host.unalignedProfitable (8 * bpp) dest length m =
      m.modify dest (runLength length.toNat (host.aligned bpp dest)) f := by
  have hstart : (bpp : Int) ∣ dest - dest := by simp
  rw [doRect_eq, ← rowSizes_sum hbpp hlength]
  refine cells_modify (fun n hn => (cellSizes hbpp n hn).1) ?_ hstart m
  intro n hn
  obtain ⟨hdvd, hle⟩ := cellSizes hbpp n hn
  exact hcell n hle hdvd

-- ---------------------------------------------------------------------------
-- What is written
-- ---------------------------------------------------------------------------

theorem extractLsb'_twice (v : Word) {j : Nat} (hj : j < 8) :
    (v ++ v : BitVec 64).extractLsb' (8 * j) 8 = v.extractLsb' (8 * (j % 4)) 8 := by
  ext i hi
  simp only [BitVec.getElem_extractLsb', BitVec.getLsbD_append]
  split_ifs with hlow
  · rw [Nat.mod_eq_of_lt (by omega)]
  · have hhigh : 8 * j + i - 32 = 8 * (j % 4) + i := by omega
    rw [hhigh]

theorem htonl_extractLsb' (host : HostConfig) (pen : Word) {j : Nat} (hj : j < 4) :
    (host.htonl pen).extractLsb' (8 * j) 8 =
      pen.extractLsb' (8 * if host.bigEndian then j else 3 - j) 8 := by
  unfold HostConfig.htonl
  split_ifs with hbig
  · rfl
  · obtain ⟨h3, h2, h1, h0⟩ := Word.extractLsb'_ofBytes (pen.extractLsb' 0 8) (pen.extractLsb' 8 8)
      (pen.extractLsb' 16 8) (pen.extractLsb' 24 8)
    interval_cases j
    · exact h0
    · exact h1
    · exact h2
    · exact h3

/-- The bytes of a cell that is filled are those of pixels. -/
theorem byteAt_color {host : HostConfig} {pen : Word} {bpp : Nat} (hbpp : PixelSize bpp)
    (hpen : Replicated pen bpp) {n k : Nat} (hn : bpp ∣ n) (hn8 : n ≤ 8) (hk : k < n) :
    host.byteAt n (host.htonl pen ++ host.htonl pen) k = pixelByte pen bpp (k % bpp) := by
  have hbpp4 : bpp ∣ 4 := by
    obtain rfl | rfl | rfl := hbpp <;> decide
  unfold HostConfig.byteAt pixelByte
  rw [extractLsb'_twice _ (by split <;> omega),
    htonl_extractLsb' host pen (Nat.mod_lt _ (by decide))]
  split_ifs with hbig
  · rw [hpen _ (Nat.mod_lt _ (by decide)), Nat.mod_mod_of_dvd _ hbpp4]
    have hindex : (n - 1 - k) % bpp = bpp - 1 - k % bpp := by
      obtain rfl | rfl | rfl := hbpp <;> omega
    rw [hindex]
  · rw [hpen _ (by omega)]
    have hindex : (3 - k % 4) % bpp = bpp - 1 - k % bpp := by
      obtain rfl | rfl | rfl := hbpp <;> omega
    rw [hindex]

theorem fillCell_modify {host : HostConfig} {pen : Word} {bpp : Nat} (hbpp : PixelSize bpp)
    (hpen : Replicated pen bpp) {dest a : Int} {n : Nat} (hn8 : n ≤ 8) (hn : bpp ∣ n)
    (ha : (bpp : Int) ∣ a - dest) (m : HostMem) :
    fillCell host (host.htonl pen) n a m =
      m.modify a n fun x _ => pixelByte pen bpp ((x - dest) % bpp).toNat := by
  refine HostMem.modify_congr m ?_
  intro x hx b
  simp only [In] at hx
  have hindex : ((x - dest) % bpp).toNat = (x - a).toNat % bpp := by
    have hmod : (x - dest) % bpp = (x - a) % bpp := by
      refine Int.emod_eq_emod_iff_emod_sub_eq_zero.mpr ?_
      rw [sub_sub_sub_cancel_left]
      exact Int.emod_eq_zero_of_dvd ha
    rw [hmod]
    obtain rfl | rfl | rfl := hbpp <;> omega
  rw [hindex]
  exact byteAt_color hbpp hpen hn hn8 (by omega)

-- ---------------------------------------------------------------------------
-- The width in 16 bits
-- ---------------------------------------------------------------------------

/-- The product in 16 bits, sign-extended to the `n` bits of a length. -/
theorem scaled_toNat {n : Nat} (hn : 16 ≤ n) {width : BitVec 16} {bpp : Nat} (hbpp : PixelSize bpp)
    (hwidth : 0 ≤ width.toInt) :
    ((width * BitVec.ofNat 16 bpp).signExtend n).toNat =
      if width.toInt.toNat * bpp % 2 ^ 16 < 2 ^ 15 then width.toInt.toNat * bpp % 2 ^ 16
      else 2 ^ n - 2 ^ 16 + width.toInt.toNat * bpp % 2 ^ 16 := by
  have hpow : 2 ^ 16 ≤ 2 ^ n := Nat.pow_le_pow_right (by decide) hn
  have hnat : width.toInt.toNat = width.toNat := by
    rw [BitVec.toInt_eq_toNat_cond] at hwidth ⊢
    have := width.isLt
    split_ifs at hwidth ⊢ <;> omega
  have hprod : (width * BitVec.ofNat 16 bpp).toNat = width.toInt.toNat * bpp % 2 ^ 16 := by
    rw [BitVec.toNat_mul, BitVec.toNat_ofNat, hnat]
    obtain rfl | rfl | rfl := hbpp <;> rfl
  have hlt : width.toInt.toNat * bpp % 2 ^ 16 < 2 ^ 16 := Nat.mod_lt _ (by decide)
  rw [BitVec.toNat_signExtend, BitVec.msb_eq_decide, BitVec.toNat_setWidth, hprod]
  generalize width.toInt.toNat * bpp % 2 ^ 16 = v at hlt
  rw [Nat.mod_eq_of_lt (by omega)]
  simp only [decide_eq_true_eq]
  split_ifs <;> omega

theorem rowCount_lt (p : AcclParams) : p.rowCount < 2 ^ 15 := by
  have := BitVec.two_mul_toInt_lt (x := p.height)
  unfold AcclParams.rowCount
  omega

section
variable {p : AcclParams} {bpp : Nat}

/-- The length that a row is written with. -/
def AcclParams.scaled (p : AcclParams) (bpp : Nat) : Word :=
  (p.width * BitVec.ofNat 16 bpp).signExtend 32

theorem rowWidth_le (hbpp : PixelSize bpp) : p.rowWidth bpp ≤ 4 * (2 ^ 15 - 1) := by
  have := BitVec.two_mul_toInt_lt (x := p.width)
  unfold AcclParams.rowWidth
  obtain rfl | rfl | rfl := hbpp <;> omega

theorem scaled_cases (hbpp : PixelSize bpp) (hwidth : 0 ≤ p.width.toInt) :
    (p.scaled bpp).toNat < 2 ^ 15 ∧ (p.scaled bpp).toNat = p.rowWidth bpp % 2 ^ 16 ∨
      2 ^ 32 - 2 ^ 15 ≤ (p.scaled bpp).toNat ∧ 2 ^ 15 ≤ p.rowWidth bpp := by
  have hscaled := scaled_toNat (by decide : 16 ≤ 32) hbpp hwidth
  rw [← AcclParams.scaled, ← AcclParams.rowWidth] at hscaled
  split_ifs at hscaled <;> omega

theorem scaled_dvd (hbpp : PixelSize bpp) (hwidth : 0 ≤ p.width.toInt) :
    bpp ∣ (p.scaled bpp).toNat := by
  have hscaled := scaled_toNat (by decide : 16 ≤ 32) hbpp hwidth
  rw [← AcclParams.scaled] at hscaled
  obtain rfl | rfl | rfl := hbpp <;> split_ifs at hscaled <;> omega

/-- A run has the length of a row exactly if that fits and the alignment takes off no more. -/
theorem runLength_eq_iff (hbpp : PixelSize bpp) (hwidth : 0 ≤ p.width.toInt) {aligned : Nat} :
    runLength (p.scaled bpp).toNat aligned = p.rowWidth bpp ↔
      p.rowWidth bpp < 2 ^ 15 ∧ aligned ≤ p.rowWidth bpp := by
  have hle := rowWidth_le (p := p) hbpp
  have := scaled_cases hbpp hwidth
  unfold runLength
  split_ifs <;> omega

theorem runLength_le_or (hbpp : PixelSize bpp) (hwidth : 0 ≤ p.width.toInt) (aligned : Nat) :
    runLength (p.scaled bpp).toNat aligned ≤ p.rowWidth bpp ∨
      p.rowCount * p.rowWidth bpp < runLength (p.scaled bpp).toNat aligned := by
  have harea : p.rowCount * p.rowWidth bpp ≤ (2 ^ 15 - 1) * (4 * (2 ^ 15 - 1)) :=
    Nat.mul_le_mul (Nat.le_sub_one_of_lt (rowCount_lt p)) (rowWidth_le hbpp)
  have := scaled_cases hbpp hwidth
  unfold runLength
  split_ifs <;> omega

theorem runLength_same (hbpp : PixelSize bpp) (hwidth : 0 ≤ p.width.toInt) {aligned : Nat}
    (aligned' : Nat) (h : runLength (p.scaled bpp).toNat aligned = p.rowWidth bpp) :
    runLength (p.scaled bpp).toNat aligned' = p.rowWidth bpp ∨
      p.rowCount * p.rowWidth bpp < runLength (p.scaled bpp).toNat aligned' := by
  obtain ⟨hfits, -⟩ := (runLength_eq_iff hbpp hwidth).mp h
  by_cases haligned : aligned' ≤ p.rowWidth bpp
  · exact .inl ((runLength_eq_iff hbpp hwidth).mpr ⟨hfits, haligned⟩)
  · refine (runLength_le_or hbpp hwidth aligned').imp_left fun hle => ?_
    have := scaled_cases hbpp hwidth
    unfold runLength at hle ⊢
    split_ifs at hle ⊢ <;> omega

-- ---------------------------------------------------------------------------
-- Rectangles
-- ---------------------------------------------------------------------------

theorem bytesPerPixel_size {depth : Word} (h : bytesPerPixel depth = some bpp) : PixelSize bpp := by
  unfold bytesPerPixel at h
  unfold PixelSize
  split at h <;> cases h <;> decide

/-- The run of a row that starts here. -/
def Op.span (host : HostConfig) (p : AcclParams) (bpp : Nat) (op : Op) (dest : Int) : Nat :=
  runLength (p.scaled bpp).toNat (op.aligned host bpp dest)

variable {host : HostConfig} {op : Op}

theorem invert_rows (host : HostConfig) (hbpp : bytesPerPixel p.destPixelSize = some bpp)
    (hwidth : 0 ≤ p.width.toInt) :
    ∃ row, (∀ a m, row a m = m.modify a (Op.invert.span host p bpp a) fun _ b => ~~~b) ∧
      ∀ m, nqdInvrect host p m =
        some (rows row p.destRowBytes.toInt p.rowCount (p.destStart host bpp) m) := by
  have hsize := bytesPerPixel_size hbpp
  refine ⟨fun dest => doInvrect host (8 * bpp) dest (p.scaled bpp), ?_, ?_⟩
  · intro a m
    exact doRect_modify hsize (fun _ _ _ _ _ _ => rfl) (scaled_dvd hsize hwidth) m
  · intro m
    simp only [nqdInvrect, hbpp, Option.bind_eq_bind, Option.bind_some]
    rfl

theorem memset_modify (hwidth : 0 ≤ p.width.toInt) (hpen : Replicated p.pen 1) (dest : Int)
    (m : HostMem) :
    memset dest (p.color host) (p.width * BitVec.ofNat 16 1) m =
      m.modify dest (runLength (p.scaled 1).toNat 0) fun x _ =>
        pixelByte p.pen 1 ((x - dest) % (1 : Nat)).toNat := by
  have hone : PixelSize 1 := .inl rfl
  have hlength : ((p.width * BitVec.ofNat 16 1).signExtend 64).toNat =
      runLength (p.scaled 1).toNat 0 := by
    have hfits : p.rowWidth 1 < 2 ^ 15 := by
      have := BitVec.two_mul_toInt_lt (x := p.width)
      unfold AcclParams.rowWidth
      omega
    rw [(runLength_eq_iff hone hwidth).mpr ⟨hfits, Nat.zero_le _⟩,
      scaled_toNat (by decide : 16 ≤ 64) hone hwidth, ← AcclParams.rowWidth]
    split_ifs <;> omega
  have hbyte : (p.color host).extractLsb' 0 8 = pixelByte p.pen 1 0 := by
    have hlow := htonl_extractLsb' host p.pen (j := 0) (by decide)
    rw [hpen _ (by split <;> decide), Nat.mod_one] at hlow
    exact hlow
  unfold memset
  rw [hlength, hbyte]
  simp

theorem fill_rows (host : HostConfig) (hbpp : bytesPerPixel p.destPixelSize = some bpp)
    (hwidth : 0 ≤ p.width.toInt) (hpen : Replicated p.pen bpp) :
    ∃ row, (∀ a m, row a m = m.modify a (Op.fill.span host p bpp a) fun x _ =>
        pixelByte p.pen bpp ((x - a) % bpp).toNat) ∧
      ∀ m, nqdFillrect host p m =
        some (rows row p.destRowBytes.toInt p.rowCount (p.destStart host bpp) m) := by
  have hsize := bytesPerPixel_size hbpp
  refine ⟨fun dest =>
    if bpp = 1 then memset dest (p.color host) (p.width * BitVec.ofNat 16 bpp)
    else doFillrect host (8 * bpp) dest (p.color host) (p.scaled bpp), ?_, ?_⟩
  · intro a m
    unfold Op.span Op.aligned
    split_ifs with hone
    · subst hone
      exact memset_modify hwidth hpen a m
    · refine doRect_modify hsize ?_ (scaled_dvd hsize hwidth) m
      intro n hn8 hn x m hx
      exact fillCell_modify hsize hpen hn8 hn hx m
  · intro m
    simp only [nqdFillrect, hbpp, Option.bind_eq_bind, Option.bind_some]
    rfl

/-- A pixel of a row, by its place in it. -/
theorem pixel_of_in {z : Int} (hbpp : PixelSize bpp) (hz : In 0 (p.rowWidth bpp) z) :
    ∃ j < p.width.toInt.toNat, ∃ k < bpp, z = (j * bpp + k : Nat) ∧ (z % bpp).toNat = k := by
  have hpos : 0 < bpp := by
    obtain rfl | rfl | rfl := hbpp <;> decide
  obtain ⟨n, rfl⟩ := Int.eq_ofNat_of_zero_le hz.1
  have hn : n < p.width.toInt.toNat * bpp := by
    have := hz.2
    unfold AcclParams.rowWidth at this
    omega
  refine ⟨n / bpp, Nat.div_lt_of_lt_mul (Nat.mul_comm .. ▸ hn), n % bpp, Nat.mod_lt _ hpos, ?_, ?_⟩
  · rw [Nat.div_add_mod']
  · omega

theorem in_of_pixel (host : HostConfig) (i : Nat) {j k : Nat} (hj : j < p.width.toInt.toNat)
    (hk : k < bpp) :
    In (p.rowStart host bpp i) (p.rowWidth bpp) (p.rowStart host bpp i + (j * bpp + k : Nat)) := by
  have hlt : j * bpp + k < p.rowWidth bpp := by
    have := Nat.mul_le_mul_right bpp (Nat.succ_le_of_lt hj)
    rw [Nat.succ_mul] at this
    unfold AcclParams.rowWidth
    omega
  simp only [In]
  omega

/-- Runs that cover the rectangle have its width. -/
theorem span_eq_of_cover (host : HostConfig) (op : Op) (hbpp : PixelSize bpp)
    (hwidth : 0 ≤ p.width.toInt) :
    (∀ x, (∃ i < p.rowCount, In (p.rowStart host bpp i)
        (op.span host p bpp (p.rowStart host bpp i)) x) ↔ p.InRect host bpp x) →
      ∀ i < p.rowCount, op.span host p bpp (p.rowStart host bpp i) = p.rowWidth bpp := by
  intro hcover
  exact span_eq_of_covered hcover (fun b => runLength_le_or hbpp hwidth _)
    fun b c hb => runLength_same hbpp hwidth _ hb

/-- All runs have the width of the rectangle exactly if that fits and the alignment takes off no
more. -/
theorem spans_iff (hbpp : PixelSize bpp) (hwidth : 0 ≤ p.width.toInt) (hcount : p.rowCount ≠ 0) :
    (∀ i < p.rowCount, op.span host p bpp (p.rowStart host bpp i) = p.rowWidth bpp) ↔
      p.rowWidth bpp < 2 ^ 15 ∧
        ∀ i < p.rowCount, op.aligned host bpp (p.rowStart host bpp i) ≤ p.rowWidth bpp := by
  unfold Op.span
  constructor
  · intro h
    have hrow := fun i hi => (runLength_eq_iff hbpp hwidth).mp (h i hi)
    exact ⟨(hrow 0 (Nat.pos_of_ne_zero hcount)).1, fun i hi => (hrow i hi).2⟩
  · rintro ⟨hfits, haligned⟩ i hi
    exact (runLength_eq_iff hbpp hwidth).mpr ⟨hfits, haligned i hi⟩

theorem invert_good_iff (hbpp : bytesPerPixel p.destPixelSize = some bpp)
    (hwidth : 0 ≤ p.width.toInt) : Op.invert.Good host p bpp ↔ Op.invert.Cond host p bpp := by
  have hsize := bytesPerPixel_size hbpp
  obtain ⟨row, hrow, hrun⟩ := invert_rows host hbpp hwidth
  constructor
  · intro hgood
    by_cases hcount : p.rowCount = 0
    · exact .inl hcount
    · obtain ⟨m', hm', hin, hout⟩ := hgood ⟨fun _ => 0, fun _ => 0⟩
      rw [hrun] at hm'
      obtain rfl := Option.some.inj hm'
      simp only [rows_writes hrow, Nat.zero_add] at hin hout
      have hspan := span_eq_of_cover host .invert hsize hwidth fun x => by
        refine hits_pos.symm.trans ⟨fun hpos => ?_, fun hrect => ?_⟩
        · by_contra hrect
          have := (hout x hrect).2
          omega
        · have := (hin x hrect).2
          omega
      obtain ⟨hfits, haligned⟩ := (spans_iff hsize hwidth hcount).mp hspan
      refine .inr ⟨hfits, haligned, fun htwo => ?_⟩
      -- The later of the first two rows starts with a byte of both, if they overlap.
      by_contra hover
      have hover : ¬ p.rowWidth bpp ≤ p.destRowBytes.toInt.natAbs := hover
      have hstart : p.rowStart host bpp 0 = p.destStart host bpp ∧
          p.rowStart host bpp 1 = p.destStart host bpp + p.destRowBytes.toInt := by
        simp [AcclParams.rowStart]
      obtain ⟨x, h0, h1⟩ : ∃ x, In (p.rowStart host bpp 0) (p.rowWidth bpp) x ∧
          In (p.rowStart host bpp 1) (p.rowWidth bpp) x := by
        refine ⟨max (p.rowStart host bpp 0) (p.rowStart host bpp 1), ?_⟩
        simp only [In]
        omega
      have honce := (hin x ⟨0, by omega, h0⟩).2.le
      rw [hits_le_one] at honce
      rw [← hspan 0 (by omega)] at h0
      rw [← hspan 1 (by omega)] at h1
      exact absurd (honce 0 (by omega) 1 (by omega) h0 h1) (by decide)
  · intro hcond m
    refine ⟨_, hrun m, ?_⟩
    simp only [rows_writes hrow, rows_bytes_iterate hrow]
    rcases hcond with hcount | ⟨hfits, haligned, happart⟩
    · simp [hcount, AcclParams.InRect, hits]
    · have hspan : ∀ i < p.rowCount, Op.invert.span host p bpp (p.rowStart host bpp i) =
          p.rowWidth bpp := fun i hi => (runLength_eq_iff hsize hwidth).mpr ⟨hfits, haligned i hi⟩
      have hpos : ∀ x, 0 < hits (Op.invert.span host p bpp) p.destRowBytes.toInt p.rowCount
          (p.destStart host bpp) x ↔ p.InRect host bpp x := by
        intro x
        rw [hits_pos]
        exact exists_congr fun i => and_congr_right fun hi => by
          rw [← hspan i hi]
          rfl
      have hone : ∀ x, hits (Op.invert.span host p bpp) p.destRowBytes.toInt p.rowCount
          (p.destStart host bpp) x ≤ 1 := by
        intro x
        refine hits_le_one.mpr fun i hi j hj hix hjx => ?_
        have hix : In (p.rowStart host bpp i) (p.rowWidth bpp) x := hspan i hi ▸ hix
        have hjx : In (p.rowStart host bpp j) (p.rowWidth bpp) x := hspan j hj ▸ hjx
        by_cases htwo : 2 ≤ p.rowCount
        · exact eq_of_in_rows (happart htwo) hix hjx
        · omega
      constructor
      · intro x hx
        have hhits := le_antisymm (hone x) ((hpos x).mpr hx)
        rw [hhits]
        exact ⟨rfl, rfl⟩
      · intro x hx
        have hhits := Nat.eq_zero_of_not_pos (mt (hpos x).mp hx)
        rw [hhits]
        exact ⟨rfl, rfl⟩

/-- Rows further apart agree when neighbours do: what they share is in all rows between them. -/
theorem rows_agree_of_next {width : Nat} {stride : Int} (value : Int → Byte)
    (hnext : ∀ z, In 0 width z → In 0 width (z - stride) → value z = value (z - stride)) (k : Nat)
    {z : Int} (hz : In 0 width z) (hk : In 0 width (z - k * stride)) :
    value z = value (z - k * stride) := by
  induction k with
  | zero => simp
  | succ k ih =>
    rw [Nat.cast_succ, add_mul, one_mul] at hk ⊢
    have hbetween : In 0 width (z - k * stride) := by
      simp only [In] at hz hk ⊢
      rcases le_total 0 stride with hup | hdown
      · have := mul_nonneg (Int.natCast_nonneg k) hup
        omega
      · have := mul_nonpos_of_nonneg_of_nonpos (Int.natCast_nonneg k) hdown
        omega
    rw [← sub_sub] at hk ⊢
    exact (ih hbetween).trans (hnext _ hbetween hk)

/-- The byte of a pixel at its place in a row. -/
theorem pixelByte_at {pen : Word} {start : Int} {j k : Nat} (hk : k < bpp) :
    pixelByte pen bpp ((start + (j * bpp + k : Nat) - start) % bpp).toNat = pixelByte pen bpp k := by
  have hmod : ((start + (j * bpp + k : Nat) - start) % bpp).toNat = k := by
    rw [add_sub_cancel_left, ← Int.natCast_mod, Int.toNat_natCast, Nat.mul_add_mod',
      Nat.mod_eq_of_lt hk]
  rw [hmod]

theorem fill_rows_agree {i j : Nat} (hij : i ≤ j) {x : Int} (hagree : Op.fill.RowsAgree p bpp)
    (hi : In (p.rowStart host bpp i) (p.rowWidth bpp) x)
    (hj : In (p.rowStart host bpp j) (p.rowWidth bpp) x) :
    pixelByte p.pen bpp ((x - p.rowStart host bpp i) % bpp).toNat =
      pixelByte p.pen bpp ((x - p.rowStart host bpp j) % bpp).toNat := by
  obtain ⟨k, rfl⟩ := Nat.exists_eq_add_of_le hij
  have hshift : x - p.rowStart host bpp (i + k) =
      x - p.rowStart host bpp i - k * p.destRowBytes.toInt := by
    unfold AcclParams.rowStart
    push_cast
    ring
  rw [hshift]
  refine rows_agree_of_next (fun z => pixelByte p.pen bpp (z % bpp).toNat) hagree k ?_ ?_
  · simp only [In] at hi ⊢
    omega
  · rw [← hshift]
    simp only [In] at hj ⊢
    omega

theorem fill_good_iff (hbpp : bytesPerPixel p.destPixelSize = some bpp)
    (hwidth : 0 ≤ p.width.toInt) (hpen : Replicated p.pen bpp) :
    Op.fill.Good host p bpp ↔ Op.fill.Cond host p bpp := by
  have hsize := bytesPerPixel_size hbpp
  obtain ⟨row, hrow, hrun⟩ := fill_rows host hbpp hwidth hpen
  constructor
  · intro hgood
    by_cases hcount : p.rowCount = 0
    · exact .inl hcount
    simp only [Op.Good, hrun, Option.some.injEq, exists_eq_left'] at hgood
    have hspan := span_eq_of_cover host .fill hsize hwidth fun x => by
      constructor
      · rintro ⟨i, hi, hx⟩
        by_contra hrect
        have h0 := (hgood ⟨fun _ => 0, fun _ => 0⟩).2 x hrect
        have h1 := (hgood ⟨fun _ => 1, fun _ => 0⟩).2 x hrect
        rw [rows_bytes_const hrow hi hx ⟨fun _ => 0, fun _ => 0⟩ ⟨fun _ => 1, fun _ => 0⟩, h1] at h0
        exact absurd h0 (show (1 : Byte) ≠ 0 by decide)
      · rintro ⟨i, hi, hx⟩
        by_contra hrun
        push Not at hrun
        have hz : In 0 (p.rowWidth bpp) (x - p.rowStart host bpp i) := by
          simp only [In] at hx ⊢
          omega
        obtain ⟨j, hj, k, hk, hjk, -⟩ := pixel_of_in hsize hz
        have hpixel := (hgood ⟨fun _ => ~~~pixelByte p.pen bpp k, fun _ => 0⟩).1 i hi j hj k hk
        rw [← hjk, add_sub_cancel, rows_bytes_of_not_in hrow _ hrun] at hpixel
        exact absurd hpixel (by simp)
    obtain ⟨hfits, haligned⟩ := (spans_iff hsize hwidth hcount).mp hspan
    refine .inr ⟨hfits, haligned, fun htwo z hz hz' => ?_⟩
    obtain ⟨j, hj, k, hk, hjk, hmod⟩ := pixel_of_in hsize hz
    obtain ⟨j', hj', k', hk', hjk', hmod'⟩ := pixel_of_in hsize hz'
    have hfirst := (hgood ⟨fun _ => 0, fun _ => 0⟩).1 0 (by omega) j hj k hk
    have hsecond := (hgood ⟨fun _ => 0, fun _ => 0⟩).1 1 (by omega) j' hj' k' hk'
    have hsame : p.rowStart host bpp 1 + (z - p.destRowBytes.toInt) = p.rowStart host bpp 0 + z := by
      simp only [AcclParams.rowStart, Nat.cast_one, Nat.cast_zero]
      ring
    rw [← hjk] at hfirst
    rw [← hjk', hsame, hfirst] at hsecond
    rw [hmod, hmod']
    exact hsecond
  · intro hcond m
    refine ⟨_, hrun m, ?_⟩
    rcases hcond with hcount | ⟨hfits, haligned, hagree⟩
    · simp [hcount, AcclParams.InRect, rows]
    have hspan : ∀ i < p.rowCount, Op.fill.span host p bpp (p.rowStart host bpp i) =
        p.rowWidth bpp := fun i hi => (runLength_eq_iff hsize hwidth).mpr ⟨hfits, haligned i hi⟩
    constructor
    · intro i hi j hj k hk
      have hx := in_of_pixel host i hj hk
      generalize hxdef : p.rowStart host bpp i + ((j * bpp + k : Nat) : Int) = x at hx ⊢
      have hvalue := rows_bytes_of_agree hrow (x := x) ?_ hi (hspan i hi ▸ hx) m
      · refine hvalue.trans ?_
        rw [← hxdef]
        exact pixelByte_at hk
      · intro a ha b hb hax hbx
        have hax : In (p.rowStart host bpp a) (p.rowWidth bpp) x := hspan a ha ▸ hax
        have hbx : In (p.rowStart host bpp b) (p.rowWidth bpp) x := hspan b hb ▸ hbx
        by_cases htwo : 2 ≤ p.rowCount
        · rcases le_total a b with hab | hba
          · exact fill_rows_agree hab (hagree htwo) hax hbx
          · exact (fill_rows_agree hba (hagree htwo) hbx hax).symm
        · have hab : a = b := by omega
          rw [hab]
    · intro x hx
      refine rows_bytes_of_not_in hrow m fun i hi hin => hx ⟨i, hi, ?_⟩
      rw [← hspan i hi]
      exact hin

/-- The rectangle is filled or inverted, and nothing else, exactly if its width in bytes fits 16 bits,
no row is narrower than what its alignment takes off, and rows that overlap agree. -/
theorem op_good_iff (op : Op) (hbpp : bytesPerPixel p.destPixelSize = some bpp)
    (hwidth : 0 ≤ p.width.toInt) (hpen : op = .fill → Replicated p.pen bpp) :
    op.Good host p bpp ↔ op.Cond host p bpp := by
  cases op with
  | invert => exact invert_good_iff hbpp hwidth
  | fill => exact fill_good_iff hbpp hwidth (hpen rfl)

end

/-- A rectangle of 8-bit pixels in the upper left corner, in rows of 64 bytes. -/
def cornerParams (base : Word) (width height : BitVec 16) : AcclParams where
  transferMode := 10
  penMode := 8
  unknown018 := 0
  forePen := 0
  backPen := 0
  srcBaseAddr := 0
  srcRowBytes := 0
  srcBounds := ⟨0, 0, 0, 0⟩
  srcPixelSize := 8
  destBaseAddr := base
  destRowBytes := 64
  destBounds := ⟨0, 0, 64, 64⟩
  destPixelSize := 8
  unknown128 := 0
  unknown130 := 0
  srcRect := ⟨0, 0, 0, 0⟩
  destRect := ⟨0, 0, height, width⟩
  unknown15c := 0

/-- A host that does not gain from unaligned accesses. -/
def alignedHost : HostConfig := ⟨false, false, 0⟩

theorem invert_corner_good : Op.invert.Good alignedHost (cornerParams 6 3 2) 1 := by
  refine (op_good_iff .invert rfl (by decide) nofun).mpr (.inr ⟨by decide, by decide, ?_⟩)
  intro _
  show _ ≤ _
  decide

/-- One pixel at an address that is even and no multiple of four. -/
theorem invert_pixel_not_good : ¬ Op.invert.Good alignedHost (cornerParams 2 1 1) 1 := by
  rw [invert_good_iff rfl (by decide)]
  rintro (hcount | ⟨-, haligned, -⟩)
  · exact absurd hcount (by decide)
  · exact absurd (haligned 0 (by decide)) (by decide)

end SheepShear.Video.Accel
