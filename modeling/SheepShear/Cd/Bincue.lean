import SheepShear.Lib.Bytes

/-!
# Cooked reads of a raw image

`read_bincue` of `bincue_unix.cpp`. Only the middle of each raw sector is data; a
position in the data is split into a sector and an offset in it. An `off_t` has 64
bits, and products wrap around.
-/

namespace SheepShear.Cd

def rawSectorSize : Nat := 2352

def cookedSectorSize : Nat := 2048

/-- The binary file of a cue sheet; the size of a file is an `off_t`. -/
structure BinFile where
  bytes : List Byte
  size_lt : bytes.length < 2 ^ 63

namespace BinFile

/-- `lseek` with `SEEK_SET`, which fails for a negative position. -/
def lseek (position : Int) : Option Nat :=
  if position < 0 then none else some position.toNat

/-- What `read` has from a position on. -/
def read (f : BinFile) (position count : Nat) : List Byte :=
  (f.bytes.drop position).take count

end BinFile

/-- `count` bytes from the source to index `target` of a buffer on. -/
def bcopy (source : List Byte) (buf : Nat → Byte) (target count : Nat) : Nat → Byte :=
  fun i => if target ≤ i ∧ i < target + count then source.getD (i - target) 0 else buf i

/-- The loop of `read_bincue` at the raw position `sec`; `secoff` is less than a sector. -/
def readLoop (f : BinFile) (sec : Nat) (secoff : Fin cookedSectorSize) (buf : Nat → Byte)
    (bytesRead len : Nat) : (Nat → Byte) × Nat :=
  if hlen : len = 0 then (buf, bytesRead)
  else
    let available := cookedSectorSize - secoff
    let available := if available > len then len else available
    let secbuf := f.read sec rawSectorSize
    if secbuf.length ≠ rawSectorSize then (buf, bytesRead)
    else
      let buf := bcopy (secbuf.drop (16 + secoff)) buf bytesRead available
      readLoop f (sec + rawSectorSize) ⟨0, by decide⟩ buf (bytesRead + available) (len - available)
termination_by len
decreasing_by
  have := secoff.isLt
  split <;> omega

/-- A product as an `off_t`, in two's complement. -/
def toOffT (n : Nat) : Int :=
  if n % 2 ^ 64 < 2 ^ 63 then n % 2 ^ 64 else (n : Int) % 2 ^ 64 - 2 ^ 64

/-- The raw position of the sector of an offset, before it is an `off_t`. -/
def rawPosition (offset : Nat) : Nat := offset / cookedSectorSize * rawSectorSize

/-- The buffer and the `size_t` that is returned, where `-1` is the largest. -/
def readBincue (f : BinFile) (buf : Nat → Byte) (offset len : Nat) : (Nat → Byte) × Nat :=
  match BinFile.lseek (toOffT (rawPosition offset)) with
  | none => (buf, 2 ^ 64 - 1)
  | some sec => readLoop f sec ⟨offset % cookedSectorSize, Nat.mod_lt _ (by decide)⟩ buf 0 len

/-- Reads one after the other, each into the buffer behind the one before. -/
def readParts (f : BinFile) (buf : Nat → Byte) (offset done : Nat) : List Nat → (Nat → Byte)
  | [] => buf
  | len :: lens =>
    let part := (readBincue f (fun i => buf (done + i)) (offset + done) len).1
    readParts f (fun i => if i < done then buf i else part (i - done)) offset (done + len) lens

-- ---------------------------------------------------------------------------
-- The cooked stream
-- ---------------------------------------------------------------------------

variable {f : BinFile} {buf : Nat → Byte} {offset len : Nat}

/-- The data of the complete sectors of a file. -/
def BinFile.cooked (f : BinFile) : List Byte :=
  (List.range (f.bytes.length / rawSectorSize)).flatMap fun s =>
    (f.bytes.drop (s * rawSectorSize + 16)).take cookedSectorSize

/-- The bytes that a read of the cooked stream has. -/
def BinFile.sliceLength (f : BinFile) (offset len : Nat) : Nat :=
  min (offset + len) f.cooked.length - offset

/-- A buffer with the slice of the cooked stream at its start. -/
def BinFile.withSlice (f : BinFile) (buf : Nat → Byte) (offset len : Nat) : Nat → Byte :=
  fun i => if i < f.sliceLength offset len then f.cooked.getD (offset + i) 0 else buf i

theorem length_sector {s : Nat} (hs : s < f.bytes.length / rawSectorSize) :
    ((f.bytes.drop (s * rawSectorSize + 16)).take cookedSectorSize).length = cookedSectorSize := by
  have hle := (Nat.le_div_iff_mul_le (by decide : 0 < rawSectorSize)).mp (Nat.succ_le_of_lt hs)
  rw [List.length_take, List.length_drop]
  simp only [rawSectorSize, cookedSectorSize] at hle ⊢
  omega

/-- The first `n` sectors, and a byte in one of them. -/
theorem length_sectors {n : Nat} (hn : n ≤ f.bytes.length / rawSectorSize) :
    ((List.range n).flatMap fun s =>
      (f.bytes.drop (s * rawSectorSize + 16)).take cookedSectorSize).length =
        n * cookedSectorSize := by
  induction n with
  | zero => simp
  | succ n ih =>
    rw [List.range_succ, List.flatMap_append, List.length_append, ih (by omega),
      List.flatMap_singleton, length_sector (by omega), Nat.succ_mul]

theorem length_cooked (f : BinFile) :
    f.cooked.length = f.bytes.length / rawSectorSize * cookedSectorSize :=
  length_sectors (Nat.le_refl _)

theorem getElem_sectors {n s i : Nat} (hn : n ≤ f.bytes.length / rawSectorSize) (hs : s < n)
    (hi : i < cookedSectorSize) :
    ((List.range n).flatMap fun s =>
      (f.bytes.drop (s * rawSectorSize + 16)).take cookedSectorSize)[s * cookedSectorSize + i]? =
        f.bytes[s * rawSectorSize + 16 + i]? := by
  induction n with
  | zero => omega
  | succ n ih =>
    rw [List.range_succ, List.flatMap_append, List.flatMap_singleton]
    have hlen := length_sectors (f := f) (n := n) (by omega)
    rcases Nat.lt_succ_iff_lt_or_eq.mp hs with hlt | rfl
    · have hend : s * cookedSectorSize + i < n * cookedSectorSize := by
        have := Nat.mul_le_mul_right cookedSectorSize (Nat.succ_le_of_lt hlt)
        rw [Nat.succ_mul] at this
        omega
      rw [List.getElem?_append_left (by rw [hlen]; exact hend)]
      exact ih (by omega) hlt
    · rw [List.getElem?_append_right (by omega), hlen, Nat.add_sub_cancel_left,
        List.getElem?_take_of_lt hi, List.getElem?_drop]

theorem getElem_cooked {s i : Nat} (hs : s < f.bytes.length / rawSectorSize)
    (hi : i < cookedSectorSize) :
    f.cooked[s * cookedSectorSize + i]? = f.bytes[s * rawSectorSize + 16 + i]? :=
  getElem_sectors (Nat.le_refl _) hs hi

-- ---------------------------------------------------------------------------
-- Reads
-- ---------------------------------------------------------------------------

/-- The buffer with a slice at index `bytesRead`. -/
def BinFile.sliceAt (f : BinFile) (buf : Nat → Byte) (bytesRead offset len : Nat) : Nat → Byte :=
  fun i =>
    if bytesRead ≤ i ∧ i < bytesRead + f.sliceLength offset len then
      f.cooked.getD (offset + (i - bytesRead)) 0
    else buf i

theorem sliceLength_zero (f : BinFile) (offset : Nat) : f.sliceLength offset 0 = 0 := by
  unfold BinFile.sliceLength
  omega

theorem sliceAt_of_none {bytesRead : Nat} (hnone : f.sliceLength offset len = 0) :
    f.sliceAt buf bytesRead offset len = buf := by
  funext i
  rw [BinFile.sliceAt, hnone, if_neg (by omega)]

theorem sliceAt_apply (f : BinFile) (buf : Nat → Byte) (bytesRead offset len i : Nat) :
    f.sliceAt buf bytesRead offset len i =
      if bytesRead ≤ i ∧ offset + (i - bytesRead) < min (offset + len) f.cooked.length then
        f.cooked.getD (offset + (i - bytesRead)) 0
      else buf i := by
  have hiff : (bytesRead ≤ i ∧ i < bytesRead + f.sliceLength offset len) ↔
      bytesRead ≤ i ∧ offset + (i - bytesRead) < min (offset + len) f.cooked.length := by
    unfold BinFile.sliceLength
    omega
  exact if_congr hiff rfl rfl

/-- A slice behind a slice. -/
theorem sliceAt_append {done more : Nat} :
    f.sliceAt (fun i => if i < done then buf i
        else f.sliceAt (fun i => buf (done + i)) 0 (offset + done) len (i - done))
      (done + len) (offset + (done + len)) more =
      f.sliceAt buf done (offset + done) (len + more) := by
  funext i
  have hindex {j k : Nat} (h : j = k) : f.cooked.getD j 0 = f.cooked.getD k 0 := by rw [h]
  simp only [sliceAt_apply]
  by_cases hlast : done + len ≤ i
  · by_cases hin : offset + i < min (offset + done + (len + more)) f.cooked.length
    · rw [if_pos (by omega), if_pos (by omega)]
      exact hindex (by omega)
    · rw [if_neg (by omega), if_neg (by omega), if_neg (by omega), if_neg (by omega)]
      have hback : done + (i - done) = i := by omega
      rw [hback]
  · rw [if_neg (by omega)]
    by_cases hbefore : i < done
    · rw [if_pos hbefore, if_neg (by omega)]
    · rw [if_neg hbefore]
      by_cases hin : offset + i < min (offset + done + len) f.cooked.length
      · rw [if_pos (by omega), if_pos (by omega)]
        exact hindex (by omega)
      · rw [if_neg (by omega), if_neg (by omega)]
        have hback : done + (i - done) = i := by omega
        rw [hback]

theorem sliceLength_split {available : Nat} (hle : available ≤ len)
    (hin : offset + available ≤ f.cooked.length) :
    f.sliceLength offset len = available + f.sliceLength (offset + available) (len - available) := by
  unfold BinFile.sliceLength
  omega

/-- A complete sector, of which `available` bytes from `secoff` on are copied. -/
theorem sliceAt_split {s secoff available bytesRead : Nat}
    (hs : s < f.bytes.length / rawSectorSize) (hle : available ≤ len)
    (hin : secoff + available ≤ cookedSectorSize) :
    f.sliceAt (bcopy ((f.read (s * rawSectorSize) rawSectorSize).drop (16 + secoff)) buf bytesRead
        available) (bytesRead + available) (s * cookedSectorSize + secoff + available)
        (len - available) =
      f.sliceAt buf bytesRead (s * cookedSectorSize + secoff) len := by
  have hend : s * cookedSectorSize + secoff + available ≤ f.cooked.length := by
    have := Nat.mul_le_mul_right cookedSectorSize (Nat.succ_le_of_lt hs)
    rw [Nat.succ_mul] at this
    rw [length_cooked]
    omega
  have hsplit := sliceLength_split hle hend
  funext i
  unfold BinFile.sliceAt bcopy
  rw [hsplit]
  by_cases hcopied : bytesRead ≤ i ∧ i < bytesRead + available
  · rw [if_neg (by omega), if_pos hcopied, if_pos (by omega)]
    have hbyte := getElem_cooked (i := secoff + (i - bytesRead)) hs (by omega)
    have hread : ((f.read (s * rawSectorSize) rawSectorSize).drop (16 + secoff))[i - bytesRead]? =
        f.bytes[s * rawSectorSize + 16 + (secoff + (i - bytesRead))]? := by
      have hidx : s * rawSectorSize + (16 + secoff + (i - bytesRead)) =
          s * rawSectorSize + 16 + (secoff + (i - bytesRead)) := by omega
      rw [List.getElem?_drop, BinFile.read, List.getElem?_take_of_lt, List.getElem?_drop, hidx]
      simp only [rawSectorSize, cookedSectorSize] at *
      omega
    rw [List.getD_eq_getElem?_getD, List.getD_eq_getElem?_getD, hread, ← hbyte, Nat.add_assoc]
  · by_cases hlater : bytesRead + available ≤ i ∧ i < bytesRead + available +
        f.sliceLength (s * cookedSectorSize + secoff + available) (len - available)
    · have hidx : s * cookedSectorSize + secoff + available + (i - (bytesRead + available)) =
          s * cookedSectorSize + secoff + (i - bytesRead) := by omega
      rw [if_pos hlater, if_pos (by omega), hidx]
    · rw [if_neg hlater, if_neg hcopied, if_neg (by omega)]

/-- The loop at sector `s` copies the slice that begins there. -/
theorem readLoop_eq (f : BinFile) (s : Nat) (secoff : Fin cookedSectorSize) (buf : Nat → Byte)
    (bytesRead len : Nat) :
    readLoop f (s * rawSectorSize) secoff buf bytesRead len =
      (f.sliceAt buf bytesRead (s * cookedSectorSize + secoff) len,
        bytesRead + f.sliceLength (s * cookedSectorSize + secoff) len) := by
  induction len using Nat.strong_induction_on generalizing s secoff buf bytesRead with
  | _ len ih =>
    rw [readLoop]
    by_cases hlen : len = 0
    · subst hlen
      rw [dif_pos rfl, sliceLength_zero, sliceAt_of_none (sliceLength_zero ..), Nat.add_zero]
    · have hsecoff := secoff.isLt
      rw [dif_neg hlen]
      dsimp only
      by_cases hs : s < f.bytes.length / rawSectorSize
      · have hle := (Nat.le_div_iff_mul_le (by decide : 0 < rawSectorSize)).mp
          (Nat.succ_le_of_lt hs)
        have hfull : (f.read (s * rawSectorSize) rawSectorSize).length = rawSectorSize := by
          rw [BinFile.read, List.length_take, List.length_drop]
          rw [Nat.succ_mul] at hle
          omega
        rw [if_neg (not_not.mpr hfull), ← Nat.succ_mul]
        generalize havailable : (if cookedSectorSize - ↑secoff > len then len
          else cookedSectorSize - ↑secoff) = available
        have hbounds : available ≤ len ∧ 0 < available ∧ secoff + available ≤ cookedSectorSize ∧
            (available = len ∨ secoff + available = cookedSectorSize) := by
          rw [← havailable]
          split <;> omega
        obtain ⟨hal, hpos, hin, hnext⟩ := hbounds
        have hend : s * cookedSectorSize + secoff + available ≤ f.cooked.length := by
          have := Nat.mul_le_mul_right cookedSectorSize (Nat.succ_le_of_lt hs)
          rw [Nat.succ_mul] at this
          rw [length_cooked]
          omega
        rw [ih (len - available) (by omega), ← sliceAt_split hs hal hin, sliceLength_split hal hend]
        rcases hnext with rfl | hnext
        · -- nothing is left, wherever the next sector begins
          rw [Nat.sub_self, sliceLength_zero, sliceLength_zero,
            sliceAt_of_none (sliceLength_zero ..), sliceAt_of_none (sliceLength_zero ..),
            Nat.add_assoc]
        · have hstart : (s + 1) * cookedSectorSize = s * cookedSectorSize + secoff + available := by
            rw [Nat.succ_mul]
            omega
          simp only [Nat.succ_eq_add_one, hstart, Nat.add_zero, Nat.add_assoc]
      · have hshort : (f.read (s * rawSectorSize) rawSectorSize).length ≠ rawSectorSize := by
          intro hfull
          rw [BinFile.read, List.length_take, List.length_drop] at hfull
          refine hs (Nat.lt_of_succ_le ((Nat.le_div_iff_mul_le (by decide)).mpr ?_))
          rw [Nat.succ_mul]
          simp only [rawSectorSize] at hfull ⊢
          omega
        have hnone : f.sliceLength (s * cookedSectorSize + secoff) len = 0 := by
          have := Nat.mul_le_mul_right cookedSectorSize (Nat.le_of_not_lt hs)
          rw [BinFile.sliceLength, length_cooked]
          omega
        rw [if_pos hshort, hnone, sliceAt_of_none hnone, Nat.add_zero]

theorem lseek_near {n : Nat} (hn : n < 2 ^ 63) : BinFile.lseek (toOffT n) = some n := by
  have hpos : toOffT n = n := by
    unfold toOffT
    split <;> omega
  rw [hpos, BinFile.lseek, if_neg (by omega)]
  rfl

theorem lseek_far {n : Nat} (hn : 2 ^ 63 ≤ n) (hlt : n < 2 ^ 64) :
    BinFile.lseek (toOffT n) = none := by
  have hneg : toOffT n < 0 := by
    unfold toOffT
    split <;> omega
  rw [BinFile.lseek, if_pos hneg]

theorem rawPosition_lt (hoffset : offset < 2 ^ 63) : rawPosition offset < 2 ^ 64 := by
  have hdiv : offset / cookedSectorSize < 2 ^ 52 := by
    rw [Nat.div_lt_iff_lt_mul (by decide), cookedSectorSize]
    omega
  rw [rawPosition, rawSectorSize]
  omega

/-- From this position on a sector lies past the end of any file. -/
theorem sliceLength_far (hfar : 2 ^ 63 ≤ rawPosition offset) : f.sliceLength offset len = 0 := by
  have hsize := f.size_lt
  have hlt : f.bytes.length / rawSectorSize < offset / cookedSectorSize := by
    refine Nat.lt_of_mul_lt_mul_right (a := rawSectorSize) ?_
    exact ((Nat.div_mul_le_self ..).trans_lt hsize).trans_le hfar
  have hle := Nat.mul_le_mul_right cookedSectorSize (Nat.le_of_lt hlt)
  have hoffset := Nat.div_mul_le_self offset cookedSectorSize
  rw [BinFile.sliceLength, length_cooked]
  omega

theorem readBincue_near (hnear : rawPosition offset < 2 ^ 63) :
    readBincue f buf offset len = (f.sliceAt buf 0 offset len, f.sliceLength offset len) := by
  rw [readBincue, lseek_near hnear]
  dsimp only [rawPosition]
  rw [readLoop_eq, Nat.zero_add, Nat.div_add_mod']

theorem readBincue_far (hoffset : offset < 2 ^ 63) (hfar : 2 ^ 63 ≤ rawPosition offset) :
    readBincue f buf offset len = (buf, 2 ^ 64 - 1) := by
  rw [readBincue, lseek_far hfar (rawPosition_lt hoffset)]

/-- Whatever the call returns, the buffer gets the slice. -/
theorem readBincue_buffer (hoffset : offset < 2 ^ 63) :
    (readBincue f buf offset len).1 = f.sliceAt buf 0 offset len := by
  rcases Nat.lt_or_ge (rawPosition offset) (2 ^ 63) with hnear | hfar
  · rw [readBincue_near hnear]
  · rw [readBincue_far hoffset hfar, sliceAt_of_none (sliceLength_far hfar)]

theorem readParts_eq {done : Nat} {lens : List Nat} (h : offset + done + lens.sum < 2 ^ 63) :
    readParts f buf offset done lens = f.sliceAt buf done (offset + done) lens.sum := by
  induction lens generalizing buf done with
  | nil => exact (sliceAt_of_none (sliceLength_zero ..)).symm
  | cons len lens ih =>
    rw [List.sum_cons] at h ⊢
    rw [readParts, ih (by omega), readBincue_buffer (by omega)]
    exact sliceAt_append

/-- A read gives the slice of the cooked stream and its length, and any consecutive reads of the
same range give the same bytes. -/
def ReadsSlice (f : BinFile) (offset len : Nat) : Prop :=
  (∀ buf, readBincue f buf offset len =
    (fun i => if i < f.sliceLength offset len then f.cooked.getD (offset + i) 0 else buf i,
      f.sliceLength offset len)) ∧
    ∀ lens : List Nat, lens.sum = len → offset + len < 2 ^ 63 →
      ∀ buf, readParts f buf offset 0 lens = (readBincue f buf offset len).1

/-- One sector whose data are zeros. -/
def oneSector : BinFile := ⟨List.replicate rawSectorSize 0, by
  rw [List.length_replicate]
  decide⟩

end SheepShear.Cd
