import SheepShear.Video.Palette

/-!
# The palette calls, one after the other

`cscSetEntries` takes `csCount` for the last row and `cscGetEntries` for the
number of rows, and only the latter looks at `csStart` and `csCount` together.
What is set is read back but for its last row, and entries behind the palette
are written when a sequence of rows reaches beyond the last entry.
-/

namespace SheepShear.Video

open Buffer

/-- Row `i` of a colour table. -/
def rowAt (table : Word) (i : Nat) : Word := table + BitVec.ofNat 32 (8 * i)

theorem rowAt_zero (table : Word) : rowAt table 0 = table := BitVec.add_zero table

theorem rowAt_succ (table : Word) (i : Nat) : rowAt table (i + 1) = rowAt (table + 8) i := by
  have h : BitVec.ofNat 32 (8 * (i + 1)) = 8 + BitVec.ofNat 32 (8 * i) := by
    rw [show (8 : Word) = BitVec.ofNat 32 8 from rfl, ← BitVec.ofNat_add]
    congr 1
    omega
  rw [rowAt, rowAt, h, BitVec.add_assoc]

-- ---------------------------------------------------------------------------
-- Rows that are stored in the palette
-- ---------------------------------------------------------------------------

/-- The entries and colours of `n` rows. -/
def indexedRows (m : Mem) (csSave : VidLocals) (table : Word) (n : Nat) : List (Nat × Rgb) :=
  (List.range n).map fun i => (rowIndex m (rowAt table i), entryColour m csSave (rowAt table i))

def sequentialRows (m : Mem) (csSave : VidLocals) (table : Word) (start n : Nat) :
    List (Nat × Rgb) :=
  (List.range n).map fun i => (start + i, entryColour m csSave (rowAt table i))

theorem setIndexed_eq (m : Mem) (csSave : VidLocals) (n : Nat) (table : Word) (pal : List Rgb) :
    setIndexed m csSave n table pal =
      scatter .entry (indexedRows m csSave table n) pal := by
  induction n generalizing table pal with
  | zero => rfl
  | succ n ih =>
    rw [setIndexed, indexedRows, List.range_succ_eq_map, List.map_cons, List.map_map, scatter,
      rowAt_zero]
    refine bind_congr fun pal => ?_
    rw [ih, indexedRows]
    congr 1
    refine List.map_congr_left fun i _ => ?_
    rw [Function.comp_apply, rowAt_succ]

theorem setSequential_eq (m : Mem) (csSave : VidLocals) (n : Nat) (table : Word) (start : Nat)
    (pal : List Rgb) :
    setSequential m csSave n table start pal =
      scatter .entry (sequentialRows m csSave table start n) pal := by
  induction n generalizing table start pal with
  | zero => rfl
  | succ n ih =>
    rw [setSequential, sequentialRows, List.range_succ_eq_map, List.map_cons, List.map_map, scatter,
      rowAt_zero]
    refine bind_congr fun pal => ?_
    rw [ih, sequentialRows]
    congr 1
    refine List.map_congr_left fun i _ => ?_
    rw [Function.comp_apply, rowAt_succ, Nat.add_right_comm, Nat.add_assoc]

-- ---------------------------------------------------------------------------
-- Rows that are stored in memory
-- ---------------------------------------------------------------------------

/-- A row that has a colour, each component replicated. -/
structure RowHolds (m : Mem) (row : Word) (c : Rgb) : Prop where
  red : m.readInt16 (row + csRed) = replicate c.red
  green : m.readInt16 (row + csGreen) = replicate c.green
  blue : m.readInt16 (row + csBlue) = replicate c.blue

instance (m : Mem) (row : Word) (c : Rgb) : Decidable (RowHolds m row c) :=
  decidable_of_iff (_ ∧ _ ∧ _) ⟨fun ⟨h₁, h₂, h₃⟩ => ⟨h₁, h₂, h₃⟩, fun ⟨h₁, h₂, h₃⟩ => ⟨h₁, h₂, h₃⟩⟩

theorem writeRow_of_far (m : Mem) (c : Rgb) {row x : Word} (h : 8 ≤ (x - row).toNat) :
    writeRow m row c x = m x := by
  have hfar : ∀ d : Word, d.toNat ≤ 6 → 2 ≤ (x - (row + d)).toNat := fun d hd => by
    rw [← sub_sub, BitVec.toNat_sub_of_le (by rw [BitVec.le_def]; omega)]
    omega
  rw [writeRow, Mem.writeInt16_of_far _ _ (hfar csBlue (by decide)),
    Mem.writeInt16_of_far _ _ (hfar csGreen (by decide)),
    Mem.writeInt16_of_far _ _ (hfar csRed (by decide))]

theorem writeRow_holds (m : Mem) (row : Word) (c : Rgb) : RowHolds (writeRow m row c) row c := by
  have hsub : ∀ d d' : Word, row + d - (row + d') = d - d' := fun d d' => by
    rw [add_sub_add_left_eq_sub]
  have hnext : ∀ d : Word, row + d + 1 = row + (d + 1) := fun d => BitVec.add_assoc ..
  have hkeep : ∀ (m : Mem) (v : BitVec 16) (d d' : Word), 2 ≤ (d - d').toNat →
      2 ≤ (d + 1 - d').toNat → (m.writeInt16 (row + d') v).readInt16 (row + d) =
        m.readInt16 (row + d) := fun m v d d' h0 h1 =>
    Mem.readInt16_congr (m.writeInt16_of_far v (by rwa [hsub]))
      (m.writeInt16_of_far v (by rwa [hnext, hsub]))
  refine ⟨?_, ?_, ?_⟩
  · rw [writeRow, hkeep _ _ csRed csBlue (by decide) (by decide),
      hkeep _ _ csRed csGreen (by decide) (by decide), Mem.readInt16_writeInt16_self]
  · rw [writeRow, hkeep _ _ csGreen csBlue (by decide) (by decide), Mem.readInt16_writeInt16_self]
  · rw [writeRow, Mem.readInt16_writeInt16_self]

/-- The rows of a table, one after the other. -/
def writeRows (m : Mem) (table : Word) : List Rgb → Mem
  | [] => m
  | c :: cs => writeRows (writeRow m table c) (table + 8) cs

theorem writeRows_of_far (m : Mem) {cs : List Rgb} {table x : Word}
    (h : 8 * cs.length ≤ (x - table).toNat) : writeRows m table cs x = m x := by
  induction cs generalizing m table with
  | nil => rfl
  | cons c cs ih =>
    rw [List.length_cons] at h
    have h8 : (8 : Word).toNat = 8 := rfl
    have hnext : (x - (table + 8)).toNat = (x - table).toNat - 8 := by
      rw [← sub_sub, BitVec.toNat_sub_of_le (by rw [BitVec.le_def]; omega), h8]
    rw [writeRows, ih _ (by omega), writeRow_of_far m c (by omega)]

/-- The bytes of a row are far from another row. -/
theorem RowHolds.congr {m m' : Mem} {row : Word} {c : Rgb}
    (h : ∀ d : Word, d.toNat < 8 → m' (row + d) = m (row + d)) :
    RowHolds m' row c ↔ RowHolds m row c := by
  have hread : ∀ d : Word, d.toNat < 7 → m'.readInt16 (row + d) = m.readInt16 (row + d) :=
    fun d hd => Mem.readInt16_congr (h d (by omega)) (by
      have h1 : (1 : Word).toNat = 1 := rfl
      rw [BitVec.add_assoc]
      exact h _ (by rw [BitVec.toNat_add, h1]; omega))
  constructor
  · rintro ⟨h₁, h₂, h₃⟩
    rw [hread _ (by decide)] at h₁ h₂ h₃
    exact ⟨h₁, h₂, h₃⟩
  · rintro ⟨h₁, h₂, h₃⟩
    rw [← hread _ (by decide)] at h₁ h₂ h₃
    exact ⟨h₁, h₂, h₃⟩

theorem toNat_rowAt_sub {table d : Word} {i : Nat} (hi : i < 2 ^ 20) (hd : d.toNat < 8) :
    (rowAt table i + d - table).toNat = 8 * i + d.toNat := by
  rw [rowAt, add_assoc, add_sub_cancel_left, BitVec.toNat_add, BitVec.toNat_ofNat]
  omega

/-- Each row has its colour. -/
theorem writeRows_holds (m : Mem) {cs : List Rgb} (hlen : cs.length < 2 ^ 20) {i : Nat} {c : Rgb}
    (h : cs[i]? = some c) (table : Word) : RowHolds (writeRows m table cs) (rowAt table i) c := by
  induction cs generalizing m table i with
  | nil => simp at h
  | cons c' cs ih =>
    rw [List.length_cons] at hlen
    cases i with
    | zero =>
      obtain rfl : c' = c := by simpa using h
      rw [rowAt_zero, writeRows]
      refine (RowHolds.congr fun d hd => ?_).mpr (writeRow_holds m table c')
      refine writeRows_of_far _ ?_
      have h8 : (8 : Word).toNat = 8 := rfl
      rw [add_sub_add_left_eq_sub, BitVec.toNat_sub, h8]
      omega
    | succ i =>
      rw [rowAt_succ, writeRows]
      exact ih _ (by omega) (by simpa using h) _

/-- The row behind the last one stays as it is. -/
theorem writeRows_next (m : Mem) {cs : List Rgb} (hlen : cs.length < 2 ^ 20) (table : Word)
    (c : Rgb) :
    RowHolds (writeRows m table cs) (rowAt table cs.length) c ↔
      RowHolds m (rowAt table cs.length) c :=
  RowHolds.congr fun d hd => writeRows_of_far m (by
    rw [toNat_rowAt_sub hlen hd]
    omega)

theorem rowIndex_lt (m : Mem) (row : Word) : rowIndex m row < 256 := by
  rw [rowIndex, BitVec.toNat_and, show (0xff : BitVec 16).toNat = 2 ^ 8 - 1 from rfl,
    Nat.and_two_pow_sub_one_eq_mod]
  omega

/-- A row does not change the index of a later one. -/
theorem rowIndex_writeRow (m : Mem) (c : Rgb) (table : Word) {i : Nat} (hi : i < 2 ^ 20 - 1) :
    rowIndex (writeRow m table c) (rowAt (table + 8) i) = rowIndex m (rowAt (table + 8) i) := by
  have hfar : ∀ d : Word, d.toNat < 8 →
      writeRow m table c (rowAt (table + 8) i + d) = m (rowAt (table + 8) i + d) := fun d hd => by
    refine writeRow_of_far m c ?_
    rw [← rowAt_succ, toNat_rowAt_sub (by omega) hd]
    omega
  rw [rowIndex, rowIndex, Mem.readInt16_congr (hfar csValue (by decide))
    (by rw [BitVec.add_assoc]; exact hfar _ (by decide))]

instance : Inhabited Rgb := ⟨⟨0, 0, 0⟩⟩

theorem loadEntry_ok {pal : List Rgb} {i : Nat} (h : i < pal.length) :
    loadEntry pal i = .ok (pal.getD i default) := by
  rw [loadEntry, dif_pos h, List.getD_eq_getElem pal default h]

theorem getIndexed_eq {pal : List Rgb} (hpal : pal.length = 256) {n : Nat} (hn : n < 2 ^ 20)
    (table : Word) (m : Mem) :
    getIndexed pal n table m = .ok (writeRows m table
      ((List.range n).map fun i => pal.getD (rowIndex m (rowAt table i)) default)) := by
  induction n generalizing table m with
  | zero => rfl
  | succ n ih =>
    have hlt := rowIndex_lt m table
    rw [getIndexed, loadEntry_ok (by omega), Except.ok_bind, ih (by omega), List.range_succ_eq_map,
      List.map_cons, List.map_map, rowAt_zero, writeRows]
    congr 2
    refine List.map_congr_left fun i hi => ?_
    rw [List.mem_range] at hi
    rw [Function.comp_apply, rowAt_succ, rowIndex_writeRow m _ table (by omega)]

theorem getSequential_eq {pal : List Rgb} {n start : Nat} (hstart : start + n ≤ pal.length)
    (table : Word) (m : Mem) :
    getSequential pal n start table m = .ok (writeRows m table
      ((List.range n).map fun i => pal.getD (start + i) default)) := by
  induction n generalizing table start m with
  | zero => rfl
  | succ n ih =>
    rw [getSequential, loadEntry_ok (by omega), Except.ok_bind, ih (by omega),
      List.range_succ_eq_map, List.map_cons, List.map_map, writeRows, Nat.add_zero]
    congr 2
    refine List.map_congr_left fun i hi => ?_
    rw [Function.comp_apply, Nat.add_right_comm, Nat.add_assoc]

-- ---------------------------------------------------------------------------
-- The two calls
-- ---------------------------------------------------------------------------

section Calls

variable (m : Mem) (viAppleMode : Word) (csSave : VidLocals) (param param' : Word)

/-- The entry of row `i`. -/
def entryOf (i : Nat) : Nat :=
  if startOf m param = 0xffff then rowIndex m (rowAt (tableOf m param) i)
  else (startOf m param).toNat + i

/-- Both tables name the same entries. -/
def SameRows : Prop :=
  startOf m param = 0xffff → ∀ i ≤ countOf m param, entryOf m param' i = entryOf m param i

/-- A linear gamma table with entries of 8 bits, and no luminance mapping. -/
def Linear : Prop :=
  csSave.luminanceMapping = false ∧ (csSave.gammaTable ≠ 0 →
    (gammaOf m csSave.gammaTable).width = 8 ∧ ∀ v : Byte,
      m ((gammaOf m csSave.gammaTable).red + v.setWidth 32) = v ∧
      m ((gammaOf m csSave.gammaTable).green + v.setWidth 32) = v ∧
      m ((gammaOf m csSave.gammaTable).blue + v.setWidth 32) = v)

/-- What is expected of the two calls with the same start and count. -/
structure RoundTrip (pal : List Rgb) : Prop where
  set : ∃ pal' code, setEntries m viAppleMode csSave param pal = .ok (pal', code) ∧
    (code ≠ noErr → pal' = pal)
  get : ∃ m' code, getEntries m viAppleMode param' pal = .ok (m', code)
  back : ∀ pal', setEntries m viAppleMode csSave param pal = .ok (pal', noErr) →
    Linear m csSave → SameRows m param param' →
      ∃ m', getEntries m viAppleMode param' pal' = .ok (m', noErr) ∧
        (∀ i ≤ countOf m param, RowHolds m' (rowAt (tableOf m param') i)
          (rowColour m (rowAt (tableOf m param) i))) ∧
        ∀ k < 256, (∀ i ≤ countOf m param, entryOf m param i ≠ k) → pal'[k]? = pal[k]?

/-- The calls that `cscSetEntries` does not accept. -/
def Refused : Prop :=
  apple8Bit < viAppleMode ∨ tableOf m param = 0 ∨ 256 < countOf m param

/-- A sequence ends in the palette; the last row is there already when it is not read back; and
rows for one entry have one colour. -/
def Accepted : Prop :=
  (startOf m param ≠ 0xffff → (startOf m param).toNat + countOf m param ≤ 255) ∧
    (Linear m csSave → SameRows m param param' →
      RowHolds m (rowAt (tableOf m param') (countOf m param))
        (rowColour m (rowAt (tableOf m param) (countOf m param))) ∧
      ∀ i ≤ countOf m param, ∀ j ≤ countOf m param, entryOf m param i = entryOf m param j →
        rowColour m (rowAt (tableOf m param) i) = rowColour m (rowAt (tableOf m param) j))

end Calls

section Exact

variable {m : Mem} {viAppleMode : Word} {csSave : VidLocals} {param param' : Word}
  {pal pal' : List Rgb}

theorem setEntries_refused (h : Refused m viAppleMode param) (pal : List Rgb) :
    setEntries m viAppleMode csSave param pal = .ok (pal, controlErr) := by
  rw [setEntries]
  split
  · rfl
  · next hmode => exact if_pos (h.resolve_left hmode)

/-- The rows that an accepted call stores. -/
def rows (m : Mem) (csSave : VidLocals) (param : Word) : List (Nat × Rgb) :=
  (List.range (countOf m param + 1)).map fun i =>
    (entryOf m param i, entryColour m csSave (rowAt (tableOf m param) i))

theorem setEntries_eq (h : ¬Refused m viAppleMode param) (pal : List Rgb) :
    setEntries m viAppleMode csSave param pal =
      (scatter .entry (rows m csSave param) pal >>= fun pal => .ok (pal, noErr)) := by
  simp only [Refused, not_or] at h
  have hrows : rows m csSave param = if startOf m param = 0xffff then
      indexedRows m csSave (tableOf m param) (countOf m param + 1)
      else sequentialRows m csSave (tableOf m param) (startOf m param).toNat
        (countOf m param + 1) := by
    unfold rows entryOf
    split <;> rfl
  simp only [setEntries, if_neg h.1, hrows, if_neg (not_or.mpr h.2)]
  by_cases hstart : startOf m param = 0xffff
  · rw [if_pos hstart, if_pos hstart, setIndexed_eq]
    rfl
  · rw [if_neg hstart, if_neg hstart, setSequential_eq]
    rfl

theorem rows_inside : (∀ w ∈ rows m csSave param, w.1 < 256) ↔
    (startOf m param ≠ 0xffff → (startOf m param).toNat + countOf m param ≤ 255) := by
  simp only [rows, List.forall_mem_map, List.mem_range, entryOf]
  constructor
  · intro h hstart
    have := h (countOf m param) (by omega)
    rw [if_neg hstart] at this
    omega
  · intro h i hi
    split
    · exact rowIndex_lt _ _
    · next hstart =>
      have := h hstart
      omega

/-- The entries that are read are in the palette. -/
theorem getEntries_ok (m : Mem) (viAppleMode param' : Word) (hpal : pal.length = 256) :
    ∃ m' code, getEntries m viAppleMode param' pal = .ok (m', code) := by
  have hcount : countOf m param' < 65536 := (m.readInt16 (param' + csCount)).isLt
  simp only [getEntries]
  split
  · exact ⟨_, _, rfl⟩
  · split
    · rw [getIndexed_eq hpal (by omega)]
      exact ⟨_, _, rfl⟩
    · split
      · exact ⟨_, _, rfl⟩
      · rw [getSequential_eq (by omega)]
        exact ⟨_, _, rfl⟩

/-- What is read back of entries in the palette. -/
theorem getEntries_eq (hpal : pal.length = 256) (hmode : ¬apple8Bit < viAppleMode)
    (hstart : startOf m param' ≠ 0xffff → (startOf m param').toNat + countOf m param' ≤ 255) :
    getEntries m viAppleMode param' pal = .ok (writeRows m (tableOf m param')
      ((List.range (countOf m param')).map fun i => pal.getD (entryOf m param' i) default),
        noErr) := by
  have hcount : countOf m param' < 65536 := (m.readInt16 (param' + csCount)).isLt
  have hdirect : ¬(viAppleMode = apple32Bit ∨ viAppleMode = apple16Bit) := by
    rintro (rfl | rfl)
    · exact hmode (by decide)
    · exact hmode (by decide)
  simp only [getEntries, if_neg hdirect]
  by_cases h : startOf m param' = 0xffff
  · rw [if_pos h, getIndexed_eq hpal (by omega)]
    simp only [entryOf, if_pos h]
    rfl
  · rw [if_neg h, if_neg (by have := hstart h; omega), getSequential_eq (by have := hstart h; omega)]
    simp only [entryOf, if_neg h]
    rfl

theorem entryColour_linear (h : Linear m csSave) (row : Word) :
    entryColour m csSave row = rowColour m row := by
  obtain ⟨hlum, hgamma⟩ := h
  simp only [entryColour, hlum, Bool.false_eq_true, if_false]
  split
  · next htable =>
    obtain ⟨hwidth, hv⟩ := hgamma htable
    simp only [Gamma.correct, lookup, hwidth, Nat.sub_self, BitVec.ushiftRight_zero, (hv _).1,
      (hv _).2.1, (hv _).2.2]
  · rfl

theorem replicate_inj {v w : Byte} (h : replicate v = replicate w) : v = w := by
  have hlow : ∀ v : Byte, (replicate v).setWidth 8 = v := by decide
  rw [← hlow v, h, hlow]

theorem RowHolds.unique {row : Word} {c c' : Rgb} (h : RowHolds m row c) (h' : RowHolds m row c') :
    c = c' := by
  cases c
  cases c'
  congr
  · exact replicate_inj (h.red.symm.trans h'.red)
  · exact replicate_inj (h.green.symm.trans h'.green)
  · exact replicate_inj (h.blue.symm.trans h'.blue)

/-- What a call stores for its last row, and for rows that agree. -/
theorem scatter_rows_last (h : scatter OutOfPalette.entry (rows m csSave param) pal = .ok pal') :
    pal'[entryOf m param (countOf m param)]? =
      some (entryColour m csSave (rowAt (tableOf m param) (countOf m param))) := by
  rw [rows, List.range_succ, List.map_append] at h
  exact scatter_concat h

theorem scatter_rows_agree (h : scatter OutOfPalette.entry (rows m csSave param) pal = .ok pal')
    (hagree : ∀ i ≤ countOf m param, ∀ j ≤ countOf m param, entryOf m param i = entryOf m param j →
      entryColour m csSave (rowAt (tableOf m param) i) =
        entryColour m csSave (rowAt (tableOf m param) j))
    {i : Nat} (hi : i ≤ countOf m param) :
    pal'[entryOf m param i]? = some (entryColour m csSave (rowAt (tableOf m param) i)) := by
  refine scatter_of_agree h (List.mem_map.mpr ⟨i, List.mem_range.mpr (by omega), rfl⟩) ?_
  intro w hw hentry
  obtain ⟨j, hj, rfl⟩ := List.mem_map.mp hw
  exact hagree j (by have := List.mem_range.mp hj; omega) i hi hentry

theorem scatter_rows_other (h : scatter OutOfPalette.entry (rows m csSave param) pal = .ok pal') {k : Nat}
    (hk : ∀ i ≤ countOf m param, entryOf m param i ≠ k) : pal'[k]? = pal[k]? := by
  refine scatter_of_not_mem h fun w hw => ?_
  obtain ⟨i, hi, rfl⟩ := List.mem_map.mp hw
  exact hk i (by have := List.mem_range.mp hi; omega)

theorem roundTrip_of_refused (h : Refused m viAppleMode param) (hpal : pal.length = 256) :
    RoundTrip m viAppleMode csSave param param' pal := by
  refine ⟨⟨pal, controlErr, setEntries_refused h pal, fun _ => rfl⟩,
    getEntries_ok m viAppleMode param' hpal, ?_⟩
  intro pal' hset
  rw [setEntries_refused h] at hset
  cases (Prod.mk.inj (Except.ok.inj hset)).2

/-- The colours that are read back for the rows of a call. -/
def readBack (m : Mem) (param : Word) (pal : List Rgb) : List Rgb :=
  (List.range (countOf m param)).map fun i => pal.getD (entryOf m param i) default

@[simp] theorem length_readBack (m : Mem) (param : Word) (pal : List Rgb) :
    (readBack m param pal).length = countOf m param := by
  rw [readBack, List.length_map, List.length_range]

theorem getElem?_readBack {i : Nat} (hi : i < countOf m param) :
    (readBack m param pal)[i]? = some (pal.getD (entryOf m param i) default) := by
  rw [readBack, List.getElem?_map, List.getElem?_range hi, Option.map_some]

/-- The row behind those that are read back. -/
theorem readBack_next (hsmall : countOf m param ≤ 256) (table : Word) (c : Rgb) :
    RowHolds (writeRows m table (readBack m param pal)) (rowAt table (countOf m param)) c ↔
      RowHolds m (rowAt table (countOf m param)) c := by
  have hlen : (readBack m param pal).length < 2 ^ 20 := by
    rw [length_readBack]
    omega
  have hnext := writeRows_next m hlen table c
  rwa [length_readBack] at hnext

/-- The memory that is read back for the rows of a call. -/
theorem getEntries_rows (hpal : pal'.length = 256) (hmode : ¬apple8Bit < viAppleMode)
    (hstart : startOf m param' = startOf m param) (hcount : countOf m param' = countOf m param)
    (hin : startOf m param ≠ 0xffff → (startOf m param).toNat + countOf m param ≤ 255)
    (hsame : SameRows m param param') :
    getEntries m viAppleMode param' pal' =
      .ok (writeRows m (tableOf m param') (readBack m param pal'), noErr) := by
  rw [getEntries_eq hpal hmode (by rw [hstart, hcount]; exact hin), hcount]
  have hrows : ∀ i ∈ List.range (countOf m param), pal'.getD (entryOf m param' i) default =
      pal'.getD (entryOf m param i) default := fun i hi => by
    by_cases h : startOf m param = 0xffff
    · rw [hsame h i (by have := List.mem_range.mp hi; omega)]
    · simp only [entryOf, hstart, if_neg h]
  rw [List.map_congr_left hrows, readBack]

theorem roundTrip_of_accepted (hrefused : ¬Refused m viAppleMode param)
    (hpal : pal.length = 256) (hstart : startOf m param' = startOf m param)
    (hcount : countOf m param' = countOf m param) (h : Accepted m csSave param param') :
    RoundTrip m viAppleMode csSave param param' pal := by
  obtain ⟨hin, hrows⟩ := h
  have hinside : ∀ w ∈ rows m csSave param, w.1 < pal.length := by
    rw [hpal]
    exact rows_inside.mpr hin
  obtain ⟨stored, hstored⟩ := exists_scatter_iff.mpr hinside
  have hset : setEntries m viAppleMode csSave param pal = .ok (stored, noErr) := by
    rw [setEntries_eq hrefused, hstored]
    rfl
  refine ⟨⟨stored, noErr, hset, fun h => absurd rfl h⟩, getEntries_ok m viAppleMode param' hpal, ?_⟩
  intro pal' hset' hlinear hsame
  obtain rfl : stored = pal' := (Prod.mk.inj (Except.ok.inj (hset.symm.trans hset'))).1
  obtain ⟨hlast, hagree⟩ := hrows hlinear hsame
  have hsmall : countOf m param ≤ 256 := by
    by_contra hbig
    exact hrefused (.inr (.inr (by omega)))
  have hlen := (length_scatter hstored).trans hpal
  refine ⟨_, getEntries_rows hlen (fun h => hrefused (.inl h)) hstart hcount hin hsame, ?_,
    fun k _ hk => scatter_rows_other hstored hk⟩
  intro i hi
  obtain hi | rfl := Nat.lt_or_eq_of_le hi
  · refine writeRows_holds m (by rw [length_readBack]; omega) ?_ _
    have hcolour := scatter_rows_agree hstored (fun i hi j hj h => by
      rw [entryColour_linear hlinear, entryColour_linear hlinear]
      exact hagree i hi j hj h) hi.le
    rw [entryColour_linear hlinear] at hcolour
    rw [getElem?_readBack hi, List.getD_eq_getElem?_getD, hcolour, Option.getD_some]
  · exact (readBack_next hsmall _ _).mpr hlast

theorem accepted_of_roundTrip (hrefused : ¬Refused m viAppleMode param)
    (hpal : pal.length = 256) (hstart : startOf m param' = startOf m param)
    (hcount : countOf m param' = countOf m param)
    (h : RoundTrip m viAppleMode csSave param param' pal) : Accepted m csSave param param' := by
  obtain ⟨⟨pal', code, hset, -⟩, -, hback⟩ := h
  have hstored := hset
  rw [setEntries_eq hrefused, Except.bind_eq_ok] at hstored
  obtain ⟨stored, hstored, hcode⟩ := hstored
  obtain ⟨rfl, rfl⟩ := Prod.mk.inj (Except.ok.inj hcode)
  have hin : startOf m param ≠ 0xffff → (startOf m param).toNat + countOf m param ≤ 255 := by
    have hinside := exists_scatter_iff.mp ⟨_, hstored⟩
    rw [hpal] at hinside
    exact rows_inside.mp hinside
  refine ⟨hin, fun hlinear hsame => ?_⟩
  obtain ⟨m', hget, hrows, -⟩ := hback _ hset hlinear hsame
  have hsmall : countOf m param ≤ 256 := by
    by_contra hbig
    exact hrefused (.inr (.inr (by omega)))
  have hlen := (length_scatter hstored).trans hpal
  rw [getEntries_rows hlen (fun h => hrefused (.inl h)) hstart hcount hin hsame] at hget
  obtain rfl := (Prod.mk.inj (Except.ok.inj hget)).1
  have hlast : RowHolds m (rowAt (tableOf m param') (countOf m param))
      (rowColour m (rowAt (tableOf m param) (countOf m param))) :=
    (readBack_next hsmall _ _).mp (hrows _ le_rfl)
  -- Each entry has the colour of every row that is for it.
  have hentry : ∀ i ≤ countOf m param,
      stored[entryOf m param i]? = some (rowColour m (rowAt (tableOf m param) i)) := by
    intro i hi
    obtain hi | rfl := Nat.lt_or_eq_of_le hi
    · have hshort : (readBack m param stored).length < 2 ^ 20 := by
        rw [length_readBack]
        omega
      have hread := writeRows_holds m hshort (getElem?_readBack hi)
      have hlt : entryOf m param i < stored.length := by
        have hmem := (exists_scatter_iff.mp ⟨_, hstored⟩) _
          (List.mem_map.mpr ⟨i, List.mem_range.mpr (by omega), rfl⟩)
        rw [hlen]
        rw [hpal] at hmem
        exact hmem
      have hcolour := (hread (tableOf m param')).unique (hrows i hi.le)
      rw [List.getD_eq_getElem _ _ hlt] at hcolour
      rw [List.getElem?_eq_getElem hlt, hcolour]
    · rw [scatter_rows_last hstored, entryColour_linear hlinear]
  refine ⟨hlast, fun i hi j hj hij => ?_⟩
  have := hentry i hi
  rw [hij, hentry j hj] at this
  exact (Option.some.inj this).symm

/-- The two calls are in bounds and inverse to each other exactly when the first one is refused or
accepts what is in the palette and is read back. -/
theorem roundTrip_iff (hpal : pal.length = 256) (hstart : startOf m param' = startOf m param)
    (hcount : countOf m param' = countOf m param) :
    RoundTrip m viAppleMode csSave param param' pal ↔
      Refused m viAppleMode param ∨ Accepted m csSave param param' := by
  constructor
  · intro h
    by_cases hrefused : Refused m viAppleMode param
    · exact .inl hrefused
    · exact .inr (accepted_of_roundTrip hrefused hpal hstart hcount h)
  · intro h
    by_cases hrefused : Refused m viAppleMode param
    · exact roundTrip_of_refused hrefused hpal
    · exact roundTrip_of_accepted hrefused hpal hstart hcount (h.resolve_left hrefused)

end Exact

-- ---------------------------------------------------------------------------
-- Two calls
-- ---------------------------------------------------------------------------

/-- A call for `count + 1` rows of a table at 0x1000, from entry `start` on. -/
def callMemory (start count : Byte) : Mem := .ofBytes [0, 0, 0x10, 0, 0, start, 0, count]

def noGamma : VidLocals := ⟨0, 0, false⟩

def blackPalette : List Rgb := List.replicate 256 ⟨0, 0, 0⟩

theorem blackRow_roundTrip : RoundTrip (callMemory 7 0) apple8Bit noGamma 0 0 blackPalette := by
  refine (roundTrip_iff List.length_replicate rfl rfl).mpr (.inr ⟨by decide, fun _ _ => ⟨by decide, ?_⟩⟩)
  intro i hi j hj _
  have hcount : countOf (callMemory 7 0) 0 = 0 := by decide
  obtain rfl : i = 0 := by omega
  obtain rfl : j = 0 := by omega
  rfl

/-- The last of 256 rows from entry 1 on is behind the palette. -/
theorem lastRow_outside : ¬RoundTrip (callMemory 1 255) apple8Bit noGamma 0 0 blackPalette := by
  rintro ⟨⟨pal', code, hset, -⟩, -, -⟩
  have haccepted : ¬Refused (callMemory 1 255) apple8Bit 0 := by
    rintro (h | h | h) <;> revert h <;> decide
  rw [setEntries_eq haccepted, Except.bind_eq_ok] at hset
  obtain ⟨stored, hstored, -⟩ := hset
  have hinside := exists_scatter_iff.mp ⟨stored, hstored⟩
  rw [blackPalette, List.length_replicate, rows_inside] at hinside
  revert hinside
  decide

end SheepShear.Video
