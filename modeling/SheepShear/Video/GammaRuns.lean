import SheepShear.Video.GammaTable

/-!
# Gamma tables over a run

The table in force is complete after every call, and every lookup is in it.
A call that fails keeps it unless the block was released for a larger one.
-/

namespace SheepShear.Video.GammaTable

-- ---------------------------------------------------------------------------
-- Fields of tables that are stored
-- ---------------------------------------------------------------------------

/-- The fields depend on the header only. -/
theorem readInt16_shift {m m' : Mem} {table table' d : Word}
    (h0 : m' (table' + d) = m (table + d)) (h1 : m' (table' + d + 1) = m (table + d + 1)) :
    m'.readInt16 (table' + d) = m.readInt16 (table + d) := by
  rw [Mem.readInt16, Mem.readInt16, h0, h1]

structure SameHeader (m m' : Mem) (table table' : Word) : Prop where
  formula : formulaSize m' table' = formulaSize m table
  channels : chanCnt m' table' = chanCnt m table
  count : dataCnt m' table' = dataCnt m table
  width : dataWidth m' table' = dataWidth m table

theorem SameHeader.of_bytes {m m' : Mem} {table table' : Word}
    (h : ∀ d : Word, d.toNat < 12 → m' (table' + d) = m (table + d)) :
    SameHeader m m' table table' := by
  have hread : ∀ d : Word, d.toNat < 11 →
      m'.readInt16 (table' + d) = m.readInt16 (table + d) := fun d hd => by
    have h1 : (1 : Word).toNat = 1 := rfl
    refine readInt16_shift (h d (by omega)) ?_
    rw [BitVec.add_assoc, BitVec.add_assoc]
    exact h _ (by rw [BitVec.toNat_add, h1]; omega)
  constructor
  · rw [formulaSize, formulaSize, hread _ (by decide)]
  · rw [chanCnt, chanCnt, hread _ (by decide)]
  · rw [dataCnt, dataCnt, hread _ (by decide)]
  · rw [dataWidth, dataWidth, hread _ (by decide)]

theorem SameHeader.tableSize {m m' : Mem} {table table' : Word}
    (h : SameHeader m m' table table') :
    GammaTable.tableSize m' table' = GammaTable.tableSize m table := by
  rw [GammaTable.tableSize, GammaTable.tableSize, h.formula, h.channels, h.count]

theorem WellFormedTable.congr {m m' : Mem} {table table' : Word} {n n' : Nat}
    (h : WellFormedTable m table n) (hsame : SameHeader m m' table table')
    (hfits : table'.toNat + n' ≤ 2 ^ 32) (hn : GammaTable.tableSize m table ≤ n') :
    WellFormedTable m' table' n' := by
  refine ⟨hfits, ?_, ?_, ?_, ?_⟩
  · rw [hsame.channels]
    exact h.channels
  · rw [hsame.width]
    exact h.width
  · rw [hsame.count, hsame.width]
    exact h.count
  · rw [hsame.tableSize]
    exact hn

theorem twelve_le_tableSize (m : Mem) (table : Word) : 12 ≤ tableSize m table := by
  unfold tableSize
  omega

/-- The header of a table is in its block. -/
theorem header_in {table d : Word} {n : Nat} (h : 12 ≤ n) (hd : d.toNat < 12) : In table n (table + d) := by
  rw [In, add_sub_cancel_left]
  omega

theorem copyTable_header (m : Mem) (dst src : Word) {size : Nat} (h : 12 ≤ size) :
    SameHeader m (copyTable m dst src size) src dst := by
  refine .of_bytes fun d hd => ?_
  rw [copyTable, Mem.storeBytes, if_pos (by rw [add_sub_cancel_left]; omega), add_sub_cancel_left]
  simp

/-- The bytes of the header of a ramp. -/
theorem linearRamp_header (m : Mem) (table : Word) :
    formulaSize (linearRamp m table) table = 0 ∧ chanCnt (linearRamp m table) table = 1 ∧
      dataCnt (linearRamp m table) table = 256 ∧ dataWidth (linearRamp m table) table = 8 := by
  refine ⟨?_, ?_, ?_, ?_⟩
  all_goals
    simp [formulaSize, chanCnt, dataCnt, dataWidth, linearRamp, Mem.storeBytes, Mem.readInt16,
      Mem.writeInt16, gVersion, gType, gFormulaSize, gChanCnt, gDataCnt, gDataWidth, gFormulaData,
      add_assoc, add_sub_add_left_eq_sub]

/-- A ramp is a complete table. -/
theorem linearRamp_wellFormed (m : Mem) {table : Word} {n : Nat} (hfits : table.toNat + n ≤ 2 ^ 32)
    (hn : 268 ≤ n) : WellFormedTable (linearRamp m table) table n := by
  obtain ⟨hformula, hchannels, hcount, hwidth⟩ := linearRamp_header m table
  refine ⟨hfits, .inl hchannels, by omega, by rw [hcount, hwidth]; rfl, ?_⟩
  rw [tableSize, hformula, hchannels, hcount]
  omega

-- ---------------------------------------------------------------------------
-- One call
-- ---------------------------------------------------------------------------

/-- The table is complete, and without a table there is no block. -/
def Inv (s : State) : Prop :=
  (s.csSave.gammaTable = 0 ∧ s.csSave.maxGammaTableSize = 0) ∨ (s.csSave.gammaTable ≠ 0 ∧
    WellFormedTable s.mem s.csSave.gammaTable s.csSave.maxGammaTableSize.toNat)

theorem Inv.tableOk {s : State} (h : Inv s) : TableOk s := h.imp And.left And.right

theorem Inv.not_block {s : State} (h : Inv s) (hzero : s.csSave.gammaTable = 0) (x : Word) :
    ¬block s x := by
  rcases h with ⟨-, hmax⟩ | ⟨hne, -⟩
  · rw [block, In, hmax]
    exact Nat.not_lt_zero _
  · exact absurd hzero hne

/-- The three outcomes of `allocate_gamma_table`. -/
theorem allocate_cases (csSave : VidLocals) (size : Nat) (block : Word) :
    (size ≤ csSave.maxGammaTableSize.toNat ∧
      allocateGammaTable csSave size block = (csSave, true)) ∨
    (csSave.maxGammaTableSize.toNat < size ∧ block = 0 ∧
      allocateGammaTable csSave size block = ({ csSave with
        gammaTable := 0
        maxGammaTableSize := if csSave.gammaTable ≠ 0 then 0 else csSave.maxGammaTableSize },
          false)) ∨
    (csSave.maxGammaTableSize.toNat < size ∧ block ≠ 0 ∧
      allocateGammaTable csSave size block =
        ({ csSave with gammaTable := block, maxGammaTableSize := BitVec.ofNat 32 size }, true)) := by
  by_cases hsize : csSave.maxGammaTableSize.toNat < size
  · right
    by_cases hblock : block = 0
    · refine .inl ⟨hsize, hblock, ?_⟩
      simp only [allocateGammaTable, if_pos hsize, hblock]
      split_ifs <;> rfl
    · refine .inr ⟨hsize, hblock, ?_⟩
      simp only [allocateGammaTable, if_pos hsize, if_neg hblock]
      split_ifs <;> rfl
  · exact .inl ⟨Nat.le_of_not_lt hsize, if_neg hsize⟩

theorem toNat_ofNat_size {size : Nat} (h : size < 2 ^ 32) : (BitVec.ofNat 32 size).toNat = size := by
  rw [BitVec.toNat_ofNat, Nat.mod_eq_of_lt h]

theorem setGamma_zero_inv {s : State} {heap : Heap} (hinv : Inv s)
    (hfits : heap.block ≠ 0 → heap.block.toNat + 268 ≤ 2 ^ 32) : Inv (setGamma s 0 heap).1 := by
  rw [setGamma, if_pos rfl]
  rcases allocate_cases s.csSave 268 heap.block with ⟨hsize, h⟩ | ⟨hsize, hblock, h⟩ |
    ⟨hsize, hblock, h⟩
  · simp only [h, Bool.true_eq_false, if_false]
    rcases hinv with ⟨-, hmax⟩ | ⟨hne, hwell⟩
    · rw [hmax] at hsize
      cases hsize
    · exact .inr ⟨hne, linearRamp_wellFormed _ hwell.fits hsize⟩
  · simp only [h, if_true]
    rcases hinv with ⟨hzero, hmax⟩ | ⟨hne, -⟩
    · exact .inl ⟨rfl, by rw [if_neg (not_not.mpr hzero)]; exact hmax⟩
    · exact .inl ⟨rfl, if_pos hne⟩
  · simp only [h, Bool.true_eq_false, if_false]
    exact .inr ⟨hblock, linearRamp_wellFormed _ (hfits hblock) le_rfl⟩

/-- A valid table is copied whole. -/
theorem copyTable_wellFormed {s : State} {gamma dst : Word} {m : Mem} {n : Nat}
    (hvalid : validHeader s.mem gamma = true) (hfits : dst.toNat + n ≤ 2 ^ 32)
    (hn : tableSize s.mem gamma ≤ n)
    (hm : ∀ x, In gamma (tableSize s.mem gamma) x → m x = s.mem x) :
    WellFormedTable (copyTable m dst gamma (tableSize s.mem gamma)) dst n := by
  have hsize := twelve_le_tableSize s.mem gamma
  have hsame : SameHeader s.mem m gamma gamma := .of_bytes fun d hd => hm _ (header_in hsize hd)
  have hcopy := copyTable_header m dst gamma hsize
  simp only [validHeader, Bool.and_eq_true, Bool.or_eq_true, beq_iff_eq, decide_eq_true_eq]
    at hvalid
  obtain ⟨⟨⟨-, hchannels⟩, hwidth⟩, hcount⟩ := hvalid
  refine ⟨hfits, ?_, ?_, ?_, ?_⟩
  · rwa [hcopy.channels, hsame.channels]
  · rwa [hcopy.width, hsame.width]
  · rwa [hcopy.count, hcopy.width, hsame.count, hsame.width]
  · rwa [hcopy.tableSize, hsame.tableSize]

/-- The table that is copied is not in the block that is released. -/
theorem Spares.outside {s : State} {gamma : Word} {heap : Heap} {size : Nat} (hinv : Inv s)
    (hspares : Spares s (.setGamma gamma heap)) (hneeded : size ∈ needed s.mem gamma)
    (hgamma : gamma ≠ 0) (hsize : s.csSave.maxGammaTableSize.toNat < size) {x : Word}
    (hx : In gamma size x) : ¬block s x := by
  rcases hinv with ⟨hzero, hmax⟩ | ⟨hne, hwell⟩
  · exact Inv.not_block (.inl ⟨hzero, hmax⟩) hzero x
  · rcases (hspares size hneeded hne).2 hgamma with rfl | hout
    · have hcomplete := hwell.complete
      rw [needed, if_neg hgamma] at hneeded
      split at hneeded
      · rw [Option.mem_some_iff] at hneeded
        omega
      · cases hneeded
    · exact hout x hx

theorem setGamma_inv {s : State} {gamma : Word} {heap : Heap} (hinv : Inv s)
    (hadm : Admissible s (.setGamma gamma heap)) (hspares : Spares s (.setGamma gamma heap)) :
    Inv (setGamma s gamma heap).1 := by
  by_cases hgamma : gamma = 0
  · subst hgamma
    exact setGamma_zero_inv hinv (hadm 268 rfl).fits
  rw [setGamma, if_neg hgamma]
  by_cases hvalid : validHeader s.mem gamma = true
  · have hneeded : tableSize s.mem gamma ∈ needed s.mem gamma := by
      rw [needed, if_neg hgamma, if_pos hvalid]
      rfl
    have hserves := hadm _ hneeded
    rw [if_neg (by simp [hvalid])]
    rcases allocate_cases s.csSave (tableSize s.mem gamma) heap.block with ⟨hsize, h⟩ |
      ⟨hsize, hblock, h⟩ | ⟨hsize, hblock, h⟩
    · simp only [h, Bool.true_eq_false, if_false]
      rcases hinv with ⟨-, hmax⟩ | ⟨hne, hwell⟩
      · have := twelve_le_tableSize s.mem gamma
        rw [hmax, show (0 : Word).toNat = 0 from rfl] at hsize
        omega
      · refine .inr ⟨hne, copyTable_wellFormed hvalid hwell.fits hsize fun x _ => ?_⟩
        rw [heapMem, if_neg (Nat.not_lt.mpr hsize)]
    · simp only [h, if_true]
      rcases hinv with ⟨hzero, hmax⟩ | ⟨hne, -⟩
      · exact .inl ⟨rfl, by rw [if_neg (not_not.mpr hzero)]; exact hmax⟩
      · exact .inl ⟨rfl, if_pos hne⟩
    · simp only [h, Bool.true_eq_false, if_false]
      have hfits := hserves.fits hblock
      have hpos : heap.block.toNat ≠ 0 := fun hzero => hblock (BitVec.eq_of_toNat_eq hzero)
      have hmax := toNat_ofNat_size (show tableSize s.mem gamma < 2 ^ 32 by omega)
      refine .inr ⟨hblock, copyTable_wellFormed hvalid (by rw [hmax]; exact hfits) (by rw [hmax])
        fun x hx => ?_⟩
      rw [heapMem, if_pos hsize]
      exact hserves.keeps x ⟨hgamma, hx, hspares.outside hinv hneeded hgamma hsize hx⟩
  · rw [if_pos (by simpa using hvalid)]
    exact hinv

/-- When an allocation fails that is needed, there is no table to keep. -/
theorem Spares.failed {s : State} {gamma : Word} {heap : Heap} {size : Nat} (hinv : Inv s)
    (hspares : Spares s (.setGamma gamma heap)) (hneeded : size ∈ needed s.mem gamma)
    (hfails : (allocateGammaTable s.csSave size heap.block).2 = false) :
    (allocateGammaTable s.csSave size heap.block).1 = s.csSave ∧ ∀ x, ¬block s x := by
  rcases allocate_cases s.csSave size heap.block with ⟨-, h⟩ | ⟨hsize, hblock, h⟩ | ⟨-, -, h⟩
  · rw [h] at hfails
    cases hfails
  · have hzero : s.csSave.gammaTable = 0 := by
      by_contra hne
      exact (hspares size hneeded hne).1 hsize hblock
    refine ⟨?_, hinv.not_block hzero⟩
    rw [h, if_neg (not_not.mpr hzero), ← hzero]
  · rw [h] at hfails
    cases hfails

/-- An error keeps the table in force when it is spared. -/
theorem setGamma_errorKeeps {s : State} {gamma : Word} {heap : Heap} (hinv : Inv s)
    (hspares : Spares s (.setGamma gamma heap)) : ErrorKeeps s (.setGamma gamma heap) := by
  intro herr
  simp only [step] at herr ⊢
  by_cases hgamma : gamma = 0
  · have hneeded : 268 ∈ needed s.mem gamma := by
      rw [needed, if_pos hgamma]
      rfl
    have hfailed := hspares.failed hinv hneeded
    simp only [setGamma, if_pos hgamma] at herr ⊢
    split
    case isTrue hfalse => exact ⟨(hfailed hfalse).1, fun x hx => absurd hx ((hfailed hfalse).2 x)⟩
    case isFalse hok =>
      rw [if_neg hok] at herr
      exact absurd rfl herr
  · by_cases hvalid : validHeader s.mem gamma = false
    · have hstep : setGamma s gamma heap = (s, paramErr) := by
        simp only [setGamma, if_neg hgamma, if_pos hvalid]
      rw [hstep]
      exact ⟨rfl, fun _ _ => rfl⟩
    · have hneeded : tableSize s.mem gamma ∈ needed s.mem gamma := by
        rw [needed, if_neg hgamma, if_pos (by simpa using hvalid)]
        rfl
      have hfailed := hspares.failed hinv hneeded
      simp only [setGamma, if_neg hgamma, if_neg hvalid] at herr ⊢
      split
      case isTrue hfalse =>
        exact ⟨(hfailed hfalse).1, fun x hx => absurd hx ((hfailed hfalse).2 x)⟩
      case isFalse hok =>
        rw [if_neg hok] at herr
        exact absurd rfl herr

-- ---------------------------------------------------------------------------
-- Lookups
-- ---------------------------------------------------------------------------

theorem toNat_shift_lt {v : Byte} {w : Nat} (hw : w ≤ 8) : (v >>> (8 - w)).toNat < 2 ^ w := by
  have hv := v.isLt
  rw [BitVec.toNat_ushiftRight, Nat.shiftRight_eq_div_pow]
  refine Nat.div_lt_of_lt_mul ?_
  rw [← pow_add, Nat.sub_add_cancel hw]
  exact hv

/-- A lookup in the data of a channel. -/
theorem WellFormedTable.looksUp {s : State}
    (h : WellFormedTable s.mem s.csSave.gammaTable s.csSave.maxGammaTableSize.toNat)
    {channel : Nat} (hchannel : channel < chanCnt s.mem s.csSave.gammaTable) (v : Byte)
    {table : Word} (htable : (table - s.csSave.gammaTable).toNat =
      12 + formulaSize s.mem s.csSave.gammaTable + channel * dataCnt s.mem s.csSave.gammaTable) :
    LooksUp s table channel v := by
  have hentry : (v >>> (8 - dataWidth s.mem s.csSave.gammaTable)).toNat <
      dataCnt s.mem s.csSave.gammaTable := by
    rw [h.count]
    exact toNat_shift_lt h.width
  have hcomplete := h.complete
  have hfits := h.fits
  have hnext : channel * dataCnt s.mem s.csSave.gammaTable + dataCnt s.mem s.csSave.gammaTable ≤
      chanCnt s.mem s.csSave.gammaTable * dataCnt s.mem s.csSave.gammaTable := by
    rw [← Nat.succ_mul]
    exact Nat.mul_le_mul_right _ hchannel
  rw [tableSize] at hcomplete
  have hplace : (table + (v >>> (8 - dataWidth s.mem s.csSave.gammaTable)).setWidth 32 -
      s.csSave.gammaTable).toNat = 12 + formulaSize s.mem s.csSave.gammaTable +
        channel * dataCnt s.mem s.csSave.gammaTable +
          (v >>> (8 - dataWidth s.mem s.csSave.gammaTable)).toNat := by
    have hv := (v >>> (8 - dataWidth s.mem s.csSave.gammaTable)).isLt
    rw [add_sub_right_comm, BitVec.toNat_add, htable, BitVec.toNat_setWidth]
    omega
  exact ⟨hentry, hplace, by rw [block, In, hplace]; omega⟩

theorem Inv.lookupsOk {s : State} (hinv : Inv s) : LookupsOk s := by
  intro hne v
  rcases hinv with ⟨hzero, -⟩ | ⟨-, hwell⟩
  · exact absurd hzero hne
  have hformula : formulaSize s.mem s.csSave.gammaTable < 65536 := (s.mem.readInt16 _).isLt
  have hcount : dataCnt s.mem s.csSave.gammaTable < 65536 := (s.mem.readInt16 _).isLt
  have hdata : gFormulaData.toNat = 12 := rfl
  have hred : (gammaOf s.mem s.csSave.gammaTable).red =
      s.csSave.gammaTable + gFormulaData +
        (s.mem.readInt16 (s.csSave.gammaTable + gFormulaSize)).setWidth 32 := by
    unfold gammaOf
    split <;> rfl
  have hredAt : ((gammaOf s.mem s.csSave.gammaTable).red - s.csSave.gammaTable).toNat =
      12 + formulaSize s.mem s.csSave.gammaTable := by
    rw [hred, add_assoc, add_sub_cancel_left, BitVec.toNat_add, BitVec.toNat_setWidth, hdata,
      ← formulaSize]
    omega
  by_cases hone : chanCnt s.mem s.csSave.gammaTable = 1
  · have hgamma : (gammaOf s.mem s.csSave.gammaTable).green =
        (gammaOf s.mem s.csSave.gammaTable).red ∧ (gammaOf s.mem s.csSave.gammaTable).blue =
          (gammaOf s.mem s.csSave.gammaTable).red := by
      have : s.mem.readInt16 (s.csSave.gammaTable + gChanCnt) = 1 := BitVec.eq_of_toNat_eq hone
      simp only [gammaOf, if_pos this, and_self]
    have hlook : LooksUp s (gammaOf s.mem s.csSave.gammaTable).red 0 v :=
      hwell.looksUp (by omega) v (by rw [hredAt, Nat.zero_mul]; rfl)
    rw [hgamma.1, hgamma.2, if_pos hone, if_pos hone]
    exact ⟨hlook, hlook, hlook⟩
  · have hthree := hwell.channels.resolve_left hone
    have hgreen : (gammaOf s.mem s.csSave.gammaTable).green = (gammaOf s.mem s.csSave.gammaTable).red
        + (s.mem.readInt16 (s.csSave.gammaTable + gDataCnt)).setWidth 32 ∧
        (gammaOf s.mem s.csSave.gammaTable).blue = (gammaOf s.mem s.csSave.gammaTable).green +
          (s.mem.readInt16 (s.csSave.gammaTable + gDataCnt)).setWidth 32 := by
      have : s.mem.readInt16 (s.csSave.gammaTable + gChanCnt) ≠ 1 := fun h => hone (by
        rw [chanCnt, h]
        rfl)
      simp only [gammaOf, if_neg this, and_self]
    have hgreenAt : ((gammaOf s.mem s.csSave.gammaTable).green - s.csSave.gammaTable).toNat =
        12 + formulaSize s.mem s.csSave.gammaTable + 1 * dataCnt s.mem s.csSave.gammaTable := by
      rw [hgreen.1, add_sub_right_comm, BitVec.toNat_add, hredAt, BitVec.toNat_setWidth, ← dataCnt]
      omega
    have hblueAt : ((gammaOf s.mem s.csSave.gammaTable).blue - s.csSave.gammaTable).toNat =
        12 + formulaSize s.mem s.csSave.gammaTable + 2 * dataCnt s.mem s.csSave.gammaTable := by
      rw [hgreen.2, add_sub_right_comm, BitVec.toNat_add, hgreenAt, BitVec.toNat_setWidth,
        ← dataCnt]
      omega
    rw [if_neg hone, if_neg hone]
    exact ⟨hwell.looksUp (by omega) v (by rw [hredAt, Nat.zero_mul]; rfl),
      hwell.looksUp (by omega) v hgreenAt, hwell.looksUp (by omega) v hblueAt⟩

-- ---------------------------------------------------------------------------
-- Runs
-- ---------------------------------------------------------------------------

theorem videoOpen_inv {s : State} {heap : Heap} (h : Admissible s (.videoOpen heap)) :
    Inv (videoOpen s heap) :=
  setGamma_zero_inv (.inl ⟨rfl, rfl⟩) h.fits

theorem step_inv {s : State} {event : Event} (hinv : Inv s) (hadm : Admissible s event)
    (hspares : Spares s event) : Inv (step s event).1 := by
  cases event with
  | videoOpen heap => exact videoOpen_inv hadm
  | setGamma gamma heap => exact setGamma_inv hinv hadm hspares
  | setEntries => exact hinv
  | guest mem =>
    rcases hinv with hzero | ⟨hne, hwell⟩
    · exact .inl hzero
    · refine .inr ⟨hne, hwell.congr (.of_bytes fun d hd => hadm _ ?_) hwell.fits hwell.complete⟩
      have := twelve_le_tableSize s.mem s.csSave.gammaTable
      have := hwell.complete
      exact header_in (by omega) hd

theorem Run.inv {s : State} (h : Run s) : Inv s := by
  induction h with
  | opened s hadm => exact videoOpen_inv hadm
  | step _ hadm hspares ih => exact step_inv ih hadm hspares

theorem step_errorKeeps {s : State} {event : Event} (hinv : Inv s) (hspares : Spares s event) :
    ErrorKeeps s event := by
  cases event with
  | setGamma gamma heap => exact setGamma_errorKeeps hinv hspares
  | videoOpen | setEntries | guest => exact fun h => absurd rfl h

/-- In a run that spares the table in force there is a complete one or none after every call, every
lookup is in it, and errors leave it as it was. -/
theorem run_keeps {s : State} (h : Run s) : TableOk s ∧ LookupsOk s ∧
    ∀ event, Spares s event → ErrorKeeps s event :=
  ⟨h.inv.tableOk, h.inv.lookupsOk, fun _ hspares => step_errorKeeps h.inv hspares⟩

/-- A guest with a table of three channels at 0x10. -/
def guestMemory : Mem := .ofBytes (List.replicate 16 0 ++ [0, 0, 0, 0, 0, 0, 0, 3, 1, 0, 0, 8])

/-- The driver has its ramp at 0x1000. -/
def openedState : State := videoOpen ⟨guestMemory, ⟨0, 0, false⟩⟩ ⟨0x1000, guestMemory⟩

theorem openedState_run : Run openedState :=
  .opened _ ⟨fun _ => by decide, fun _ _ _ h => h, fun _ h => h.elim⟩

theorem openedState_keeps : TableOk openedState ∧ LookupsOk openedState ∧
    ∀ event, Spares openedState event → ErrorKeeps openedState event :=
  run_keeps openedState_run

/-- The larger table does not fit in what is left of the heap, and the ramp is lost. -/
theorem ramp_lost : ∃ s event, Run s ∧ Admissible s event ∧ ¬ErrorKeeps s event := by
  refine ⟨openedState, .setGamma 0x10 ⟨0, openedState.mem⟩, openedState_run, fun size _ => ?_, ?_⟩
  · exact ⟨fun h => absurd rfl h, fun h => absurd rfl h, fun _ _ => rfl⟩
  · intro hkeeps
    have htable := (hkeeps (by decide)).1
    revert htable
    decide

end SheepShear.Video.GammaTable
