import SheepShear.Lib.Memory

/-!
# Reading the table of contents

The Control call `ReadTOC` with action 3: the entries of the tracks from a given
one on are stored in a buffer of the guest, four bytes each. The table holds a
hundred entries of eight bytes behind a header of four, and nothing of it is
checked. A read behind the table has no result.
-/

namespace SheepShear.Cd

/-- The bytes of memory from `info->toc` on, of which the first 804 are the table. -/
abbrev Toc := Nat → Byte

def tocSize : Nat := 804

/-- A byte that is stored, and where. -/
abbrev Store := Word × Byte

def csParam : Word := 28

def bin2bcd (n : Byte) : Byte :=
  if n.toNat < 100 then .ofNat 8 (n.toNat / 10 * 16 + n.toNat % 10) else 0xff

def bcd2bin (n : Byte) : Byte :=
  if n.toNat / 16 < 10 ∧ n.toNat % 16 < 10 then .ofNat 8 (n.toNat / 16 * 10 + n.toNat % 16)
  else 0xff

/-- The first entry with this track number, if there is one. -/
def searchTrack (toc : Toc) (track : Byte) : Option Nat :=
  ((List.range 100).map fun j => 4 + 8 * j).find? fun i => toc (i + 2) = track

/-- The loop that fills the buffer. The size is counted down in 16 bits. -/
def fillTocBuffer (toc : Toc) : (fuel : Nat) → (i : Nat) → (buf : Word) → (bufSize : BitVec 16) →
    Option (List Store)
  | 0, _, _, _ => none
  | fuel + 1, i, buf, bufSize =>
    if bufSize = 0 then some []
    else if i + 7 < tocSize then
      let out := [(buf, toc (i + 1) &&& 0x0f), (buf + 1, bin2bcd (toc (i + 5))),
        (buf + 2, bin2bcd (toc (i + 6))), (buf + 3, bin2bcd (toc (i + 7)))]
      if toc (i + 2) = 0xaa then some out
      else (fillTocBuffer toc fuel (i + 8) (buf + 4) (bufSize - 4)).map (out ++ ·)
    else none

/-- The fields of the parameter block that the call reads. -/
def tocBuf (m : Mem) (pb : Word) : Word := m.readInt32 (pb + csParam + 2)
def tocBufSize (m : Mem) (pb : Word) : BitVec 16 := m.readInt16 (pb + csParam + 6)
def tocTrack (m : Mem) (pb : Word) : Byte := bcd2bin (m (pb + csParam + 8))

/-- What action 3 stores, in order. -/
def readTocTracks (toc : Toc) (m : Mem) (pb : Word) : Option (List Store) :=
  match searchTrack toc (tocTrack m pb) with
  | none => some []
  | some i => fillTocBuffer toc 101 i (tocBuf m pb) (tocBufSize m pb)

-- ---------------------------------------------------------------------------
-- What is asked of the call
-- ---------------------------------------------------------------------------

/-- The four bytes for an entry. -/
def entryBytes (toc : Toc) (i : Nat) : List Byte :=
  [toc (i + 1) &&& 0x0f, bin2bcd (toc (i + 5)), bin2bcd (toc (i + 6)), bin2bcd (toc (i + 7))]

def IsLeadOut (toc : Toc) (i : Nat) : Prop := toc (i + 2) = 0xaa

instance (toc : Toc) (i : Nat) : Decidable (IsLeadOut toc i) := inferInstanceAs (Decidable (_ = _))

/-- The elements up to and including the first that satisfies `P`. -/
def throughFirst (P : Nat → Bool) : List Nat → List Nat
  | [] => []
  | x :: xs => if P x then [x] else x :: throughFirst P xs

/-- The entries of the table from `i` on. -/
def entriesFrom (i : Nat) : List Nat := (List.range ((tocSize - i) / 8)).map fun k => i + 8 * k

/-- The entries from the start track up to and including the lead-out. -/
def tracksFrom (toc : Toc) (track : Byte) : List Nat :=
  match searchTrack toc track with
  | none => []
  | some i => throughFirst (IsLeadOut toc ·) (entriesFrom i)

/-- Bytes that are stored one after the other. -/
def storesAt (buf : Word) (bytes : List Byte) : List Store :=
  bytes.zipIdx.map fun p => (buf + .ofNat 32 p.2, p.1)

/-- The call ends without a read behind the table, and stores the entries that fit. -/
def TocRead (toc : Toc) (m : Mem) (pb : Word) : Prop :=
  ∃ out tracks, readTocTracks toc m pb = some out ∧
    tracks <+: tracksFrom toc (tocTrack m pb) ∧
    out = storesAt (tocBuf m pb) (tracks.flatMap (entryBytes toc)) ∧
    out.length ≤ (tocBufSize m pb).toNat ∧
    (tracks = tracksFrom toc (tocTrack m pb) ∨ (tocBufSize m pb).toNat < out.length + 4)

/-- The buffer ends where an entry of the table does, or all entries fit and the lead-out is one of
them. -/
def TocFits (toc : Toc) (m : Mem) (pb : Word) : Prop :=
  let tracks := tracksFrom toc (tocTrack m pb)
  searchTrack toc (tocTrack m pb) = none ∨
    (4 ∣ (tocBufSize m pb).toNat ∧ (tocBufSize m pb).toNat / 4 ≤ tracks.length) ∨
    ((∃ i ∈ tracks, IsLeadOut toc i) ∧ 4 * tracks.length ≤ (tocBufSize m pb).toNat)

instance (toc : Toc) (m : Mem) (pb : Word) : Decidable (TocFits toc m pb) := by
  unfold TocFits
  infer_instance

-- ---------------------------------------------------------------------------
-- The entries that the loop stores
-- ---------------------------------------------------------------------------

variable {P : Nat → Bool} {xs : List Nat} {s : BitVec 16}

/-- The loop on the entries. -/
def stored (P : Nat → Bool) : List Nat → BitVec 16 → Option (List Nat)
  | [], s => if s = 0 then some [] else none
  | x :: xs, s =>
    if s = 0 then some []
    else if P x then some [x]
    else (stored P xs (s - 4)).map (x :: ·)

theorem throughFirst_of_none (h : ∀ x ∈ xs, P x = false) : throughFirst P xs = xs := by
  induction xs with
  | nil => rfl
  | cons x xs ih =>
    rw [throughFirst, h x (List.mem_cons_self ..), if_neg Bool.false_ne_true,
      ih fun y hy => h y (List.mem_cons_of_mem x hy)]

theorem toNat_sub_four (s : BitVec 16) :
    (s - 4).toNat = if 4 ≤ s.toNat then s.toNat - 4 else s.toNat + 65532 := by
  have hlt := s.isLt
  rw [BitVec.toNat_sub]
  change (2 ^ 16 - 4 + s.toNat) % 2 ^ 16 = _
  split <;> omega

theorem toNat_pos (h : s ≠ 0) : 0 < s.toNat := by
  by_contra hzero
  exact h (BitVec.eq_of_toNat_eq (Nat.le_zero.mp (not_lt.mp hzero)))

/-- The size comes to zero at an entry. -/
theorem stored_of_dvd (hdvd : 4 ∣ s.toNat) (hle : s.toNat / 4 ≤ (throughFirst P xs).length) :
    stored P xs s = some ((throughFirst P xs).take (s.toNat / 4)) := by
  induction xs generalizing s with
  | nil =>
    have hs : s = 0 := by
      by_contra hne
      have hpos := toNat_pos hne
      simp only [throughFirst, List.length_nil] at hle
      omega
    simp [stored, hs, throughFirst]
  | cons x xs ih =>
    by_cases hs : s = 0
    · simp [stored, hs]
    · have hpos := toNat_pos hs
      have hsub := toNat_sub_four s
      rw [if_pos (by omega)] at hsub
      obtain ⟨q, hq⟩ : ∃ q, s.toNat / 4 = q + 1 := ⟨s.toNat / 4 - 1, by omega⟩
      rw [stored, if_neg hs, hq]
      cases hx : P x with
      | true => simp [throughFirst, hx]
      | false =>
        simp only [throughFirst, hx, Bool.false_eq_true, if_false, List.length_cons] at hle ⊢
        have hquot : (s - 4).toNat / 4 = q := by omega
        rw [ih (by omega) (by omega), hquot]
        rfl

/-- The size misses zero. -/
theorem stored_of_miss (hmiss : ¬ (4 ∣ s.toNat ∧ s.toNat / 4 ≤ (throughFirst P xs).length)) :
    stored P xs s = if ∃ x ∈ xs, P x = true then some (throughFirst P xs) else none := by
  induction xs generalizing s with
  | nil =>
    have hs : s ≠ 0 := by
      rintro rfl
      simp at hmiss
    rw [stored, if_neg hs, if_neg (by simp)]
  | cons x xs ih =>
    have hs : s ≠ 0 := by
      rintro rfl
      simp at hmiss
    have hpos := toNat_pos hs
    have hsub := toNat_sub_four s
    rw [stored, if_neg hs]
    cases hx : P x with
    | true => simp [throughFirst, hx]
    | false =>
      have hmem : (∃ y ∈ x :: xs, P y = true) ↔ ∃ y ∈ xs, P y = true := by simp [hx]
      simp only [throughFirst, hx, Bool.false_eq_true, if_false, List.length_cons, hmem] at hmiss ⊢
      rw [ih (by split_ifs at hsub <;> omega)]
      split <;> rfl

theorem length_storesAt (buf : Word) (bytes : List Byte) :
    (storesAt buf bytes).length = bytes.length := by
  simp [storesAt]

theorem length_entries (toc : Toc) (tracks : List Nat) :
    (tracks.flatMap (entryBytes toc)).length = 4 * tracks.length := by
  induction tracks with
  | nil => rfl
  | cons i tracks ih =>
    rw [List.flatMap_cons, List.length_append, ih, List.length_cons]
    simp only [entryBytes, List.length_cons, List.length_nil]
    ring

/-- Stores behind four bytes. -/
theorem storesAt_entry (toc : Toc) (i : Nat) (buf : Word) (bytes : List Byte) :
    storesAt buf (entryBytes toc i ++ bytes) =
      storesAt buf (entryBytes toc i) ++ storesAt (buf + 4) bytes := by
  unfold storesAt
  rw [List.zipIdx_append, List.map_append]
  congr 1
  simp only [entryBytes, List.length_cons, List.length_nil]
  rw [Nat.add_comm, List.zipIdx_eq_map_add, List.map_map]
  refine List.map_congr_left fun p _ => ?_
  simp only [Function.comp_apply, Prod.mk.injEq, and_true]
  rw [BitVec.add_assoc, ← BitVec.ofNat_add_ofNat]
  rfl

theorem entriesFrom_succ {i : Nat} (h : i + 7 < tocSize) :
    entriesFrom i = i :: entriesFrom (i + 8) := by
  have hcount : (tocSize - i) / 8 = (tocSize - (i + 8)) / 8 + 1 := by
    unfold tocSize at h ⊢
    omega
  unfold entriesFrom
  rw [hcount, List.range_succ_eq_map, List.map_cons, List.map_map]
  refine List.cons_eq_cons.mpr ⟨rfl, List.map_congr_left fun k _ => ?_⟩
  simp only [Function.comp_apply]
  omega

theorem fillTocBuffer_eq (toc : Toc) (fuel : Nat) {i : Nat} (buf : Word) (s : BitVec 16) (hi : i ≤ tocSize)
    (hfuel : tocSize < i + 8 * fuel) :
    fillTocBuffer toc fuel i buf s = (stored (IsLeadOut toc ·) (entriesFrom i) s).map fun tracks =>
      storesAt buf (tracks.flatMap (entryBytes toc)) := by
  induction fuel generalizing i buf s with
  | zero => omega
  | succ fuel ih =>
    rw [fillTocBuffer]
    by_cases hs : s = 0
    · rw [if_pos hs, hs]
      cases entriesFrom i <;> rfl
    · rw [if_neg hs]
      by_cases hin : i + 7 < tocSize
      · rw [if_pos hin, entriesFrom_succ hin, stored, if_neg hs]
        have hout : [(buf, toc (i + 1) &&& 0x0f), (buf + 1, bin2bcd (toc (i + 5))),
            (buf + 2, bin2bcd (toc (i + 6))), (buf + 3, bin2bcd (toc (i + 7)))] =
            storesAt buf (entryBytes toc i) := by
          simp [storesAt, entryBytes]
        simp only [hout, decide_eq_true_eq]
        by_cases hlead : IsLeadOut toc i
        · have htoc : toc (i + 2) = 0xaa := hlead
          rw [if_pos htoc, if_pos hlead]
          simp
        · have htoc : ¬ toc (i + 2) = 0xaa := hlead
          rw [if_neg htoc, if_neg hlead, ih (buf + 4) (s - 4) (by omega) (by omega), Option.map_map,
            Option.map_map]
          congr 1
          funext tracks
          simp only [Function.comp_apply, List.flatMap_cons, storesAt_entry]
      · have hnil : entriesFrom i = [] := by
          have hcount : (tocSize - i) / 8 = 0 := by omega
          rw [entriesFrom, hcount]
          rfl
        rw [if_neg hin, hnil, stored, if_neg hs]
        rfl

theorem searchTrack_spec {toc : Toc} {track : Byte} {i : Nat} (h : searchTrack toc track = some i) :
    ∃ j < 100, i = 4 + 8 * j := by
  have hmem := List.mem_of_find?_eq_some h
  obtain ⟨j, hj, rfl⟩ := List.mem_map.mp hmem
  exact ⟨j, List.mem_range.mp hj, rfl⟩

theorem throughFirst_subset (P : Nat → Bool) (xs : List Nat) : throughFirst P xs ⊆ xs := by
  induction xs with
  | nil => exact List.Subset.refl _
  | cons x xs ih =>
    rw [throughFirst]
    split
    · simp
    · exact List.cons_subset_cons x ih

/-- A lead-out among the entries is reached. -/
theorem exists_throughFirst (P : Nat → Bool) (xs : List Nat) :
    (∃ x ∈ throughFirst P xs, P x = true) ↔ ∃ x ∈ xs, P x = true := by
  constructor
  · rintro ⟨x, hx, hPx⟩
    exact ⟨x, throughFirst_subset P xs hx, hPx⟩
  · intro hex
    induction xs with
    | nil => simp at hex
    | cons y ys ih =>
      rw [throughFirst]
      cases hy : P y with
      | true => exact ⟨y, by simp, hy⟩
      | false =>
        obtain ⟨x, hx, hPx⟩ := hex
        rcases List.mem_cons.mp hx with rfl | hx
        · rw [hy] at hPx
          cases hPx
        · obtain ⟨z, hz, hPz⟩ := ih ⟨x, hx, hPx⟩
          exact ⟨z, by simp [hz], hPz⟩

/-- The call keeps to the table and to the buffer exactly if the buffer ends with an entry, or
holds all of them and one is the lead-out. -/
theorem readToc_iff (toc : Toc) (m : Mem) (pb : Word) : TocRead toc m pb ↔ TocFits toc m pb := by
  unfold TocRead TocFits readTocTracks tracksFrom
  cases hsearch : searchTrack toc (tocTrack m pb) with
  | none =>
    refine iff_of_true ⟨[], [], rfl, List.prefix_refl _, rfl, Nat.zero_le _, .inl rfl⟩ (.inl rfl)
  | some i =>
    obtain ⟨j, hj, rfl⟩ := searchTrack_spec hsearch
    have hrun := fillTocBuffer_eq toc 101 (tocBuf m pb) (tocBufSize m pb)
      (show 4 + 8 * j ≤ tocSize by unfold tocSize; omega) (by unfold tocSize; omega)
    dsimp only
    rw [hrun]
    generalize tocBufSize m pb = s
    generalize tocBuf m pb = buf
    generalize hxs : entriesFrom (4 + 8 * j) = xs
    generalize hP : (fun i => decide (IsLeadOut toc i)) = P
    have hlead : ∀ i, IsLeadOut toc i ↔ P i = true := fun i => by rw [← hP, decide_eq_true_eq]
    simp only [hlead, exists_throughFirst, reduceCtorEq, false_or]
    by_cases hhit : 4 ∣ s.toNat ∧ s.toNat / 4 ≤ (throughFirst P xs).length
    · refine iff_of_true ?_ (.inl hhit)
      obtain ⟨hdvd, hle⟩ := hhit
      have hlength : (storesAt buf (((throughFirst P xs).take (s.toNat / 4)).flatMap
          (entryBytes toc))).length = s.toNat := by
        rw [length_storesAt, length_entries, List.length_take, Nat.min_eq_left hle]
        omega
      rw [stored_of_dvd hdvd hle]
      refine ⟨_, _, rfl, List.take_prefix _ _, rfl, le_of_eq hlength, .inr ?_⟩
      rw [hlength]
      omega
    · rw [stored_of_miss hhit]
      by_cases hex : ∃ x ∈ xs, P x = true
      · rw [if_pos hex]
        constructor
        · rintro ⟨out, tracks, hout, -, -, hle, -⟩
          obtain rfl := Option.some.inj hout
          rw [length_storesAt, length_entries] at hle
          exact .inr ⟨hex, hle⟩
        · rintro (hhit' | ⟨-, hle⟩)
          · exact absurd hhit' hhit
          · refine ⟨_, throughFirst P xs, rfl, List.prefix_refl _, rfl, ?_, .inl rfl⟩
            rwa [length_storesAt, length_entries]
      · rw [if_neg hex]
        refine iff_of_false ?_ ?_
        · rintro ⟨out, tracks, hout, -⟩
          cases hout
        · rintro (hhit' | ⟨hex', -⟩)
          · exact hhit hhit'
          · exact hex hex'

-- ---------------------------------------------------------------------------
-- A disc with one track
-- ---------------------------------------------------------------------------

/-- Track 1 at 00:02:00 and the lead-out at 10:00:00. -/
def oneTrackToc : Toc := fun i =>
  ([0, 18, 1, 1, 0, 0x14, 1, 0, 0, 0, 2, 0, 0, 0x14, 0xaa, 0, 0, 10, 0, 0] : List Byte).getD i 0

/-- A parameter block at address 0 that asks for track 1 and has a buffer of six bytes. -/
def sixBytes : Mem := fun a => if a = 35 then 6 else if a = 36 then 1 else 0

theorem sixBytes_overrun : ¬ TocRead oneTrackToc sixBytes 0 := by
  rw [readToc_iff]
  decide +kernel

end SheepShear.Cd
