import SheepShear.Scsi.Manager

/-!
# What the scatter/gather table describes

The table after a sequence of ranges, byte for byte. The lengths are 32-bit
words: as long as the ranges ask for less than 2^32 bytes in all, no merged
entry wraps and the table lists exactly the bytes that were asked for.
-/

namespace SheepShear.Scsi

variable {vmBaseDiff : Word}

/-- The host addresses from `p` on. -/
def span (p : HostAddr) (n : Nat) : List HostAddr :=
  (List.range n).map fun i => p + BitVec.ofNat 64 i

def SgEntry.bytes (e : SgEntry) : List HostAddr := span e.ptr e.len.toNat

def Range.bytes (vmBaseDiff : Word) (r : Range) : List HostAddr :=
  span (mac2HostAddr vmBaseDiff r.ptr) r.len.toNat

def SgTable.bytes (t : SgTable) : List HostAddr := t.entries.flatMap SgEntry.bytes

/-- The sum of the `sg_len`. -/
def SgTable.sum (t : SgTable) : Nat := (t.entries.map (·.len.toNat)).sum

/-- The number of bytes the ranges ask for. -/
def asks (rs : List Range) : Nat := (rs.map (·.len.toNat)).sum

/-- The table after these ranges. -/
def SgTable.addAll (vmBaseDiff : Word) (t : SgTable) (rs : List Range) : Option SgTable :=
  rs.foldlM (SgTable.add vmBaseDiff) t

@[simp] theorem length_span (p : HostAddr) (n : Nat) : (span p n).length = n := by
  simp [span]

theorem span_add (p : HostAddr) (m n : Nat) :
    span p (m + n) = span p m ++ span (p + BitVec.ofNat 64 m) n := by
  simp only [span, List.range_add, List.map_append, List.map_map]
  congr 1
  apply List.map_congr_left
  intro i _
  simp only [Function.comp_apply, BitVec.ofNat_add, add_assoc]

theorem SgTable.length_bytes (t : SgTable) : t.bytes.length = t.sum := by
  simp [SgTable.bytes, SgTable.sum, SgEntry.bytes, List.length_flatMap]

theorem length_asked (rs : List Range) :
    (rs.flatMap (Range.bytes vmBaseDiff)).length = asks rs := by
  simp [asks, Range.bytes, List.length_flatMap]

theorem SgEntry.next_eq (e : SgEntry) : e.next = e.ptr + BitVec.ofNat 64 e.len.toNat := by
  rw [SgEntry.next, BitVec.ofNat_toNat]

-- ---------------------------------------------------------------------------
-- One range
-- ---------------------------------------------------------------------------

theorem SgTable.push_cases {t t' : SgTable} {e : SgEntry} (h : t.push e = some t') :
    t.entries.length ≠ sgTableSize ∧ t' = ⟨t.entries ++ [e], t.totalLength + e.len⟩ := by
  unfold SgTable.push at h
  split at h
  · cases h
  · next hfull => exact ⟨hfull, (Option.some.inj h).symm⟩

/-- A range is merged into the last entry or gets an entry of its own. -/
theorem SgTable.add_cases {t t' : SgTable} {r : Range} (h : t.add vmBaseDiff r = some t') :
    (∃ front last, t.entries = front ++ [last] ∧ mac2HostAddr vmBaseDiff r.ptr = last.next ∧
      t' = ⟨front ++ [{ last with len := last.len + r.len }], t.totalLength + r.len⟩) ∨
    (t.entries.length ≠ sgTableSize ∧
      t' = ⟨t.entries ++ [⟨mac2HostAddr vmBaseDiff r.ptr, r.len⟩], t.totalLength + r.len⟩) := by
  unfold SgTable.add at h
  cases hlast : t.entries.getLast? with
  | none =>
    simp only [hlast] at h
    exact .inr (push_cases h)
  | some last =>
    simp only [hlast] at h
    split at h
    · next hptr =>
      have hentries : t.entries = t.entries.dropLast ++ [last] := by
        rw [List.dropLast_append_getLast? last hlast]
      exact .inl ⟨_, last, hentries, hptr, (Option.some.inj h).symm⟩
    · exact .inr (push_cases h)

theorem SgTable.add_totalLength {t t' : SgTable} {r : Range} (h : t.add vmBaseDiff r = some t') :
    t'.totalLength = t.totalLength + r.len := by
  obtain ⟨front, last, _, _, rfl⟩ | ⟨_, rfl⟩ := add_cases h
  · rfl
  · rfl

theorem SgTable.add_length {t t' : SgTable} {r : Range} (h : t.add vmBaseDiff r = some t')
    (ht : t.entries.length ≤ sgTableSize) : t'.entries.length ≤ sgTableSize := by
  obtain ⟨front, last, hentries, _, rfl⟩ | ⟨hfull, rfl⟩ := add_cases h
  · simpa [hentries] using ht
  · simp only [List.length_append, List.length_singleton]
    omega

/-- The bytes of a merged entry, when its length does not wrap. -/
theorem SgEntry.bytes_merge (e : SgEntry) {r : Range}
    (hptr : mac2HostAddr vmBaseDiff r.ptr = e.next) (hlen : e.len.toNat + r.len.toNat < 2 ^ 32) :
    SgEntry.bytes { e with len := e.len + r.len } = e.bytes ++ r.bytes vmBaseDiff := by
  have hsum : (e.len + r.len).toNat = e.len.toNat + r.len.toNat :=
    BitVec.toNat_add_of_lt hlen
  rw [SgEntry.bytes, SgEntry.bytes, Range.bytes, hptr, e.next_eq]
  simp only [hsum, span_add]

theorem SgTable.add_bytes {t t' : SgTable} {r : Range} (h : t.add vmBaseDiff r = some t')
    (hsum : t.sum + r.len.toNat < 2 ^ 32) : t'.bytes = t.bytes ++ r.bytes vmBaseDiff := by
  obtain ⟨front, last, hentries, hptr, rfl⟩ | ⟨_, rfl⟩ := add_cases h
  · have hlast : last.len.toNat ≤ t.sum := by simp [SgTable.sum, hentries]
    simp only [SgTable.bytes, hentries, List.flatMap_append, List.flatMap_singleton,
      last.bytes_merge hptr (by omega), List.append_assoc]
  · simp only [SgTable.bytes, List.flatMap_append, List.flatMap_singleton]
    rfl

-- ---------------------------------------------------------------------------
-- All ranges of a command
-- ---------------------------------------------------------------------------

theorem SgTable.addAll_cons {t t' : SgTable} {r : Range} {rs : List Range} :
    t.addAll vmBaseDiff (r :: rs) = some t' ↔
      ∃ t₁, t.add vmBaseDiff r = some t₁ ∧ t₁.addAll vmBaseDiff rs = some t' := by
  simp only [addAll, List.foldlM_cons, Option.bind_eq_bind, Option.bind_eq_some_iff]

theorem SgTable.addAll_append {t t' : SgTable} {rs rs' : List Range} :
    t.addAll vmBaseDiff (rs ++ rs') = some t' ↔
      ∃ t₁, t.addAll vmBaseDiff rs = some t₁ ∧ t₁.addAll vmBaseDiff rs' = some t' := by
  simp only [addAll, List.foldlM_append, Option.bind_eq_bind, Option.bind_eq_some_iff]

theorem SgTable.addAll_length {t t' : SgTable} {rs : List Range}
    (h : t.addAll vmBaseDiff rs = some t') (ht : t.entries.length ≤ sgTableSize) :
    t'.entries.length ≤ sgTableSize := by
  induction rs generalizing t with
  | nil =>
    cases h
    exact ht
  | cons r rs ih =>
    obtain ⟨t₁, hadd, h⟩ := addAll_cons.mp h
    exact ih h (add_length hadd ht)

theorem asks_cons (r : Range) (rs : List Range) : asks (r :: rs) = r.len.toNat + asks rs := by
  simp [asks]

theorem SgTable.addAll_bytes {t t' : SgTable} {rs : List Range}
    (h : t.addAll vmBaseDiff rs = some t') (hsum : t.sum + asks rs < 2 ^ 32) :
    t'.bytes = t.bytes ++ rs.flatMap (Range.bytes vmBaseDiff) := by
  induction rs generalizing t with
  | nil =>
    cases h
    simp
  | cons r rs ih =>
    obtain ⟨t₁, hadd, h⟩ := addAll_cons.mp h
    rw [asks_cons] at hsum
    have hbytes := add_bytes hadd (by omega)
    have hsum₁ : t₁.sum = t.sum + r.len.toNat := by
      rw [← t₁.length_bytes, hbytes, List.length_append, t.length_bytes, Range.bytes, length_span]
    rw [ih h (by omega), hbytes, List.flatMap_cons, List.append_assoc]

theorem SgTable.addAll_totalLength {t t' : SgTable} {rs : List Range}
    (h : t.addAll vmBaseDiff rs = some t') :
    t'.totalLength = t.totalLength + BitVec.ofNat 32 (asks rs) := by
  induction rs generalizing t with
  | nil =>
    cases h
    simp [asks]
  | cons r rs ih =>
    obtain ⟨t₁, hadd, h⟩ := addAll_cons.mp h
    rw [ih h, add_totalLength hadd, asks_cons, BitVec.ofNat_add, add_assoc,
      BitVec.ofNat_toNat, BitVec.setWidth_eq]

/-- The table lists the bytes the ranges ask for, in order, and their number. -/
structure Describes (vmBaseDiff : Word) (t : SgTable) (rs : List Range) : Prop where
  index : t.entries.length ≤ sgTableSize
  bytes : t.bytes = rs.flatMap (Range.bytes vmBaseDiff)
  total : t.totalLength.toNat = t.sum

/-- Both the merged lengths and the total are right exactly when the ranges ask for less than
2^32 bytes. -/
theorem describes_iff {t : SgTable} {rs : List Range}
    (h : SgTable.empty.addAll vmBaseDiff rs = some t) :
    Describes vmBaseDiff t rs ↔ asks rs < 2 ^ 32 := by
  constructor
  · rintro ⟨-, hbytes, htotal⟩
    calc asks rs = t.sum := by rw [← @length_asked vmBaseDiff, ← hbytes, t.length_bytes]
      _ = t.totalLength.toNat := htotal.symm
      _ < 2 ^ 32 := t.totalLength.isLt
  · intro hasks
    have hbytes : t.bytes = rs.flatMap (Range.bytes vmBaseDiff) :=
      SgTable.addAll_bytes h (by simpa [SgTable.sum, SgTable.empty] using hasks)
    refine ⟨SgTable.addAll_length h (Nat.zero_le _), hbytes, ?_⟩
    rw [SgTable.addAll_totalLength h, ← t.length_bytes, hbytes, length_asked]
    simp only [SgTable.empty, zero_add, BitVec.toNat_ofNat, Nat.mod_eq_of_lt hasks]

end SheepShear.Scsi
