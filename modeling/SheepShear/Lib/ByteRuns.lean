import SheepShear.Lib.Bytes

/-!
# Runs of bytes

A memory with a byte at every integer, and how often each byte was written.
What is written one run of bytes after the other, each behind the one before, is
one longer run.
-/

namespace SheepShear.ByteRuns

structure HostMem where
  bytes : Int → Byte
  writes : Int → Nat

/-- The addresses of `n` bytes from `a` on. -/
def In (a : Int) (n : Nat) (x : Int) : Prop := a ≤ x ∧ x < a + n

instance (a : Int) (n : Nat) (x : Int) : Decidable (In a n x) := inferInstanceAs (Decidable (_ ∧ _))

theorem in_self {a : Int} {n : Nat} (hn : 0 < n) : In a n a := ⟨le_refl a, by omega⟩

/-- `n` bytes from `a` on are written, each with a value made from its address and what it was. -/
def HostMem.modify (m : HostMem) (a : Int) (n : Nat) (f : Int → Byte → Byte) : HostMem where
  bytes x := if In a n x then f x (m.bytes x) else m.bytes x
  writes x := if In a n x then m.writes x + 1 else m.writes x

variable {a : Int} {n k : Nat} {f g : Int → Byte → Byte}

@[simp] theorem HostMem.modify_zero (m : HostMem) : m.modify a 0 f = m := by
  have hnot : ∀ x, ¬ In a 0 x := by
    intro x hx
    simp only [In] at hx
    omega
  simp [HostMem.modify, hnot]

theorem HostMem.modify_append (m : HostMem) :
    (m.modify a n f).modify (a + n) k f = m.modify a (n + k) f := by
  have hsplit : ∀ x, In a (n + k) x ↔ In a n x ∨ In (a + n) k x := by
    intro x
    simp only [In]
    omega
  have hdisj : ∀ x, In (a + n) k x → ¬ In a n x := by
    intro x
    simp only [In]
    omega
  simp only [HostMem.modify, HostMem.mk.injEq]
  constructor <;> funext x <;> by_cases hk : In (a + n) k x <;> by_cases hn : In a n x <;>
    simp_all

theorem HostMem.modify_congr (m : HostMem) (h : ∀ x, In a n x → ∀ b, f x b = g x b) :
    m.modify a n f = m.modify a n g := by
  simp only [HostMem.modify, HostMem.mk.injEq, and_true]
  funext x
  split_ifs with hx
  · exact h x hx _
  · rfl

/-- Cells of these sizes, one behind the other. -/
def cells (cell : Nat → Int → HostMem → HostMem) : List Nat → Int → HostMem → HostMem
  | [], _, m => m
  | n :: ns, a, m => cells cell ns (a + n) (cell n a m)

variable {cell : Nat → Int → HostMem → HostMem}

theorem cells_append (ns ks : List Nat) (a : Int) (m : HostMem) :
    cells cell (ns ++ ks) a m = cells cell ks (a + ns.sum) (cells cell ns a m) := by
  induction ns generalizing a m with
  | nil => simp [cells]
  | cons n ns ih =>
    rw [List.cons_append, cells, ih, cells, List.sum_cons, Nat.cast_add, Int.add_assoc]

/-- Cells that write alike are one run. -/
theorem cells_modify {ns : List Nat} {unit : Nat} (hunit : ∀ n ∈ ns, unit ∣ n) {start : Int}
    (hcell : ∀ n ∈ ns, ∀ x m, (unit : Int) ∣ x - start → cell n x m = m.modify x n f)
    (hstart : (unit : Int) ∣ a - start) (m : HostMem) :
    cells cell ns a m = m.modify a ns.sum f := by
  induction ns generalizing a m with
  | nil => simp [cells]
  | cons n ns ih =>
    have hn : (unit : Int) ∣ n := Int.natCast_dvd_natCast.mpr (hunit n List.mem_cons_self)
    have hnext : (unit : Int) ∣ a + n - start := by
      rw [add_sub_right_comm]
      exact dvd_add hstart hn
    rw [cells, hcell n List.mem_cons_self a m hstart,
      ih (fun k hk => hunit k (List.mem_cons_of_mem _ hk))
        (fun k hk => hcell k (List.mem_cons_of_mem _ hk)) hnext,
      HostMem.modify_append, List.sum_cons]

-- ---------------------------------------------------------------------------
-- Rows
-- ---------------------------------------------------------------------------

/-- The same at this many addresses, some bytes apart. -/
def rows (row : Int → HostMem → HostMem) (stride : Int) : (count : Nat) → Int → HostMem → HostMem
  | 0, _, m => m
  | count + 1, a, m => rows row stride count (a + stride) (row a m)

variable {row : Int → HostMem → HostMem} {stride : Int}

/-- Rows that are apart share no byte. -/
theorem eq_of_in_rows {i j width : Nat} {x : Int} (happart : width ≤ stride.natAbs)
    (hi : In (a + i * stride) width x) (hj : In (a + j * stride) width x) : i = j := by
  by_contra hne
  have hdiff : ((i : Int) - j) * stride = a + i * stride - (a + j * stride) := by ring
  have hfar : stride.natAbs ≤ (((i : Int) - j) * stride).natAbs := by
    rw [Int.natAbs_mul]
    exact Nat.le_mul_of_pos_left _ (by omega)
  simp only [In] at hi hj
  omega

theorem rows_succ (count : Nat) (a : Int) (m : HostMem) :
    rows row stride (count + 1) a m = row (a + count * stride) (rows row stride count a m) := by
  induction count generalizing a m with
  | zero => simp [rows]
  | succ count ih =>
    rw [rows, ih, rows]
    congr 1
    push_cast
    ring

/-- How many of the rows have a byte. -/
def hits (span : Int → Nat) (stride : Int) (count : Nat) (a x : Int) : Nat :=
  ((Finset.range count).filter fun i : Nat =>
    In (a + i * stride) (span (a + i * stride)) x).card

variable {span : Int → Nat} {f : Int → Int → Byte → Byte} {count : Nat}

theorem hits_succ (count : Nat) (a x : Int) : hits span stride (count + 1) a x =
    hits span stride count a x +
      if In (a + count * stride) (span (a + count * stride)) x then 1 else 0 := by
  simp only [hits]
  rw [Finset.range_add_one, Finset.filter_insert]
  split_ifs with hx
  · rw [Finset.card_insert_of_notMem (by simp)]
  · rfl

/-- A byte is written once for each row it is in. -/
theorem rows_writes (hrow : ∀ a m, row a m = m.modify a (span a) (f a)) (m : HostMem) (x : Int) :
    (rows row stride count a m).writes x = m.writes x + hits span stride count a x := by
  induction count with
  | zero => simp [rows, hits]
  | succ count ih =>
    rw [rows_succ, hrow, hits_succ]
    simp only [HostMem.modify, ih]
    split_ifs <;> rfl

theorem rows_bytes_iterate {g : Byte → Byte}
    (hrow : ∀ a m, row a m = m.modify a (span a) fun _ b => g b) (m : HostMem) (x : Int) :
    (rows row stride count a m).bytes x = g^[hits span stride count a x] (m.bytes x) := by
  induction count with
  | zero => simp [rows, hits]
  | succ count ih =>
    rw [rows_succ, hrow, hits_succ]
    simp only [HostMem.modify, ih]
    split_ifs
    · rw [Function.iterate_succ_apply']
    · rfl

theorem hits_pos {x : Int} : 0 < hits span stride count a x ↔
    ∃ i < count, In (a + i * stride) (span (a + i * stride)) x := by
  rw [hits, Finset.card_pos]
  constructor
  · rintro ⟨i, hi⟩
    rw [Finset.mem_filter, Finset.mem_range] at hi
    exact ⟨i, hi⟩
  · rintro ⟨i, hi⟩
    exact ⟨i, Finset.mem_filter.mpr ⟨Finset.mem_range.mpr hi.1, hi.2⟩⟩

theorem hits_le_one {x : Int} : hits span stride count a x ≤ 1 ↔ ∀ i < count, ∀ j < count,
    In (a + i * stride) (span (a + i * stride)) x →
      In (a + j * stride) (span (a + j * stride)) x → i = j := by
  rw [hits, Finset.card_le_one]
  simp only [Finset.mem_filter, Finset.mem_range]
  constructor
  · exact fun h i hi j hj hix hjx => h i ⟨hi, hix⟩ j ⟨hj, hjx⟩
  · exact fun h i hi j hj => h i hi.1 j hj.1 hi.2 hj.2

theorem rows_bytes_of_not_in (hrow : ∀ a m, row a m = m.modify a (span a) (f a))
    (m : HostMem) {x : Int}
    (hx : ∀ i < count, ¬ In (a + i * stride) (span (a + i * stride)) x) :
    (rows row stride count a m).bytes x = m.bytes x := by
  induction count with
  | zero => rfl
  | succ count ih =>
    rw [rows_succ, hrow]
    simp only [HostMem.modify]
    rw [if_neg (hx count (Nat.lt_succ_self _))]
    exact ih fun i hi => hx i (hi.trans (Nat.lt_succ_self _))

section
variable {value : Int → Int → Byte}

/-- A byte that is written does not depend on what was there. -/
theorem rows_bytes_const (hrow : ∀ a m, row a m = m.modify a (span a) fun x _ => value a x)
    {i : Nat} (hi : i < count) {x : Int} (hx : In (a + i * stride) (span (a + i * stride)) x)
    (m m' : HostMem) :
    (rows row stride count a m).bytes x = (rows row stride count a m').bytes x := by
  induction count with
  | zero => cases hi
  | succ count ih =>
    simp only [rows_succ, hrow, HostMem.modify]
    split_ifs with hlast
    · rfl
    · have hne : i ≠ count := by
        rintro rfl
        exact hlast hx
      exact ih (by omega)

/-- Where rows that share a byte agree on it, it gets the value of any of them. -/
theorem rows_bytes_of_agree (hrow : ∀ a m, row a m = m.modify a (span a) fun x _ => value a x)
    {x : Int} (hagree : ∀ i < count, ∀ j < count, In (a + i * stride) (span (a + i * stride)) x →
      In (a + j * stride) (span (a + j * stride)) x →
      value (a + i * stride) x = value (a + j * stride) x)
    {i : Nat} (hi : i < count) (hx : In (a + i * stride) (span (a + i * stride)) x) (m : HostMem) :
    (rows row stride count a m).bytes x = value (a + i * stride) x := by
  induction count with
  | zero => cases hi
  | succ count ih =>
    simp only [rows_succ, hrow, HostMem.modify]
    split_ifs with hlast
    · exact hagree count (Nat.lt_succ_self _) i hi hlast hx
    · have hne : i ≠ count := by
        rintro rfl
        exact hlast hx
      refine ih ?_ (by omega)
      intro j hj k hk
      exact hagree j (by omega) k (by omega)

end

-- ---------------------------------------------------------------------------
-- Runs that cover the same bytes
-- ---------------------------------------------------------------------------

/-- Short runs do not cover a run that is longer than all of them together. -/
theorem exists_not_covered {width : Nat} (start : Nat → Int) (h : count * width < n) :
    ∃ x, In a n x ∧ ∀ i < count, ¬ In (start i) width x := by
  by_contra hcon
  push Not at hcon
  have hsub : Finset.Ico a (a + n) ⊆
      (Finset.range count).biUnion fun i => Finset.Ico (start i) (start i + width) := by
    intro x hx
    obtain ⟨i, hi, hin⟩ := hcon x (Finset.mem_Ico.mp hx)
    exact Finset.mem_biUnion.mpr ⟨i, Finset.mem_range.mpr hi, Finset.mem_Ico.mpr hin⟩
  have hcard := (Finset.card_le_card hsub).trans Finset.card_biUnion_le
  simp only [Int.card_Ico, add_sub_cancel_left, Int.toNat_natCast, Finset.sum_const,
    Finset.card_range, smul_eq_mul] at hcard
  omega

/-- One of the rows has the highest address. -/
theorem exists_last_row (a stride : Int) (hcount : 0 < count) :
    ∃ t < count, ∀ i < count, a + (i : Int) * stride ≤ a + t * stride := by
  rcases le_total 0 stride with hup | hdown
  · refine ⟨count - 1, by omega, fun i hi => ?_⟩
    have := mul_le_mul_of_nonneg_right (by omega : (i : Int) ≤ (count - 1 : Nat)) hup
    omega
  · refine ⟨0, hcount, fun i hi => ?_⟩
    have := mul_nonpos_of_nonneg_of_nonpos (Int.natCast_nonneg i) hdown
    simpa using this

/-- Runs that cover what rows of one width cover have that width, when those that do not are shorter,
all of them, or longer than all rows together. -/
theorem span_eq_of_covered {width : Nat}
    (hcover : ∀ x, (∃ i < count, In (a + i * stride) (span (a + i * stride)) x) ↔
      ∃ i < count, In (a + i * stride) width x)
    (hspan : ∀ b, span b ≤ width ∨ count * width < span b)
    (hsame : ∀ b c, span b = width → span c = width ∨ count * width < span c) :
    ∀ i < count, span (a + i * stride) = width := by
  have hle : ∀ i < count, span (a + i * stride) ≤ width := by
    intro i hi
    refine (hspan _).resolve_right fun hlong => ?_
    obtain ⟨x, hx, hout⟩ := exists_not_covered (a := a + i * stride) (fun j => a + j * stride) hlong
    obtain ⟨j, hj, hin⟩ := (hcover x).mp ⟨i, hi, hx⟩
    exact hout j hj hin
  intro i hi
  obtain ⟨t, ht, htop⟩ := exists_last_row a stride (Nat.zero_lt_of_lt hi)
  have hlast : span (a + t * stride) = width := by
    rcases Nat.eq_zero_or_pos width with rfl | hwidth
    · exact Nat.le_zero.mp (hle t ht)
    · -- The last byte of the highest row is in a run that starts where that row does.
      obtain ⟨j, hj, hin⟩ := (hcover (a + t * stride + width - 1)).mpr
        ⟨t, ht, by simp only [In]; omega⟩
      have hjt := htop j hj
      have hjle := hle j hj
      simp only [In] at hin
      have heq : a + (j : Int) * stride = a + t * stride := by omega
      rw [heq] at hin hjle
      omega
  have hlong : ¬ count * width < span (a + i * stride) := by
    have := hle i hi
    have := Nat.mul_le_mul_right width (Nat.one_le_of_lt hi)
    omega
  exact (hsame _ _ hlast).resolve_right hlong

end SheepShear.ByteRuns
