import SheepShear.Lib.ByteRuns

/-!
# Copies, one row after the other

Row `k` is `n` bytes that are copied from `src k` to `dst k` at once, after the
rows before it. In the end each byte is one of those that were there at first.
-/

namespace SheepShear.ByteRuns

/-- `n` bytes are copied at once; the two runs may overlap. -/
def HostMem.copy (m : HostMem) (dst src : Int) (n : Nat) : HostMem :=
  m.modify dst n fun x _ => m.bytes (x - dst + src)

section
variable (dst src : Nat → Int) (n : Nat)

def copied : (count : Nat) → HostMem → HostMem
  | 0, m => m
  | k + 1, m => (copied k m).copy (dst k) (src k) n

/-- Where a byte was at first. -/
def origin : (count : Nat) → Int → Int
  | 0, x => x
  | k + 1, x => if In (dst k) n x then origin k (x - dst k + src k) else origin k x

/-- All rows of this width were copied at once, and nothing else changed. -/
def CopiedAtOnce (count width : Nat) : Prop :=
  (∀ k < count, ∀ x, In (dst k) width x → origin dst src n count x = x - dst k + src k) ∧
    ∀ x, (∀ k < count, ¬ In (dst k) width x) → origin dst src n count x = x

end

variable {dst src : Nat → Int} {n count width : Nat} {x : Int}

theorem copied_bytes (m : HostMem) :
    (copied dst src n count m).bytes x = m.bytes (origin dst src n count x) := by
  induction count generalizing x with
  | zero => rfl
  | succ k ih =>
    simp only [copied, HostMem.copy, HostMem.modify, origin]
    split_ifs
    · exact ih
    · exact ih

theorem copied_bytes_iff {y : Int} :
    (∀ m : HostMem, (copied dst src n count m).bytes x = m.bytes y) ↔
      origin dst src n count x = y := by
  constructor
  · intro h
    by_contra hne
    have hbyte := h ⟨fun a => if a = y then 1 else 0, fun _ => 0⟩
    rw [copied_bytes] at hbyte
    simp [hne] at hbyte
  · rintro rfl m
    exact copied_bytes m

theorem origin_of_not_in (h : ∀ k < count, ¬ In (dst k) n x) : origin dst src n count x = x := by
  induction count with
  | zero => rfl
  | succ k ih =>
    rw [origin, if_neg (h k (Nat.lt_succ_self k))]
    exact ih fun l hl => h l (hl.trans (Nat.lt_succ_self k))

/-- A byte comes from where the last row that it is in took it. -/
theorem origin_last {k : Nat} (hk : k < count) (hx : In (dst k) n x)
    (hlater : ∀ l < count, k < l → ¬ In (dst l) n x) :
    origin dst src n count x = origin dst src n k (x - dst k + src k) := by
  induction count with
  | zero => cases hk
  | succ j ih =>
    rcases eq_or_ne k j with rfl | hne
    · rw [origin, if_pos hx]
    · rw [origin, if_neg (hlater j (Nat.lt_succ_self j) (by omega))]
      exact ih (by omega) fun l hl => hlater l (hl.trans (Nat.lt_succ_self j))

theorem exists_last {P : Nat → Prop} (h : ∃ k < count, P k) :
    ∃ k < count, P k ∧ ∀ l < count, k < l → ¬ P l := by
  classical
  obtain ⟨k, hk, hP⟩ := h
  obtain ⟨t, ht, hmax⟩ := ((Finset.range count).filter P).exists_max_image id
    ⟨k, Finset.mem_filter.mpr ⟨Finset.mem_range.mpr hk, hP⟩⟩
  obtain ⟨htc, htP⟩ := Finset.mem_filter.mp ht
  refine ⟨t, Finset.mem_range.mp htc, htP, fun l hl htl hPl => ?_⟩
  exact absurd (hmax l (Finset.mem_filter.mpr ⟨Finset.mem_range.mpr hl, hPl⟩)) (Nat.not_le.mpr htl)

theorem origin_self (h : ∀ k < count, dst k = src k) : origin dst src n count x = x := by
  induction count with
  | zero => rfl
  | succ k ih =>
    have hk := h k (Nat.lt_succ_self k)
    have ih := ih fun l hl => h l (hl.trans (Nat.lt_succ_self k))
    rw [origin, hk, sub_add_cancel, ih, ite_self]

/-- A byte that no row reads is nowhere but in its place. -/
theorem origin_of_not_read {r : Int} (h : ∀ k < count, ¬ In (src k) n r) {z : Int}
    (hz : origin dst src n count z = r) : z = r := by
  induction count generalizing z with
  | zero => exact hz
  | succ k ih =>
    have ih := fun {z} => ih (z := z) fun l hl => h l (hl.trans (Nat.lt_succ_self k))
    rw [origin] at hz
    split_ifs at hz with hin
    · have hread := ih hz
      refine absurd ?_ (h k (Nat.lt_succ_self k))
      simp only [In] at hin ⊢
      omega
    · exact ih hz

/-- Where all rows are moved alike, bytes are moved so once or several times. -/
theorem origin_shift {δ : Int} (h : ∀ k < count, dst k - src k = δ) (x : Int) :
    ∃ c : Nat, origin dst src n count x = x - c * δ ∧
      ((∃ k < count, In (dst k) n x) → 0 < c) := by
  induction count generalizing x with
  | zero => exact ⟨0, by simp [origin], by simp⟩
  | succ k ih =>
    have hk := h k (Nat.lt_succ_self k)
    have ih := ih fun l hl => h l (hl.trans (Nat.lt_succ_self k))
    rw [origin]
    split_ifs with hin
    · obtain ⟨c, hc, -⟩ := ih (x - dst k + src k)
      refine ⟨c + 1, ?_, fun _ => Nat.succ_pos c⟩
      rw [hc, Nat.cast_succ, add_mul, one_mul, ← hk]
      ring
    · obtain ⟨c, hc, hpos⟩ := ih x
      refine ⟨c, hc, ?_⟩
      rintro ⟨l, hl, hx⟩
      rcases Nat.lt_succ_iff_lt_or_eq.mp hl with hlt | rfl
      · exact hpos ⟨l, hlt, hx⟩
      · exact absurd hx hin

-- ---------------------------------------------------------------------------
-- Copies at once
-- ---------------------------------------------------------------------------

/-- Rows that share a byte take it from one place. -/
def TakeAlike (dst src : Nat → Int) (count width : Nat) : Prop :=
  ∀ k < count, ∀ l < count, ∀ x, In (dst k) width x → In (dst l) width x →
    dst k - src k = dst l - src l

/-- What a row takes from a row that was copied before it is copied over again. -/
def NothingStale (dst src : Nat → Int) (count width : Nat) : Prop :=
  ∀ k < count, ∀ j < k, ∀ x, In (dst k) width x → In (dst j) width (x - dst k + src k) →
    ∃ l < count, k < l ∧ In (dst l) width x

theorem copiedAtOnce_of (hlike : TakeAlike dst src count width)
    (hstale : NothingStale dst src count width) : CopiedAtOnce dst src width count width := by
  refine ⟨fun i hi x hx => ?_, fun x hx => origin_of_not_in hx⟩
  obtain ⟨k, hk, hkx, hlater⟩ := exists_last (P := fun k => In (dst k) width x) ⟨i, hi, hx⟩
  rw [origin_last hk hkx hlater, origin_of_not_in]
  · have := hlike k hk i hi x hkx hx
    omega
  · intro j hj hin
    obtain ⟨l, hl, hkl, hlx⟩ := hstale k hk j hj x hkx hin
    exact hlater l hl hkl hlx

/-- Either all rows are moved alike, to another place, or no row is read after it was copied to. -/
theorem CopiedAtOnce.conditions (h : CopiedAtOnce dst src width count width)
    (hrows : (∃ δ ≠ 0, ∀ k < count, dst k - src k = δ) ∨
      ∀ k < count, ∀ j < count, ∀ x, ¬ (In (dst j) width x ∧ In (src k) width x)) :
    TakeAlike dst src count width ∧ NothingStale dst src count width := by
  constructor
  · intro k hk l hl x hkx hlx
    have hsame := (h.1 k hk x hkx).symm.trans (h.1 l hl x hlx)
    omega
  · intro k hk j hj x hkx hjx
    rcases hrows with ⟨δ, hδ, hrows⟩ | hapart
    · by_contra hlast
      push Not at hlast
      have horigin := h.1 k hk x hkx
      rw [origin_last hk hkx hlast] at horigin
      obtain ⟨c, hc, hpos⟩ := origin_shift (n := width)
        (fun l hl => hrows l (hl.trans hk)) (x - dst k + src k)
      have hcpos := hpos ⟨j, hj, hjx⟩
      rw [hc] at horigin
      have hzero : (c : Int) * δ = 0 := by omega
      rcases mul_eq_zero.mp hzero with hc0 | hδ0
      · omega
      · exact hδ hδ0
    · refine absurd ⟨hjx, ?_⟩ (hapart k hk j (hj.trans hk) (x - dst k + src k))
      simp only [In] at hkx ⊢
      omega

/-- Copies of another length are not those that are wanted: the last byte of the highest row is
wrong, or the byte behind it that is written too. -/
theorem not_copiedAtOnce_of_ne {t : Nat} (ht : t < count) (hwidth : 0 < width) (hn : n ≠ width)
    (hmax : ∀ k < count, dst k ≤ dst t) (hlast : ∀ k < count, t < k → dst k < dst t)
    (hsrc : ∀ k < t, src k ≤ src t) (hmoved : dst t ≠ src t) :
    ¬ CopiedAtOnce dst src n count width := by
  rintro ⟨hin, hout⟩
  rcases Nat.lt_or_gt_of_ne hn with hshort | hlong
  · have hx : In (dst t) width (dst t + width - 1) := by
      simp only [In]
      omega
    have hkept : origin dst src n count (dst t + width - 1) = dst t + width - 1 := by
      refine origin_of_not_in fun k hk hk' => ?_
      have := hmax k hk
      simp only [In] at hk'
      omega
    have := hin t ht _ hx
    omega
  · have hkept := hout (dst t + n - 1) fun k hk hk' => by
      have := hmax k hk
      simp only [In] at hk'
      omega
    have hwritten : In (dst t) n (dst t + n - 1) := by
      simp only [In]
      omega
    rw [origin_last ht hwritten fun l hl htl hl' => by
      have := hlast l hl htl
      simp only [In] at hl'
      omega] at hkept
    rcases lt_or_gt_of_ne hmoved with hdown | hup
    · rw [origin_of_not_in] at hkept
      · omega
      · intro k hk hk'
        have := hmax k (hk.trans ht)
        simp only [In] at hk'
        omega
    · have := origin_of_not_read (fun k hk hk' => by
        have := hsrc k hk
        simp only [In] at hk'
        omega) hkept
      omega

end SheepShear.ByteRuns
