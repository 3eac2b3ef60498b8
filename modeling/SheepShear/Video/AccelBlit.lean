import SheepShear.Video.AccelRect

/-!
# Rectangles that are copied

Rows are copied one after the other, from the top when the row bytes are
positive and else from the bottom. All pixels are copied at once when the width
in bytes fits 16 bits, the rows from the bottom are those from the top, rows
that share bytes take them from one place, and no row takes a byte from a row
that was copied before it.
-/

namespace SheepShear.Video.Accel

open ByteRuns

-- ---------------------------------------------------------------------------
-- What is wanted
-- ---------------------------------------------------------------------------

def absRowBytes (rowBytes : Word) : Int := rowBytes.toInt.natAbs

section
variable (p : AcclParams) (host : HostConfig) (bpp : Nat)

/-- The upper left corners with the absolute row bytes, and the rows from there on. -/
def AcclParams.srcCorner : Int :=
  host.mac2HostAddr (pixelAddr p.srcBaseAddr p.srcX p.srcY.toInt (absRowBytes p.srcRowBytes) bpp)

def AcclParams.destCorner : Int :=
  host.mac2HostAddr (pixelAddr p.destBaseAddr p.destX p.destY.toInt (absRowBytes p.destRowBytes) bpp)

def AcclParams.srcRow (i : Nat) : Int := p.srcCorner host bpp + i * absRowBytes p.srcRowBytes

def AcclParams.destRow (i : Nat) : Int := p.destCorner host bpp + i * absRowBytes p.destRowBytes

def AcclParams.TopDown : Prop := 0 < p.srcRowBytes.toInt

instance : Decidable p.TopDown := inferInstanceAs (Decidable (_ < _))

/-- The row that is copied after `k` others. -/
def AcclParams.order (k : Nat) : Nat := if p.TopDown then k else p.rowCount - 1 - k

/-- The rows in the order in which they are copied. -/
def AcclParams.destAt (k : Nat) : Int := p.destRow host bpp (p.order k)

def AcclParams.srcAt (k : Nat) : Int := p.srcRow host bpp (p.order k)

/-- Where the pointers of the code are then. -/
def AcclParams.srcPointer (k : Nat) : Int :=
  if p.TopDown then p.srcStart host bpp + k * p.srcRowBytes.toInt
  else p.srcBottom host bpp + k * -(-p.srcRowBytes).toInt

def AcclParams.destPointer (k : Nat) : Int :=
  if p.TopDown then p.destStart host bpp + k * p.destRowBytes.toInt
  else p.destBottom host bpp + k * -(-p.destRowBytes).toInt

/-- The way from the bottom addresses the rows of the way from the top. -/
def AcclParams.SameRows : Prop :=
  ∀ k < p.rowCount, p.srcPointer host bpp k = p.srcAt host bpp k ∧
    p.destPointer host bpp k = p.destAt host bpp k

/-- Every pixel of the destination gets what its source was, and nothing else changes. -/
def BlitGood : Prop :=
  ∃ bpp, bytesPerPixel p.srcPixelSize = some bpp ∧ (¬ p.TopDown → p.SameRows host bpp) ∧
    ∀ m, ∃ m', nqdBitblt host p m = some m' ∧
      (∀ i < p.rowCount, ∀ x, In (p.destRow host bpp i) (p.rowWidth bpp) x →
        m'.bytes x = m.bytes (x - p.destRow host bpp i + p.srcRow host bpp i)) ∧
      ∀ x, (∀ i < p.rowCount, ¬ In (p.destRow host bpp i) (p.rowWidth bpp) x) →
        m'.bytes x = m.bytes x

/-- One bitmap, with the copy in the direction that suits the overlap. -/
def AcclParams.Suited : Prop :=
  p.srcBaseAddr = p.destBaseAddr ∧ p.srcRowBytes = p.destRowBytes ∧
    (0 < p.srcRowBytes.toInt ∧ p.destY.toInt ≤ p.srcY.toInt ∨
      p.srcRowBytes.toInt < 0 ∧ p.srcY.toInt ≤ p.destY.toInt)

/-- The areas do not overlap. -/
def AcclParams.Disjoint : Prop :=
  ∀ i < p.rowCount, ∀ j < p.rowCount, ∀ x,
    ¬ (In (p.destRow host bpp j) (p.rowWidth bpp) x ∧ In (p.srcRow host bpp i) (p.rowWidth bpp) x)

/-- The address of the bottom row is that of the top row and as many rows more, in 32 bits too, and
the row bytes can be negated. -/
def BottomFits (base : Word) (x y height : BitVec 16) (rowBytes : Word) : Prop :=
  (2 ≤ height.toInt → (-rowBytes).toInt = absRowBytes rowBytes) ∧
    ((pixelAddr base x (y.toInt + height.toInt - 1) (-rowBytes).toInt bpp).toNat : Int) =
      (pixelAddr base x y.toInt (absRowBytes rowBytes) bpp).toNat +
        (height.toInt - 1) * absRowBytes rowBytes

/-- Both areas are one, row by row. -/
def AcclParams.SamePlace : Prop :=
  p.destCorner host bpp = p.srcCorner host bpp ∧
    absRowBytes p.destRowBytes = absRowBytes p.srcRowBytes

/-- When the copy is as it should be. -/
def BlitCond : Prop :=
  ∃ bpp, bytesPerPixel p.srcPixelSize = some bpp ∧
    (p.rowCount = 0 ∨
      (p.TopDown ∨ BottomFits bpp p.srcBaseAddr p.srcX p.srcY p.height p.srcRowBytes ∧
        BottomFits bpp p.destBaseAddr p.destX p.destY p.height p.destRowBytes) ∧
      (p.rowWidth bpp = 0 ∨ p.SamePlace host bpp ∨
        p.rowWidth bpp < 2 ^ 15 ∧
          (p.rowCount = 1 ∨ p.rowWidth bpp ≤ absRowBytes p.destRowBytes ∨
            absRowBytes p.destRowBytes = absRowBytes p.srcRowBytes) ∧
          NothingStale (p.destAt host bpp) (p.srcAt host bpp) p.rowCount (p.rowWidth bpp)))

end

-- ---------------------------------------------------------------------------
-- The rows that are copied
-- ---------------------------------------------------------------------------

theorem blitRows_succ {width : Nat} {srcStep dstStep : Int} (count : Nat) (src dst : Int)
    (m : HostMem) :
    blitRows width srcStep dstStep (count + 1) src dst m =
      (blitRows width srcStep dstStep count src dst m).copy (dst + count * dstStep)
        (src + count * srcStep) width := by
  induction count generalizing src dst m with
  | zero => simp [blitRows]
  | succ count ih =>
    rw [blitRows, ih, blitRows]
    congr 1
    · push_cast
      ring
    · push_cast
      ring

theorem blitRows_eq {width : Nat} {srcStep dstStep : Int} (count : Nat) (src dst : Int)
    (m : HostMem) :
    blitRows width srcStep dstStep count src dst m =
      copied (fun k => dst + k * dstStep) (fun k => src + k * srcStep) width count m := by
  induction count with
  | zero => rfl
  | succ count ih => rw [blitRows_succ, ih, copied]

theorem copied_congr {dst src dst' src' : Nat → Int} {n count : Nat}
    (h : ∀ k < count, src k = src' k ∧ dst k = dst' k) (m : HostMem) :
    copied dst src n count m = copied dst' src' n count m := by
  induction count with
  | zero => rfl
  | succ k ih =>
    obtain ⟨hsrc, hdst⟩ := h k (Nat.lt_succ_self k)
    rw [copied, copied, ih fun l hl => h l (hl.trans (Nat.lt_succ_self k)), hsrc, hdst]

section
variable {p : AcclParams} {host : HostConfig} {bpp : Nat}

/-- The length of a copy. -/
def AcclParams.copyLength (p : AcclParams) (bpp : Nat) : Nat :=
  ((p.width * BitVec.ofNat 16 bpp).signExtend 64).toNat

theorem nqdBitblt_eq (hbpp : bytesPerPixel p.srcPixelSize = some bpp) (m : HostMem) :
    nqdBitblt host p m = some (copied (p.destPointer host bpp) (p.srcPointer host bpp)
      (p.copyLength bpp) p.rowCount m) := by
  have hpointers : p.destPointer host bpp = (if p.TopDown then
        fun k : Nat => p.destStart host bpp + k * p.destRowBytes.toInt
      else fun k : Nat => p.destBottom host bpp + k * -(-p.destRowBytes).toInt) ∧
      p.srcPointer host bpp = (if p.TopDown then
        fun k : Nat => p.srcStart host bpp + k * p.srcRowBytes.toInt
      else fun k : Nat => p.srcBottom host bpp + k * -(-p.srcRowBytes).toInt) := by
    constructor <;> split <;> rename_i htop <;> funext k <;>
      simp [AcclParams.destPointer, AcclParams.srcPointer, htop]
  rw [hpointers.1, hpointers.2]
  simp only [nqdBitblt, hbpp, Option.bind_eq_bind, Option.bind_some, blitRows_eq]
  by_cases htop : p.TopDown
  · have hpos : 0 < p.srcRowBytes.toInt := htop
    simp only [if_pos hpos, if_pos htop]
    rfl
  · have hpos : ¬ 0 < p.srcRowBytes.toInt := htop
    simp only [if_neg hpos, if_neg htop]
    rfl

theorem copyLength_eq_iff (hbpp : PixelSize bpp) (hwidth : 0 ≤ p.width.toInt) :
    p.copyLength bpp = p.rowWidth bpp ↔ p.rowWidth bpp < 2 ^ 15 := by
  have hle := rowWidth_le (p := p) hbpp
  rw [AcclParams.copyLength, scaled_toNat (by decide : 16 ≤ 64) hbpp hwidth,
    ← AcclParams.rowWidth]
  split_ifs <;> omega

/-- The row bytes of both areas have one sign. -/
theorem rowBytes_sign (hhook : nqdBitbltHook p) :
    p.srcRowBytes.toInt < 0 ↔ p.destRowBytes.toInt < 0 := by
  have hxor : 0 ≤ (p.srcRowBytes ^^^ p.destRowBytes).toInt := (of_decide_eq_true hhook).2.2.2.2.1
  have hmsb := BitVec.msb_eq_toInt (x := p.srcRowBytes ^^^ p.destRowBytes)
  rw [BitVec.msb_xor, BitVec.msb_eq_toInt, BitVec.msb_eq_toInt,
    decide_eq_false (Int.not_lt.mpr hxor)] at hmsb
  simpa using hmsb.symm

theorem order_lt {k : Nat} (hk : k < p.rowCount) : p.order k < p.rowCount := by
  unfold AcclParams.order
  split_ifs <;> omega

theorem order_order {k : Nat} (hk : k < p.rowCount) : p.order (p.order k) = k := by
  unfold AcclParams.order
  split_ifs <;> omega

/-- The way from the top addresses the rows that are wanted. -/
theorem sameRows_of_topDown (host : HostConfig) (bpp : Nat) (hhook : nqdBitbltHook p) (htop : p.TopDown) :
    p.SameRows host bpp := by
  have hsrc : 0 < p.srcRowBytes.toInt := htop
  have hdest := (rowBytes_sign hhook).not.mp (by omega)
  have habs : absRowBytes p.srcRowBytes = p.srcRowBytes.toInt ∧
      absRowBytes p.destRowBytes = p.destRowBytes.toInt := by
    unfold absRowBytes
    omega
  intro k _
  unfold AcclParams.srcPointer AcclParams.destPointer AcclParams.srcAt AcclParams.destAt
    AcclParams.order AcclParams.srcRow AcclParams.destRow AcclParams.srcCorner
    AcclParams.destCorner
  rw [if_pos htop, if_pos htop, if_pos htop, habs.1, habs.2]
  exact ⟨rfl, rfl⟩

/-- The pointers on the way from the bottom are those of the rows exactly if the bottom fits. -/
theorem pointers_iff (host : HostConfig) {base : Word} {x y height : BitVec 16} {rowBytes : Word}
    (hcount : height.toInt.toNat ≠ 0) :
    (∀ k < height.toInt.toNat,
      host.mac2HostAddr (pixelAddr base x (y.toInt + height.toInt - 1) (-rowBytes).toInt bpp) +
          k * -(-rowBytes).toInt =
        host.mac2HostAddr (pixelAddr base x y.toInt (absRowBytes rowBytes) bpp) +
          (height.toInt.toNat - 1 - k : Nat) * absRowBytes rowBytes) ↔
      BottomFits bpp base x y height rowBytes := by
  unfold HostConfig.mac2HostAddr BottomFits
  generalize (pixelAddr base x (y.toInt + height.toInt - 1) (-rowBytes).toInt bpp).toNat = bottom
  generalize (pixelAddr base x y.toInt (absRowBytes rowBytes) bpp).toNat = top
  generalize (-rowBytes).toInt = step
  generalize absRowBytes rowBytes = stride
  generalize height.toInt = h at hcount ⊢
  obtain ⟨n, rfl⟩ := Int.eq_ofNat_of_zero_le (by omega : 0 ≤ h)
  rw [Int.toNat_natCast] at hcount ⊢
  constructor
  · intro hall
    have hfirst := hall 0 (by omega)
    rw [Nat.sub_zero, Nat.cast_sub (by omega)] at hfirst
    simp only [Nat.cast_zero, zero_mul, add_zero, Nat.cast_one] at hfirst
    refine ⟨fun htwo => ?_, by omega⟩
    have hsecond := hall 1 (by omega)
    rw [Nat.sub_sub, Nat.cast_sub (by omega)] at hsecond
    push_cast at hsecond
    have hsplit : ((n : Int) - 2) * stride = (n - 1) * stride - stride := by ring
    omega
  · rintro ⟨hstep, hbottom⟩ k hk
    rw [Nat.sub_sub, Nat.cast_sub (by omega)]
    have hsplit : ((n : Int) - (1 + k : Nat)) * stride = (n - 1) * stride - k * stride := by
      push_cast
      ring
    rcases Nat.lt_or_ge n 2 with hone | htwo
    · obtain rfl : k = 0 := by omega
      rw [hsplit]
      simp only [Nat.cast_zero, zero_mul]
      omega
    · rw [hsplit, hstep (by omega), mul_neg]
      omega

theorem sameRows_iff (htop : ¬ p.TopDown) (hcount : p.rowCount ≠ 0) : p.SameRows host bpp ↔
    BottomFits bpp p.srcBaseAddr p.srcX p.srcY p.height p.srcRowBytes ∧
      BottomFits bpp p.destBaseAddr p.destX p.destY p.height p.destRowBytes := by
  rw [← pointers_iff host hcount, ← pointers_iff host hcount]
  unfold AcclParams.SameRows AcclParams.srcPointer AcclParams.destPointer AcclParams.srcAt
    AcclParams.destAt AcclParams.order
  simp only [if_neg htop]
  constructor
  · exact fun h => ⟨fun k hk => (h k hk).1, fun k hk => (h k hk).2⟩
  · exact fun h k hk => ⟨h.1 k hk, h.2 k hk⟩

/-- What the code copies is what is wanted exactly if the rows are copied at once. -/
theorem copied_iff (hbpp : bytesPerPixel p.srcPixelSize = some bpp) (hsame : p.SameRows host bpp) :
    (∀ m, ∃ m', nqdBitblt host p m = some m' ∧
      (∀ i < p.rowCount, ∀ x, In (p.destRow host bpp i) (p.rowWidth bpp) x →
        m'.bytes x = m.bytes (x - p.destRow host bpp i + p.srcRow host bpp i)) ∧
      ∀ x, (∀ i < p.rowCount, ¬ In (p.destRow host bpp i) (p.rowWidth bpp) x) →
        m'.bytes x = m.bytes x) ↔
      CopiedAtOnce (p.destAt host bpp) (p.srcAt host bpp) (p.copyLength bpp) p.rowCount
        (p.rowWidth bpp) := by
  have hrun : ∀ m, nqdBitblt host p m = some (copied (p.destAt host bpp) (p.srcAt host bpp)
      (p.copyLength bpp) p.rowCount m) := by
    intro m
    rw [nqdBitblt_eq hbpp, copied_congr hsame]
  simp only [hrun, Option.some.injEq, exists_eq_left']
  constructor
  · intro h
    refine ⟨fun k hk x hx => copied_bytes_iff.mp fun m => ?_,
      fun x hx => copied_bytes_iff.mp fun m => ?_⟩
    · exact (h m).1 (p.order k) (order_lt hk) x hx
    · refine (h m).2 x fun i hi hin => hx (p.order i) (order_lt hi) ?_
      rw [AcclParams.destAt, order_order hi]
      exact hin
  · rintro ⟨hin, hout⟩ m
    constructor
    · intro i hi x hx
      have horigin := hin (p.order i) (order_lt hi) x
      rw [AcclParams.destAt, AcclParams.srcAt, order_order hi] at horigin
      exact copied_bytes_iff.mpr (horigin hx) m
    · intro x hx
      exact copied_bytes_iff.mpr (hout x fun k hk => hx (p.order k) (order_lt hk)) m

theorem absRowBytes_nonneg (rowBytes : Word) : 0 ≤ absRowBytes rowBytes := Int.natCast_nonneg _

theorem takeAlike_iff (host : HostConfig) (hcount : p.rowCount ≠ 0) (hwidth : p.rowWidth bpp ≠ 0) :
    TakeAlike (p.destAt host bpp) (p.srcAt host bpp) p.rowCount (p.rowWidth bpp) ↔
      p.rowCount = 1 ∨ p.rowWidth bpp ≤ absRowBytes p.destRowBytes ∨
        absRowBytes p.destRowBytes = absRowBytes p.srcRowBytes := by
  constructor
  · intro h
    by_contra hcon
    push Not at hcon
    obtain ⟨hone, hover, hne⟩ := hcon
    have hdest := absRowBytes_nonneg p.destRowBytes
    -- The second row starts with a byte of the first.
    have hfirst : p.order (p.order 0) = 0 := order_order (by omega)
    have hsecond : p.order (p.order 1) = 1 := order_order (by omega)
    have hlike := h _ (order_lt (by omega : 0 < p.rowCount)) _ (order_lt (by omega : 1 < p.rowCount))
      (p.destRow host bpp 1)
    simp only [AcclParams.destAt, AcclParams.srcAt, hfirst, hsecond, AcclParams.destRow,
      AcclParams.srcRow, In] at hlike
    push_cast at hlike
    have := hlike (by omega) (by omega)
    omega
  · rintro (hone | hapart | hstrides) k hk l hl x hkx hlx
    · obtain rfl : k = l := by omega
      rfl
    · have hkl : p.order k = p.order l := by
        refine eq_of_in_rows ?_ hkx hlx
        have := absRowBytes_nonneg p.destRowBytes
        omega
      rw [AcclParams.destAt, AcclParams.srcAt, AcclParams.destAt, AcclParams.srcAt, hkl]
    · simp only [AcclParams.destAt, AcclParams.srcAt, AcclParams.destRow, AcclParams.srcRow, hstrides]
      ring

theorem row_le {c stride : Int} {i j : Nat} (hstride : 0 ≤ stride) (hij : i ≤ j) :
    c + i * stride ≤ c + j * stride := by
  have := mul_le_mul_of_nonneg_right (Int.ofNat_le.mpr hij) hstride
  omega

theorem row_lt {c stride : Int} {i j : Nat} (hstride : 0 < stride) (hij : i < j) :
    c + i * stride < c + j * stride := by
  have := mul_lt_mul_of_pos_right (Int.ofNat_lt.mpr hij) hstride
  omega

/-- Of the highest rows, the last that is copied has no earlier source above its own. -/
theorem exists_highest (host : HostConfig) (bpp : Nat) (hhook : nqdBitbltHook p)
    (hcount : p.rowCount ≠ 0) :
    ∃ t < p.rowCount, (∀ k < p.rowCount, p.destAt host bpp k ≤ p.destAt host bpp t) ∧
      (∀ k < p.rowCount, t < k → p.destAt host bpp k < p.destAt host bpp t) ∧
      ∀ k < t, p.srcAt host bpp k ≤ p.srcAt host bpp t := by
  have hdest := absRowBytes_nonneg p.destRowBytes
  have hsrc := absRowBytes_nonneg p.srcRowBytes
  unfold AcclParams.destAt AcclParams.srcAt AcclParams.order AcclParams.destRow AcclParams.srcRow
  by_cases htop : p.TopDown
  · simp only [if_pos htop]
    exact ⟨p.rowCount - 1, by omega, fun k hk => row_le hdest (by omega), fun k hk hk' => by omega,
      fun k hk => row_le hsrc (by omega)⟩
  · simp only [if_neg htop]
    rcases hdest.lt_or_eq with hpos | hzero
    · exact ⟨0, by omega, fun k hk => row_le hdest (by omega), fun k hk hk' => row_lt hpos (by omega),
        fun k hk => by omega⟩
    · -- All destination rows are one, and so are the source rows.
      have hsign := rowBytes_sign hhook
      have hsrc : absRowBytes p.srcRowBytes = 0 := by
        unfold AcclParams.TopDown at htop
        unfold absRowBytes at hzero ⊢
        omega
      exact ⟨p.rowCount - 1, by omega, fun k hk => by simp [← hzero], fun k hk hk' => by omega,
        fun k hk => by simp [hsrc]⟩

theorem AcclParams.SamePlace.row (h : p.SamePlace host bpp) (k : Nat) :
    p.destAt host bpp k = p.srcAt host bpp k := by
  unfold AcclParams.destAt AcclParams.srcAt AcclParams.destRow AcclParams.srcRow
  rw [h.1, h.2]

/-- Where the areas are not one, all rows are moved alike, or none is read after it was copied to. -/
theorem moved_or_apart (hdomain : p.Suited ∨ p.Disjoint host bpp) (hplace : ¬ p.SamePlace host bpp) :
    (∃ δ ≠ 0, ∀ k < p.rowCount, p.destAt host bpp k - p.srcAt host bpp k = δ) ∨
      ∀ k < p.rowCount, ∀ j < p.rowCount, ∀ x,
        ¬ (In (p.destAt host bpp j) (p.rowWidth bpp) x ∧
          In (p.srcAt host bpp k) (p.rowWidth bpp) x) := by
  rcases hdomain with ⟨-, hstrides, -⟩ | happart
  · refine .inl ⟨p.destCorner host bpp - p.srcCorner host bpp, fun hzero => ?_, fun k hk => ?_⟩
    · exact hplace ⟨by omega, by rw [hstrides]⟩
    · simp only [AcclParams.destAt, AcclParams.srcAt, AcclParams.destRow, AcclParams.srcRow,
        hstrides]
      ring
  · exact .inr fun k hk j hj x => happart _ (order_lt hk) _ (order_lt hj) x

theorem copiedAtOnce_iff (hhook : nqdBitbltHook p) (hbpp : PixelSize bpp) (hwidth : 0 ≤ p.width.toInt)
    (hdomain : p.Suited ∨ p.Disjoint host bpp) (hcount : p.rowCount ≠ 0) :
    CopiedAtOnce (p.destAt host bpp) (p.srcAt host bpp) (p.copyLength bpp) p.rowCount
        (p.rowWidth bpp) ↔
      p.rowWidth bpp = 0 ∨ p.SamePlace host bpp ∨
        p.rowWidth bpp < 2 ^ 15 ∧
          (p.rowCount = 1 ∨ p.rowWidth bpp ≤ absRowBytes p.destRowBytes ∨
            absRowBytes p.destRowBytes = absRowBytes p.srcRowBytes) ∧
          NothingStale (p.destAt host bpp) (p.srcAt host bpp) p.rowCount (p.rowWidth bpp) := by
  have hlength := copyLength_eq_iff hbpp hwidth
  by_cases hempty : p.rowWidth bpp = 0
  · have hnone : p.copyLength bpp = 0 := hempty ▸ hlength.mpr (by omega)
    refine iff_of_true ?_ (.inl hempty)
    have hnot : ∀ a x, ¬ In a 0 x := fun a x hx => by
      simp only [In] at hx
      omega
    rw [hempty, hnone]
    exact ⟨fun k _ x hx => absurd hx (hnot _ _), fun x _ => origin_of_not_in fun k _ => hnot _ _⟩
  by_cases hplace : p.SamePlace host bpp
  · refine iff_of_true ?_ (.inr (.inl hplace))
    have hself : ∀ x, origin (p.destAt host bpp) (p.srcAt host bpp) (p.copyLength bpp) p.rowCount x =
        x := fun x => origin_self fun k _ => hplace.row k
    refine ⟨fun k _ x _ => ?_, fun x _ => hself x⟩
    rw [hself, hplace.row k]
    omega
  have hrows := moved_or_apart hdomain hplace
  rw [← takeAlike_iff host hcount hempty]
  constructor
  · intro h
    obtain ⟨t, ht, hmax, hlast, hsrc⟩ := exists_highest host bpp hhook hcount
    have hmoved : p.destAt host bpp t ≠ p.srcAt host bpp t := by
      intro heq
      rcases hrows with ⟨δ, hδ, hall⟩ | happart
      · exact hδ (by rw [← hall t ht, heq, sub_self])
      · have hin := in_self (a := p.srcAt host bpp t) (Nat.pos_of_ne_zero hempty)
        exact happart t ht t ht _ ⟨heq ▸ hin, hin⟩
    have hn : p.copyLength bpp = p.rowWidth bpp := by
      by_contra hne
      exact not_copiedAtOnce_of_ne ht (Nat.pos_of_ne_zero hempty) hne hmax hlast hsrc hmoved h
    rw [hn] at h
    exact .inr (.inr ⟨hlength.mp hn, h.conditions hrows⟩)
  · rintro (hzero | hsame | ⟨hfits, hlike, hstale⟩)
    · exact absurd hzero hempty
    · exact absurd hsame hplace
    · rw [hlength.mpr hfits]
      exact copiedAtOnce_of hlike hstale

/-- The blit is a copy at once of the rows that are wanted exactly if the condition holds. -/
theorem blit_good_iff (hhook : nqdBitbltHook p) (hwidth : 0 ≤ p.width.toInt)
    (hdomain : ∀ bpp, bytesPerPixel p.srcPixelSize = some bpp → p.Suited ∨ p.Disjoint host bpp) :
    BlitGood p host ↔ BlitCond p host := by
  refine exists_congr fun bpp => and_congr_right fun hbpp => ?_
  have hsize := bytesPerPixel_size hbpp
  by_cases hcount : p.rowCount = 0
  · have hsame : p.SameRows host bpp := fun k hk => by omega
    refine iff_of_true ⟨fun _ => hsame, (copied_iff hbpp hsame).mpr ?_⟩ (.inl hcount)
    rw [hcount]
    exact ⟨fun k hk => by omega, fun x _ => rfl⟩
  have hrows : (p.TopDown ∨ BottomFits bpp p.srcBaseAddr p.srcX p.srcY p.height p.srcRowBytes ∧
      BottomFits bpp p.destBaseAddr p.destX p.destY p.height p.destRowBytes) ↔
      (¬ p.TopDown → p.SameRows host bpp) := by
    by_cases htop : p.TopDown
    · exact iff_of_true (.inl htop) fun hnot => absurd htop hnot
    · rw [sameRows_iff htop hcount]
      exact ⟨fun h _ => h.resolve_left htop, fun h => .inr (h htop)⟩
  rw [or_iff_right hcount, hrows]
  refine and_congr_right fun hsame => ?_
  have hsame : p.SameRows host bpp := by
    by_cases htop : p.TopDown
    · exact sameRows_of_topDown host bpp hhook htop
    · exact hsame htop
  rw [copied_iff hbpp hsame]
  exact copiedAtOnce_iff hhook hsize hwidth (hdomain bpp hbpp) hcount

end

/-- One row of 32-bit pixels from one base address to another. -/
def rowParams (src dest : Word) (width : BitVec 16) : AcclParams where
  transferMode := 0
  penMode := 8
  unknown018 := 0
  forePen := 0
  backPen := 0
  srcBaseAddr := src
  srcRowBytes := 64
  srcBounds := ⟨0, 0, 64, 64⟩
  srcPixelSize := 32
  destBaseAddr := dest
  destRowBytes := 64
  destBounds := ⟨0, 0, 64, 64⟩
  destPixelSize := 32
  unknown128 := 0
  unknown130 := 0
  srcRect := ⟨0, 0, 1, width⟩
  destRect := ⟨0, 0, 1, width⟩
  unknown15c := 1

theorem rowParams_rows (src dest : Word) (width : BitVec 16) :
    (rowParams src dest width).srcRow alignedHost 4 0 = src.toNat ∧
      (rowParams src dest width).destRow alignedHost 4 0 = dest.toNat ∧
      (rowParams src dest width).rowCount = 1 := by
  simp [AcclParams.srcRow, AcclParams.destRow, AcclParams.srcCorner, AcclParams.destCorner,
    AcclParams.rowCount, AcclParams.srcX, AcclParams.srcY, AcclParams.destX, AcclParams.destY,
    AcclParams.height, HostConfig.mac2HostAddr, pixelAddr, rowParams, alignedHost]

theorem rowParams_disjoint {src dest : Word} {width : BitVec 16}
    (h : src.toNat + (rowParams src dest width).rowWidth 4 ≤ dest.toNat) :
    (rowParams src dest width).Disjoint alignedHost 4 := by
  obtain ⟨hsrc, hdest, hcount⟩ := rowParams_rows src dest width
  intro i hi j hj x ⟨hd, hs⟩
  rw [hcount] at hi hj
  obtain rfl : i = 0 := by omega
  obtain rfl : j = 0 := by omega
  rw [hdest] at hd
  rw [hsrc] at hs
  simp only [In] at hd hs
  omega

/-- Eight pixels. -/
theorem blit_row_good : BlitGood (rowParams 0 4096 8) alignedHost := by
  refine (blit_good_iff rfl (by decide) ?_).mpr ⟨4, rfl, .inr ⟨.inl (by decide), ?_⟩⟩
  · rintro bpp ⟨⟩
    exact .inr (rowParams_disjoint (by decide))
  · refine .inr (.inr ⟨by decide, .inl (by decide), ?_⟩)
    intro k hk j hj
    have hk : k < 1 := hk
    omega

/-- 16384 pixels, whose bytes are none in 16 bits. -/
theorem blit_wide_not_good :
    nqdBitbltHook (rowParams 0 131072 16384) ∧
      (rowParams 0 131072 16384).Disjoint alignedHost 4 ∧
      ¬ BlitGood (rowParams 0 131072 16384) alignedHost := by
  have hdisjoint : (rowParams 0 131072 16384).Disjoint alignedHost 4 :=
    rowParams_disjoint (by decide)
  refine ⟨rfl, hdisjoint, ?_⟩
  rintro ⟨bpp, ⟨⟩, -, hcopy⟩
  have hsame : (rowParams 0 131072 16384).SameRows alignedHost 4 :=
    sameRows_of_topDown alignedHost 4 rfl (by decide)
  rw [copied_iff rfl hsame,
    copiedAtOnce_iff rfl (.inr (.inr rfl)) (by decide) (.inr hdisjoint) (by decide)] at hcopy
  rcases hcopy with hwidth | ⟨hplace, -⟩ | ⟨hfits, -⟩
  · exact absurd hwidth (by decide)
  · exact absurd hplace (by decide)
  · exact absurd hfits (by decide)

end SheepShear.Video.Accel
