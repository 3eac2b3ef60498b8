import SheepShear.Lib.Lanes
import SheepShear.Video.Blit

/-!
# The colours that the screen blitters show

Each blitter converts one pixel after the other, whichever of its expressions it
uses. The pixels that it leaves behind are compared with the Mac's by the masks of
the visual format.
-/

namespace SheepShear.Video.Blit

open HostWords Lanes

-- ---------------------------------------------------------------------------
-- Rows
-- ---------------------------------------------------------------------------

variable {n k len : Nat} {src m : HostMemory} {s d : Nat}

/-- The pixel of `n` bytes at `a`, as the host reads it. -/
def pixelAt (n : Nat) (src : HostMemory) (a : Nat) : BitVec (8 * n) := BitVec.ofNat (8 * n) (readLE src a n)

/-- The memory after a conversion of each pixel of a row. -/
def convertedRow (n : Nat) (f : BitVec (8 * n) → BitVec (8 * n)) (src : HostMemory) (s : Nat)
    (m : HostMemory) (d len : Nat) : HostMemory := fun x =>
  if d ≤ x ∧ x < d + len then
    lane 8 (f (pixelAt n src (s + n * ((x - d) / n)))) ((x - d) % n)
  else m x

theorem convertedRow_zero (f : BitVec (8 * n) → BitVec (8 * n)) : convertedRow n f src s m d 0 = m := by
  funext x
  exact if_neg (by omega)

/-- One part of a row after the other. -/
theorem convertedRow_add (f : BitVec (8 * n) → BitVec (8 * n)) (hn : n ∣ k) (l : Nat) :
    convertedRow n f src (s + k) (convertedRow n f src s m d k) (d + k) l =
      convertedRow n f src s m d (k + l) := by
  obtain ⟨q, rfl⟩ := hn
  funext x
  rw [convertedRow, convertedRow, convertedRow]
  by_cases hlater : d + n * q ≤ x ∧ x < d + n * q + l
  · have hx : x - d = x - (d + n * q) + n * q := by omega
    rcases Nat.eq_zero_or_pos n with rfl | hpos
    · rw [if_pos hlater, if_pos (by omega)]
      simp only [Nat.zero_mul, Nat.add_zero]
    · rw [if_pos hlater, if_pos (by omega), hx, Nat.add_mul_div_left _ _ hpos, Nat.add_mul_mod_self_left,
        Nat.mul_add, Nat.add_assoc, Nat.add_comm (n * q)]
  · rw [if_neg hlater]
    by_cases hin : d ≤ x ∧ x < d + n * q
    · rw [if_pos hin, if_pos (by omega)]
    · rw [if_neg hin, if_neg (by omega)]

/-- An expression that converts each lane by itself. -/
def Lanewise (n c : Nat) (f : BitVec (8 * n) → BitVec (8 * n)) (g : BitVec (8 * c) → BitVec (8 * c)) : Prop :=
  ∀ x j, n * (j + 1) ≤ c → lane (8 * n) (g x) j = f (lane (8 * n) x j)

theorem writeLE_lanewise {c : Nat} {f : BitVec (8 * n) → BitVec (8 * n)} {g : BitVec (8 * c) → BitVec (8 * c)}
    (hn : 0 < n) (hc : n ∣ c) (h : Lanewise n c f g) :
    writeLE m d (g (pixelAt c src s)).toNat c = convertedRow n f src s m d c := by
  funext x
  rw [writeLE_apply, convertedRow]
  by_cases hin : d ≤ x ∧ x < d + c
  · rw [if_pos hin, if_pos hin]
    have hlane : n * ((x - d) / n + 1) ≤ c := by
      obtain ⟨q, rfl⟩ := hc
      have hlt : (x - d) / n < q := Nat.div_lt_of_lt_mul (by omega)
      exact Nat.mul_le_mul_left n hlt
    have hpixel : pixelAt n src (s + n * ((x - d) / n)) = lane (8 * n) (pixelAt c src s) ((x - d) / n) :=
      (lane_readLE src s hlane).symm
    rw [hpixel, ← h _ _ hlane, lane_lane (Nat.mod_lt _ hn), Nat.div_add_mod, ← ofNat_div_eq_lane,
      show 256 ^ (x - d) = 2 ^ (8 * (x - d)) from (pow_mul 2 8 (x - d)).symm]
  · rw [if_neg hin, if_neg hin]

variable {f : BitVec (8 * n) → BitVec (8 * n)} {blit4 : BitVec 64 → BitVec 64}

theorem duffCases_eq (hn : 0 < n) (hc : n ∣ 8) (h : Lanewise n 8 f blit4) (k : Nat) :
    duffCases blit4 src k ⟨m, d + 8 * k, s + 8 * k⟩ =
      ⟨convertedRow n f src s m d (8 * k), d + 8 * k, s + 8 * k⟩ := by
  induction k generalizing m d s with
  | zero => exact congrArg (Cursor.mk · d s) (convertedRow_zero f).symm
  | succ k ih =>
    have hfirst : @convert 8 blit4 src (8 * (k + 1)) ⟨m, d + 8 * (k + 1), s + 8 * (k + 1)⟩ =
        ⟨convertedRow n f src s m d 8, d + 8 + 8 * k, s + 8 + 8 * k⟩ := by
      rw [convert]
      simp only [Nat.add_sub_cancel]
      exact Cursor.ext (writeLE_lanewise hn hc h) (by simp only; omega) (by simp only; omega)
    rw [duffCases, hfirst, ih, convertedRow_add f hc]
    exact Cursor.ext (by simp only [Nat.mul_succ, Nat.add_comm]) (by simp only; omega) (by simp only; omega)

theorem duffRounds_eq (hn : 0 < n) (hc : n ∣ 8) (h : Lanewise n 8 f blit4) (r : Nat) :
    duffRounds blit4 src r ⟨m, d, s⟩ = ⟨convertedRow n f src s m d (64 * r), d + 64 * r, s + 64 * r⟩ := by
  induction r generalizing m d s with
  | zero => exact congrArg (Cursor.mk · d s) (convertedRow_zero f).symm
  | succ r ih =>
    rw [duffRounds, show (Cursor.mk m d s).advance 64 = ⟨m, d + 8 * 8, s + 8 * 8⟩ from rfl,
      duffCases_eq hn hc h 8, ih, convertedRow_add f (hc.trans (by decide))]
    exact Cursor.ext (by simp only [Nat.mul_succ, Nat.add_comm]) (by simp only; omega) (by simp only; omega)

/-- Duff's device converts each 8-byte word once. -/
theorem blitQuads_eq (hn : 0 < n) (hc : n ∣ 8) (h : Lanewise n 8 f blit4) (hlen : 8 ≤ len) :
    blitQuads blit4 src len ⟨m, d, s⟩ =
      ⟨convertedRow n f src s m d (8 * (len / 8)), d + 8 * (len / 8), s + 8 * (len / 8)⟩ := by
  rw [blitQuads, Cursor.advance]
  by_cases hround : len / 8 % 8 = 0
  · rw [if_pos hround, hround, duffRounds_eq hn hc h]
    have hcount : 64 * ((len / 8 + 7) / 8) = 8 * (len / 8) := by omega
    rw [hcount, Nat.zero_mul, Nat.add_zero, Nat.add_zero]
  · have hcount : 8 * (len / 8 % 8) + 64 * ((len / 8 + 7) / 8 - 1) = 8 * (len / 8) := by omega
    rw [if_neg hround, Nat.mul_comm (len / 8 % 8), duffCases_eq hn hc h, duffRounds_eq hn hc h,
      convertedRow_add f (hc.trans (Nat.dvd_mul_right ..)), hcount, Nat.add_assoc, Nat.add_assoc, hcount]

/-- The words of 8 bytes, however many there are. -/
theorem blitQuads_or_none (hn : 0 < n) (hc : n ∣ 8) (h : Lanewise n 8 f blit4) (len : Nat) :
    (if 8 ≤ len then blitQuads blit4 src len ⟨m, d, s⟩ else ⟨m, d, s⟩) =
      ⟨convertedRow n f src s m d (8 * (len / 8)), d + 8 * (len / 8), s + 8 * (len / 8)⟩ := by
  by_cases hlen : 8 ≤ len
  · rw [if_pos hlen, blitQuads_eq hn hc h hlen]
  · rw [if_neg hlen, show 8 * (len / 8) = 0 by omega, convertedRow_zero]
    rfl

/-- What is left of a row behind its words of 8 bytes. -/
theorem convert_eq {c : Nat} {g : BitVec (8 * c) → BitVec (8 * c)} (hn : 0 < n) (hc : n ∣ c)
    (h : Lanewise n c f g) : @convert c g src 0 ⟨m, d, s⟩ = ⟨convertedRow n f src s m d c, d, s⟩ :=
  Cursor.ext (writeLE_lanewise hn hc h) rfl rfl

variable {b : Macros} {length : Word}

/-- Expressions that all convert 16-bit pixels by the first one. -/
structure WordMacros (b : Macros) (f : BitVec 16 → BitVec 16) : Prop where
  depth : b.depth ≤ 16
  blit1 : b.blit1 = some f
  blit2 : Lanewise 2 4 f b.blit2
  blit4 : Lanewise 2 8 f b.blit4

/-- Expressions for 32-bit pixels. -/
structure LongMacros (b : Macros) : Prop where
  depth : ¬b.depth ≤ 16
  blit1 : b.blit1 = none
  blit4 : Lanewise 4 8 b.blit2 b.blit4

theorem lanewise_self (f : BitVec (8 * n) → BitVec (8 * n)) (hn : 0 < n) : Lanewise n n f f := by
  intro x j hj
  obtain rfl : j = 0 := by
    by_contra hne
    have hmul := Nat.mul_le_mul_left n (show 2 ≤ j + 1 by omega)
    omega
  have hself : ∀ y : BitVec (8 * n), lane (8 * n) y 0 = y := fun y => by
    rw [← setWidth_eq_lane (le_refl _), BitVec.setWidth_eq]
  rw [hself, hself]

theorem blitAligned_words {f : BitVec 16 → BitVec 16} (h : WordMacros b f) (heven : 2 ∣ length.toNat) :
    (blitAligned b src length ⟨m, d, s⟩).mem = convertedRow 2 f src s m d length.toNat := by
  rw [blitAligned, @blitQuads_or_none 2 _ _ _ _ f _ (by decide) (by decide) h.blit4, h.blit1]
  have hhead : 2 ∣ 8 * (length.toNat / 8) := Dvd.dvd.mul_right (by decide) _
  by_cases hlong : length.toNat / 4 % 2 = 1
  · simp only [if_pos hlong, if_pos h.depth]
    rw [@convert_eq 2 _ _ _ _ f 4 _ (by decide) (by decide) h.blit2, Cursor.advance,
      @convertedRow_add 2 _ _ _ _ _ f hhead]
    by_cases hword : length.toNat / 2 % 2 = 1
    · rw [if_pos hword, @convert_eq 2 _ _ _ _ f 2 _ (by decide) (by decide) (@lanewise_self 2 f (by decide))]
      simp only [Nat.add_assoc]
      rw [@convertedRow_add 2 _ _ _ _ _ f (by omega)]
      exact congrArg (convertedRow 2 f src s m d) (by omega)
    · rw [if_neg hword, show 8 * (length.toNat / 8) + 4 = length.toNat by omega]
  · simp only [if_neg hlong]
    by_cases hword : length.toNat / 2 % 2 = 1
    · rw [if_pos hword, @convert_eq 2 _ _ _ _ f 2 _ (by decide) (by decide) (@lanewise_self 2 f (by decide)),
        @convertedRow_add 2 _ _ _ _ _ f hhead]
      exact congrArg (convertedRow 2 f src s m d) (by omega)
    · rw [if_neg hword, show 8 * (length.toNat / 8) = length.toNat by omega]

theorem blitAligned_longs (h : LongMacros b) (hlen : 4 ∣ length.toNat) :
    (blitAligned b src length ⟨m, d, s⟩).mem = convertedRow 4 b.blit2 src s m d length.toNat := by
  rw [blitAligned, @blitQuads_or_none 4 _ _ _ _ b.blit2 _ (by decide) (by decide) h.blit4, h.blit1]
  by_cases hlong : length.toNat / 4 % 2 = 1
  · simp only [if_pos hlong, if_neg h.depth]
    rw [@convert_eq 4 _ _ _ _ b.blit2 4 _ (by decide) (by decide) (@lanewise_self 4 b.blit2 (by decide)),
      @convertedRow_add 4 _ _ _ _ _ b.blit2 (Dvd.dvd.mul_right (by decide) _)]
    exact congrArg (convertedRow 4 b.blit2 src s m d) (by omega)
  · simp only [if_neg hlong]
    rw [show 8 * (length.toNat / 8) = length.toNat by omega]

-- ---------------------------------------------------------------------------
-- The functions of the expressions
-- ---------------------------------------------------------------------------

/-- The row begins in the middle of a 32-bit word, and the function aligns it. -/
def Aligns (unalignedProfitable : Bool) (s : Nat) : Prop := unalignedProfitable = false ∧ s / 2 % 2 = 1

instance (u : Bool) (s : Nat) : Decidable (Aligns u s) := inferInstanceAs (Decidable (_ ∧ _))

variable {u : Bool}

/-- The length of a row without pixels is taken below zero. -/
theorem fbFunc_words {f : BitVec 16 → BitVec 16} (h : WordMacros b f) (heven : 2 ∣ length.toNat) :
    fbFunc b u src s length m d = convertedRow 2 f src s m d
      (if Aligns u s ∧ length = 0 then 2 ^ 32 else length.toNat) := by
  have htest : (!u && s / 2 % 2 = 1) = decide (Aligns u s) := by
    cases u <;> simp [Aligns]
  have hsub : (length - 2).toNat = (length.toNat + (2 ^ 32 - 2)) % 2 ^ 32 := by
    rw [BitVec.toNat_sub, Nat.add_comm]
    rfl
  rw [fbFunc, h.blit1]
  simp only [htest]
  by_cases halign : Aligns u s
  · rw [decide_eq_true halign, if_pos rfl,
      @convert_eq 2 _ _ _ _ f 2 _ (by decide) (by decide) (@lanewise_self 2 f (by decide)), Cursor.advance,
      blitAligned_words h (by omega), @convertedRow_add 2 _ _ _ _ _ f (by decide), hsub]
    refine congrArg (convertedRow 2 f src s m d) ?_
    by_cases hnone : length = 0
    · rw [if_pos ⟨halign, hnone⟩, hnone]
      rfl
    · have hpos : length.toNat ≠ 0 := fun h => hnone (BitVec.eq_of_toNat_eq h)
      rw [if_neg fun h => hnone h.2]
      omega
  · rw [decide_eq_false halign, if_neg (by decide), blitAligned_words h heven, if_neg fun hnone => halign hnone.1]

theorem fbFunc_longs (h : LongMacros b) (hlen : 4 ∣ length.toNat) :
    fbFunc b u src s length m d = convertedRow 4 b.blit2 src s m d length.toNat := by
  rw [fbFunc, h.blit1]
  exact blitAligned_longs h hlen

-- ---------------------------------------------------------------------------
-- The expressions
-- ---------------------------------------------------------------------------

/-- An expression for words of 16 bits, as the lane of the word it is promoted to. -/
theorem promoted_eq_lane (f : BitVec 32 → BitVec 32) (x : BitVec 16) :
    promoted f x = lane 16 (f (x.setWidth 32)) 0 := setWidth_eq_lane (by decide) _

/-- Three expressions that each convert all their lanes. -/
theorem wordMacros {b : Macros} {f : BitVec 16 → BitVec 16} {g : BitVec 32 → BitVec 32} (hdepth : b.depth ≤ 16)
    (h1 : b.blit1 = some (promoted g)) (hg : ∀ x, lane 16 (g x) 0 = f (lane 16 x 0))
    (h2 : ∀ x, lane 16 (b.blit2 x) 0 = f (lane 16 x 0) ∧ lane 16 (b.blit2 x) 1 = f (lane 16 x 1))
    (h4 : ∀ x, lane 16 (b.blit4 x) 0 = f (lane 16 x 0) ∧ lane 16 (b.blit4 x) 1 = f (lane 16 x 1) ∧
      lane 16 (b.blit4 x) 2 = f (lane 16 x 2) ∧ lane 16 (b.blit4 x) 3 = f (lane 16 x 3)) :
    WordMacros b f where
  depth := hdepth
  blit1 := by
    rw [h1]
    refine congrArg some (funext fun x => ?_)
    rw [promoted_eq_lane, hg, lane_setWidth (by decide)]
  blit2 := by
    intro x j hj
    obtain rfl | rfl : j = 0 ∨ j = 1 := by omega
    · exact (h2 x).1
    · exact (h2 x).2
  blit4 := by
    intro x j hj
    obtain rfl | rfl | rfl | rfl : j = 0 ∨ j = 1 ∨ j = 2 ∨ j = 3 := by omega
    · exact (h4 x).1
    · exact (h4 x).2.1
    · exact (h4 x).2.2.1
    · exact (h4 x).2.2.2

theorem longMacros {b : Macros} (hdepth : ¬b.depth ≤ 16) (h1 : b.blit1 = none)
    (h4 : ∀ x, lane 32 (b.blit4 x) 0 = b.blit2 (lane 32 x 0) ∧ lane 32 (b.blit4 x) 1 = b.blit2 (lane 32 x 1)) :
    LongMacros b where
  depth := hdepth
  blit1 := h1
  blit4 := by
    intro x j hj
    obtain rfl | rfl : j = 0 ∨ j = 1 := by omega
    · exact (h4 x).1
    · exact (h4 x).2

def swapBytes (src : BitVec 16) : BitVec 16 := src >>> 8 &&& 0xff ||| src <<< 8 &&& 0xff00

theorem wordMacros_rgb555NBO : WordMacros blitRGB555NBO swapBytes := by
  refine wordMacros (by decide) rfl (fun x => ?_) (fun x => ⟨?_, ?_⟩) fun x => ⟨?_, ?_, ?_, ?_⟩
  all_goals
    simp (disch := decide) only [blitRGB555NBO, BitVec.shiftLeft_and_distrib, lane_or, lane_ushiftRight_and, lane_shiftLeft_and]
    rfl

def bgr555 (src : BitVec 16) : BitVec 16 :=
  src >>> 2 &&& 0x1f ||| src >>> 8 &&& 0xe0 ||| src <<< 8 &&& 0x0300 ||| src <<< 2 &&& 0x7c00

theorem wordMacros_bgr555NBO : WordMacros blitBGR555NBO bgr555 := by
  refine wordMacros (by decide) rfl (fun x => ?_) (fun x => ⟨?_, ?_⟩) fun x => ⟨?_, ?_, ?_, ?_⟩
  all_goals
    simp (disch := decide) only [blitBGR555NBO, lane_or, lane_ushiftRight_and, lane_shiftLeft_and]
    rfl

def bgr555Swapped (src : BitVec 16) : BitVec 16 :=
  src <<< 6 &&& 0x1f00 ||| src &&& 0xe003 ||| src >>> 6 &&& 0x7c

theorem wordMacros_bgr555OBO : WordMacros blitBGR555OBO bgr555Swapped := by
  refine wordMacros (by decide) rfl (fun x => ?_) (fun x => ⟨?_, ?_⟩) fun x => ⟨?_, ?_, ?_, ?_⟩
  all_goals
    simp (disch := decide) only [blitBGR555OBO, lane_or, lane_ushiftRight_and, lane_shiftLeft_and]
    rw [lane_and]
    rfl

def rgb565 (src : BitVec 16) : BitVec 16 :=
  src >>> 8 &&& 0x001f ||| src <<< 9 &&& 0xfe00 ||| src >>> 7 &&& 0x01c0

theorem wordMacros_rgb565NBO : WordMacros blitRGB565NBO rgb565 := by
  refine wordMacros (by decide) rfl (fun x => ?_) (fun x => ⟨?_, ?_⟩) fun x => ⟨?_, ?_, ?_, ?_⟩
  all_goals
    simp (disch := decide) only [blitRGB565NBO, lane_or, lane_ushiftRight_and, lane_shiftLeft_and]
    rfl

def rgb565Swapped (src : BitVec 16) : BitVec 16 :=
  src &&& 0x1f00 ||| src <<< 1 &&& 0xe0fe ||| src >>> 15 &&& 1

theorem wordMacros_rgb565OBO : WordMacros blitRGB565OBO rgb565Swapped := by
  refine wordMacros (by decide) rfl (fun x => ?_) (fun x => ⟨?_, ?_⟩) fun x => ⟨?_, ?_, ?_, ?_⟩
  all_goals
    simp (disch := decide) only [blitRGB565OBO, lane_or, lane_ushiftRight_and, lane_shiftLeft_and]
    rw [lane_and]
    rfl

theorem longMacros_rgb888NBO : LongMacros blitRGB888NBO := by
  refine longMacros (by decide) rfl fun x => ⟨?_, ?_⟩
  all_goals
    simp (disch := decide) only [blitRGB888NBO, BitVec.shiftLeft_and_distrib, lane_or, lane_ushiftRight_and, lane_shiftLeft_and]
    rfl

theorem longMacros_bgr888OBO : LongMacros blitBGR888OBO := by
  refine longMacros (by decide) rfl fun x => ⟨?_, ?_⟩
  all_goals
    simp (disch := decide) only [blitBGR888OBO, BitVec.shiftLeft_and_distrib, lane_or, lane_ushiftRight_and, lane_shiftLeft_and]
    rw [lane_and]
    rfl

theorem longMacros_bgr888NBO : LongMacros blitBGR888NBO := by
  refine longMacros (by decide) rfl fun x => ⟨?_, ?_⟩
  all_goals
    simp (disch := decide) only [blitBGR888NBO, BitVec.shiftLeft_and_distrib, lane_or, lane_shiftLeft_and]
    rw [lane_and]
    rfl

-- ---------------------------------------------------------------------------
-- Colours
-- ---------------------------------------------------------------------------

@[ext]
structure Rgb where
  red : Byte
  green : Byte
  blue : Byte
  deriving DecidableEq, Repr

/-- How far a mask is shifted, as `Rshift`, `Gshift` and `Bshift` are found. -/
def maskShift (mask : Word) : Nat := ((List.range 32).find? fun i => mask.getLsbD i).getD 0

def channel (mask p : Word) : Byte := ((p &&& mask) >>> maskShift mask).setWidth 8

/-- The bytes of a pixel. -/
def ScreenBlitFuncInfo.pixelSize (e : ScreenBlitFuncInfo) : Nat :=
  if e.depth ≤ 8 then 1 else if e.depth ≤ 16 then 2 else 4

/-- A pixel as masks read it. -/
def rgbOf (rmask gmask bmask p : Word) : Rgb := ⟨channel rmask p, channel gmask p, channel bmask p⟩

/-- A pixel of the Mac: 5 bits for each colour, or 8. -/
def macRgb (n : Nat) (p : Word) : Rgb :=
  if n = 2 then ⟨(p.extractLsb' 10 5).setWidth 8, (p.extractLsb' 5 5).setWidth 8, (p.extractLsb' 0 5).setWidth 8⟩
  else ⟨p.extractLsb' 16 8, p.extractLsb' 8 8, p.extractLsb' 0 8⟩

/-- The green of RGB565 has a bit more. -/
def ScreenBlitFuncInfo.widened (e : ScreenBlitFuncInfo) (c : Rgb) : Rgb :=
  if e.gmask = 0x07e0 then { c with green := c.green <<< 1 } else c

/-- The pixel `p` of the Mac is shown by `q`; formats without masks show indices. -/
def ScreenBlitFuncInfo.Shows (e : ScreenBlitFuncInfo) (p q : Word) : Prop :=
  if e.depth ≤ 8 then q = p else rgbOf e.rmask e.gmask e.bmask q = e.widened (macRgb e.pixelSize p)

def macPixel (n : Nat) (src : HostMemory) (a : Nat) : Word := BitVec.ofNat 32 (readBE src a n)

def shownPixel (native : Bool) (n : Nat) (m : HostMemory) (a : Nat) : Word :=
  BitVec.ofNat 32 (if native then readLE m a n else readBE m a n)

/-- Exactly the bytes of the row are written, and each pixel has its colours. -/
def ScreenBlitFuncInfo.Right (e : ScreenBlitFuncInfo) (native u : Bool) (src : HostMemory) (s : Nat)
    (length : Word) (d : Nat) : Prop :=
  ∀ m, let m' := (e.handler native).blit u src s length m d
    SameOutside m m' d length.toNat ∧
      (∀ m₂ x, d ≤ x → x < d + length.toNat → (e.handler native).blit u src s length m₂ d x = m' x) ∧
      ∀ i < length.toNat / e.pixelSize,
        e.Shows (macPixel e.pixelSize src (s + e.pixelSize * i))
          (shownPixel native e.pixelSize m' (d + e.pixelSize * i))

-- ---------------------------------------------------------------------------
-- Byte orders
-- ---------------------------------------------------------------------------

def swapLongs (src : BitVec 32) : BitVec 32 :=
  src >>> 24 &&& 0xff ||| src >>> 8 &&& 0xff00 ||| src <<< 8 &&& 0xff0000 ||| src <<< 24 &&& 0xff000000

theorem lane_pixelAt (src : HostMemory) (a : Nat) {j : Nat} (hj : j < n) :
    lane 8 (pixelAt n src a) j = src (a + j) := by
  have hlane := @lane_readLE j src a n 1 (by omega)
  rw [Nat.one_mul] at hlane
  refine hlane.trans ?_
  show BitVec.ofNat 8 ((src (a + j)).toNat + 256 * 0) = _
  rw [Nat.mul_zero, Nat.add_zero, BitVec.ofNat_toNat, BitVec.setWidth_eq]

theorem toNat_lane (x : BitVec n) (j : Nat) : (lane 8 x j).toNat = x.toNat / 2 ^ (8 * j) % 256 := by
  rw [lane, BitVec.extractLsb'_toNat, Nat.shiftRight_eq_div_pow]

theorem readBE_two (src : HostMemory) (a : Nat) :
    BitVec.ofNat 32 (readBE src a 2) = (swapBytes (pixelAt 2 src a)).setWidth 32 := by
  have h0 : lane 8 (swapBytes (pixelAt 2 src a)) 1 = src (a + 0) := by
    rw [← lane_pixelAt src a (show 0 < 2 by decide)]
    refine BitVec.eq_of_getLsbD_eq fun i hi => ?_
    interval_cases i <;> simp [swapBytes, lane]
  have h1 : lane 8 (swapBytes (pixelAt 2 src a)) 0 = src (a + 1) := by
    rw [← lane_pixelAt src a (show 1 < 2 by decide)]
    refine BitVec.eq_of_getLsbD_eq fun i hi => ?_
    interval_cases i <;> simp [swapBytes, lane]
  have hlt := (swapBytes (pixelAt 2 src a)).isLt
  refine BitVec.eq_of_toNat_eq ?_
  rw [BitVec.toNat_ofNat, BitVec.toNat_setWidth, readBE, readBE, readBE, ← h0, ← h1,
    toNat_lane, toNat_lane]
  omega

theorem readBE_four (src : HostMemory) (a : Nat) :
    BitVec.ofNat 32 (readBE src a 4) = swapLongs (pixelAt 4 src a) := by
  have hlanes : ∀ j < 4, lane 8 (swapLongs (pixelAt 4 src a)) j = src (a + (3 - j)) := by
    intro j hj
    rw [← lane_pixelAt src a (show 3 - j < 4 by omega)]
    interval_cases j
    all_goals
      refine BitVec.eq_of_getLsbD_eq fun i hi => ?_
      interval_cases i <;> simp [swapLongs, lane]
  have hlt := (swapLongs (pixelAt 4 src a)).isLt
  refine BitVec.eq_of_toNat_eq ?_
  rw [BitVec.toNat_ofNat, readBE, readBE, readBE, readBE, readBE, ← hlanes 0 (by decide),
    ← hlanes 1 (by decide), ← hlanes 2 (by decide), ← hlanes 3 (by decide), toNat_lane, toNat_lane,
    toNat_lane, toNat_lane]
  omega

-- ---------------------------------------------------------------------------
-- The colours of each handler
-- ---------------------------------------------------------------------------

theorem channel_eq {mask : Word} {k : Nat} (h : maskShift mask = k) (p : Word) :
    channel mask p = ((p &&& mask) >>> k).setWidth 8 := by rw [channel, h]

theorem rgbOf_rgb555 (p : Word) : rgbOf 0x7c00 0x3e0 0x1f p = macRgb 2 p := by
  rw [rgbOf, @channel_eq _ 10 (by decide), @channel_eq _ 5 (by decide), @channel_eq _ 0 (by decide)]
  refine Rgb.ext (BitVec.eq_of_getLsbD_eq fun i hi => ?_) (BitVec.eq_of_getLsbD_eq fun i hi => ?_)
    (BitVec.eq_of_getLsbD_eq fun i hi => ?_)
  all_goals interval_cases i <;> simp [macRgb]

theorem rgbOf_bgr555 (x : BitVec 16) :
    rgbOf 0x1f 0x3e0 0x7c00 ((bgr555 x).setWidth 32) = macRgb 2 ((swapBytes x).setWidth 32) := by
  rw [rgbOf, @channel_eq _ 0 (by decide), @channel_eq _ 5 (by decide), @channel_eq _ 10 (by decide)]
  refine Rgb.ext (BitVec.eq_of_getLsbD_eq fun i hi => ?_) (BitVec.eq_of_getLsbD_eq fun i hi => ?_)
    (BitVec.eq_of_getLsbD_eq fun i hi => ?_)
  all_goals interval_cases i <;> simp [macRgb, bgr555, swapBytes]

theorem swapBytes_bgr555Swapped (x : BitVec 16) : swapBytes (bgr555Swapped x) = bgr555 x := by
  refine BitVec.eq_of_getLsbD_eq fun i hi => ?_
  interval_cases i <;> simp [bgr555, bgr555Swapped, swapBytes]

theorem rgbOf_rgb565 (x : BitVec 16) :
    rgbOf 0xf800 0x7e0 0x1f ((rgb565 x).setWidth 32) =
      { macRgb 2 ((swapBytes x).setWidth 32) with
        green := (macRgb 2 ((swapBytes x).setWidth 32)).green <<< 1 } := by
  rw [rgbOf, @channel_eq _ 11 (by decide), @channel_eq _ 5 (by decide), @channel_eq _ 0 (by decide)]
  refine Rgb.ext (BitVec.eq_of_getLsbD_eq fun i hi => ?_) (BitVec.eq_of_getLsbD_eq fun i hi => ?_)
    (BitVec.eq_of_getLsbD_eq fun i hi => ?_)
  all_goals interval_cases i <;> simp [macRgb, rgb565, swapBytes]

/-- The lowest bit of green is the highest one of blue. -/
theorem rgbOf_rgb565Swapped (x : BitVec 16) :
    rgbOf 0xf800 0x7e0 0x1f ((swapBytes (rgb565Swapped x)).setWidth 32) =
      { macRgb 2 ((swapBytes x).setWidth 32) with
        green := (macRgb 2 ((swapBytes x).setWidth 32)).green <<< 1 |||
          (macRgb 2 ((swapBytes x).setWidth 32)).blue >>> 4 } := by
  rw [rgbOf, @channel_eq _ 11 (by decide), @channel_eq _ 5 (by decide), @channel_eq _ 0 (by decide)]
  refine Rgb.ext (BitVec.eq_of_getLsbD_eq fun i hi => ?_) (BitVec.eq_of_getLsbD_eq fun i hi => ?_)
    (BitVec.eq_of_getLsbD_eq fun i hi => ?_)
  all_goals interval_cases i <;> simp [macRgb, rgb565Swapped, swapBytes]

theorem green_or_blue_iff (g : Byte) (p : Word) :
    g <<< 1 ||| (macRgb 2 p).blue >>> 4 = g <<< 1 ↔ (macRgb 2 p).blue.getLsbD 4 = false := by
  constructor
  · intro h
    have hbit := congrArg (fun y : Byte => y.getLsbD 0) h
    simpa using hbit
  · intro h
    have hzero : (macRgb 2 p).blue >>> 4 = 0 := by
      refine BitVec.eq_of_getLsbD_eq fun i hi => ?_
      rw [BitVec.getLsbD_ushiftRight]
      interval_cases i
      · rw [h]; rfl
      all_goals simp [macRgb]
    rw [hzero]
    exact BitVec.or_zero

theorem rgbOf_rgb888 (p : Word) : rgbOf 0xff0000 0xff00 0xff p = macRgb 4 p := by
  rw [rgbOf, @channel_eq _ 16 (by decide), @channel_eq _ 8 (by decide), @channel_eq _ 0 (by decide)]
  refine Rgb.ext (BitVec.eq_of_getLsbD_eq fun i hi => ?_) (BitVec.eq_of_getLsbD_eq fun i hi => ?_)
    (BitVec.eq_of_getLsbD_eq fun i hi => ?_)
  all_goals interval_cases i <;> simp [macRgb]

theorem rgb888NBO_eq (x : BitVec 32) : blitRGB888NBO.blit2 x = swapLongs x := by
  simp only [blitRGB888NBO, BitVec.shiftLeft_and_distrib]
  rfl

/-- The byte of a pixel that is in front of the colours. -/
def spare (p : Word) : Byte := p.extractLsb' 24 8

theorem rgbOf_bgr888NBO (x : BitVec 32) :
    rgbOf 0xff 0xff00 0xff0000 (blitBGR888NBO.blit2 x) =
      ⟨spare (swapLongs x), 0, (macRgb 4 (swapLongs x)).green⟩ := by
  rw [rgbOf, @channel_eq _ 0 (by decide), @channel_eq _ 8 (by decide), @channel_eq _ 16 (by decide)]
  refine Rgb.ext (BitVec.eq_of_getLsbD_eq fun i hi => ?_) (BitVec.eq_of_getLsbD_eq fun i hi => ?_)
    (BitVec.eq_of_getLsbD_eq fun i hi => ?_)
  all_goals interval_cases i <;> simp [macRgb, spare, blitBGR888NBO, swapLongs]

theorem rgbOf_bgr888OBO (x : BitVec 32) :
    rgbOf 0xff 0xff00 0xff0000 (swapLongs (blitBGR888OBO.blit2 x)) =
      ⟨0, (macRgb 4 (swapLongs x)).green ||| spare (swapLongs x), 0⟩ := by
  rw [rgbOf, @channel_eq _ 0 (by decide), @channel_eq _ 8 (by decide), @channel_eq _ 16 (by decide)]
  refine Rgb.ext (BitVec.eq_of_getLsbD_eq fun i hi => ?_) (BitVec.eq_of_getLsbD_eq fun i hi => ?_)
    (BitVec.eq_of_getLsbD_eq fun i hi => ?_)
  all_goals interval_cases i <;> simp [macRgb, spare, blitBGR888OBO, swapLongs]

theorem rgbOf_raw (x : BitVec 32) : rgbOf 0xff00 0xff0000 0xff000000 x = macRgb 4 (swapLongs x) := by
  rw [rgbOf, @channel_eq _ 8 (by decide), @channel_eq _ 16 (by decide), @channel_eq _ 24 (by decide)]
  refine Rgb.ext (BitVec.eq_of_getLsbD_eq fun i hi => ?_) (BitVec.eq_of_getLsbD_eq fun i hi => ?_)
    (BitVec.eq_of_getLsbD_eq fun i hi => ?_)
  all_goals interval_cases i <;> simp [macRgb, swapLongs]

theorem rgbOf_rawSwapped (p : Word) :
    rgbOf 0xff00 0xff0000 0xff000000 p = ⟨(macRgb 4 p).green, (macRgb 4 p).red, spare p⟩ := by
  rw [rgbOf, @channel_eq _ 8 (by decide), @channel_eq _ 16 (by decide), @channel_eq _ 24 (by decide)]
  refine Rgb.ext (BitVec.eq_of_getLsbD_eq fun i hi => ?_) (BitVec.eq_of_getLsbD_eq fun i hi => ?_)
    (BitVec.eq_of_getLsbD_eq fun i hi => ?_)
  all_goals interval_cases i <;> simp [macRgb, spare]

-- ---------------------------------------------------------------------------
-- The table
-- ---------------------------------------------------------------------------

/-- A handler of 16-bit pixels that converts. -/
def Handler.words (h : Handler) : Bool :=
  match h.macros with
  | some b => b.blit1.isSome
  | none => false

/-- The row is empty, and aligning it makes it longest. -/
def Wraps (h : Handler) (u : Bool) (s : Nat) (length : Word) : Prop :=
  h.words ∧ Aligns u s ∧ length = 0

instance (h : Handler) (u : Bool) (s : Nat) (length : Word) : Decidable (Wraps h u s length) :=
  inferInstanceAs (Decidable (_ ∧ _ ∧ _))

/-- The pixels of the Mac that a handler shows in their colours. -/
def ScreenBlitFuncInfo.Convertible (e : ScreenBlitFuncInfo) (native : Bool) (p : Word) : Prop :=
  match e.handler native with
  | .rgb565OBO => (macRgb 2 p).blue.getLsbD 4 = false
  | .bgr888NBO => spare p = (macRgb 4 p).red ∧ (macRgb 4 p).green = 0 ∧ (macRgb 4 p).blue = 0
  | .bgr888OBO =>
    (macRgb 4 p).red = 0 ∧ (macRgb 4 p).blue = 0 ∧
      (macRgb 4 p).green ||| spare p = (macRgb 4 p).green
  | .copyRaw =>
    e.rmask = 0xff00 → native = false →
      (macRgb 4 p).green = (macRgb 4 p).red ∧ spare p = (macRgb 4 p).blue
  | _ => True

/-- The big-endian number of the bytes of a pixel. -/
def bigEndian : (n : Nat) → BitVec (8 * n) → Word
  | 2, x => (swapBytes x).setWidth 32
  | 4, x => swapLongs x
  | _, x => x.setWidth 32

/-- What a handler does to a row, and when a pixel has its colours then. -/
structure Converts (e : ScreenBlitFuncInfo) (native : Bool) (n : Nat)
    (f : BitVec (8 * n) → BitVec (8 * n)) : Prop where
  size : e.pixelSize = n
  one : n = 1 ∨ n = 2 ∨ n = 4
  blit : ∀ u src s length m d, n ∣ length.toNat → (e.handler native).blit u src s length m d =
    convertedRow n f src s m d (if Wraps (e.handler native) u s length then 2 ^ 32 else length.toNat)
  shows : ∀ x, e.Shows (bigEndian n x) (if native then (f x).setWidth 32 else bigEndian n (f x)) ↔
    e.Convertible native (bigEndian n x)

variable {e : ScreenBlitFuncInfo} {native : Bool}

theorem copyIn_eq (hn : 0 < n) (len : Nat) :
    copyIn m d (fun i => src (s + i)) len = convertedRow n id src s m d len := by
  funext x
  rw [copyIn, convertedRow]
  refine if_congr Iff.rfl ?_ rfl
  rw [id, lane_pixelAt src _ (Nat.mod_lt _ hn), Nat.add_assoc, Nat.div_add_mod]

theorem blit_copyRaw (hn : 0 < n) (h : e.handler native = .copyRaw) :
    (e.handler native).blit u src s length m d = convertedRow n id src s m d
      (if Wraps (e.handler native) u s length then 2 ^ 32 else length.toNat) := by
  have hwraps : ¬Wraps (e.handler native) u s length := by
    rw [h]
    exact fun hwraps => Bool.false_ne_true hwraps.1
  rw [if_neg hwraps, h]
  exact copyIn_eq hn length.toNat

theorem blit_words {f : BitVec 16 → BitVec 16} (hb : (e.handler native).macros = some b) (h : WordMacros b f)
    (hlen : 2 ∣ length.toNat) :
    (e.handler native).blit u src s length m d = convertedRow 2 f src s m d
      (if Wraps (e.handler native) u s length then 2 ^ 32 else length.toNat) := by
  have hwraps : Wraps (e.handler native) u s length ↔ Aligns u s ∧ length = 0 := by
    rw [Wraps, Handler.words, hb]
    simp only [h.blit1, Option.isSome_some, true_and]
  rw [if_congr hwraps rfl rfl, Handler.blit, hb]
  exact fbFunc_words h hlen

theorem blit_longs (hb : (e.handler native).macros = some b) (h : LongMacros b) (hlen : 4 ∣ length.toNat) :
    (e.handler native).blit u src s length m d = convertedRow 4 b.blit2 src s m d
      (if Wraps (e.handler native) u s length then 2 ^ 32 else length.toNat) := by
  have hwraps : ¬Wraps (e.handler native) u s length := by
    rw [Wraps, Handler.words, hb]
    simp only [h.blit1, Option.isSome_none, Bool.false_eq_true, false_and, not_false_eq_true]
  rw [if_neg hwraps, Handler.blit, hb]
  exact fbFunc_longs h hlen

theorem shows_iff (hdepth : ¬e.depth ≤ 8) {p q : Word} :
    e.Shows p q ↔ rgbOf e.rmask e.gmask e.bmask q = e.widened (macRgb e.pixelSize p) := by
  rw [ScreenBlitFuncInfo.Shows, if_neg hdepth]

theorem converts_index {d : Nat} (hd : d = 1 ∨ d = 8) :
    Converts ⟨d, 0, 0, 0, .copyRaw, .copyRaw⟩ native 1 id := by
  have hsmall : d ≤ 8 := by omega
  have hraw : ScreenBlitFuncInfo.handler ⟨d, 0, 0, 0, .copyRaw, .copyRaw⟩ native = .copyRaw := by
    cases native <;> rfl
  refine ⟨if_pos hsmall, .inl rfl, fun u src s length m d _ => blit_copyRaw (by decide) hraw, fun x => ?_⟩
  rw [ScreenBlitFuncInfo.Shows, if_pos hsmall, ScreenBlitFuncInfo.Convertible, hraw]
  refine iff_of_true ?_ fun h => absurd h (show ¬(0 : Word) = 0xff00 by decide)
  cases native <;> rfl

theorem converts_rgb555 {d : Nat} (hd : d = 15 ∨ d = 16) :
    ∃ f, Converts ⟨d, 0x007c00, 0x0003e0, 0x00001f, .rgb555NBO, .copyRaw⟩ native 2 f := by
  have hsize : ScreenBlitFuncInfo.pixelSize ⟨d, 0x007c00, 0x0003e0, 0x00001f, .rgb555NBO, .copyRaw⟩ = 2 := by
    rcases hd with rfl | rfl <;> rfl
  cases native with
  | true =>
    refine ⟨swapBytes, hsize, by decide, fun u src s length m d hlen => blit_words rfl wordMacros_rgb555NBO hlen,
      fun x => ?_⟩
    rw [shows_iff (show ¬d ≤ 8 by omega), hsize]
    exact iff_of_true (rgbOf_rgb555 _) trivial
  | false =>
    refine ⟨id, hsize, by decide, fun u src s length m d _ => blit_copyRaw (by decide) rfl, fun x => ?_⟩
    rw [shows_iff (show ¬d ≤ 8 by omega), hsize]
    exact iff_of_true (rgbOf_rgb555 _) fun h => absurd h (show ¬(0x7c00 : Word) = 0xff00 by decide)

theorem converts_bgr555 :
    ∃ f, Converts ⟨15, 0x00001f, 0x0003e0, 0x007c00, .bgr555NBO, .bgr555OBO⟩ native 2 f := by
  cases native with
  | true =>
    refine ⟨bgr555, rfl, by decide, fun u src s length m d hlen => blit_words rfl wordMacros_bgr555NBO hlen,
      fun x => ?_⟩
    rw [shows_iff (by decide)]
    exact iff_of_true (rgbOf_bgr555 x) trivial
  | false =>
    refine ⟨bgr555Swapped, rfl, by decide,
      fun u src s length m d hlen => blit_words rfl wordMacros_bgr555OBO hlen, fun x => ?_⟩
    rw [shows_iff (by decide)]
    refine iff_of_true ?_ trivial
    show rgbOf 0x1f 0x3e0 0x7c00 ((swapBytes (bgr555Swapped x)).setWidth 32) = _
    rw [swapBytes_bgr555Swapped]
    exact rgbOf_bgr555 x

theorem converts_rgb565 :
    ∃ f, Converts ⟨16, 0x00f800, 0x0007e0, 0x00001f, .rgb565NBO, .rgb565OBO⟩ native 2 f := by
  cases native with
  | true =>
    refine ⟨rgb565, rfl, by decide, fun u src s length m d hlen => blit_words rfl wordMacros_rgb565NBO hlen,
      fun x => ?_⟩
    rw [shows_iff (by decide)]
    exact iff_of_true (rgbOf_rgb565 x) trivial
  | false =>
    refine ⟨rgb565Swapped, rfl, by decide,
      fun u src s length m d hlen => blit_words rfl wordMacros_rgb565OBO hlen, fun x => ?_⟩
    rw [shows_iff (by decide)]
    refine Iff.trans ?_ (green_or_blue_iff (macRgb 2 ((swapBytes x).setWidth 32)).green _)
    show rgbOf 0xf800 0x7e0 0x1f ((swapBytes (rgb565Swapped x)).setWidth 32) = _ ↔ _
    rw [rgbOf_rgb565Swapped]
    constructor
    · exact fun h => congrArg Rgb.green h
    · exact fun h => Rgb.ext rfl h rfl

theorem converts_rgb888 {d : Nat} (hd : d = 24 ∨ d = 32) :
    ∃ f, Converts ⟨d, 0xff0000, 0x00ff00, 0x0000ff, .rgb888NBO, .copyRaw⟩ native 4 f := by
  have hsize : ScreenBlitFuncInfo.pixelSize ⟨d, 0xff0000, 0x00ff00, 0x0000ff, .rgb888NBO, .copyRaw⟩ = 4 := by
    rcases hd with rfl | rfl <;> rfl
  cases native with
  | true =>
    refine ⟨blitRGB888NBO.blit2, hsize, by decide,
      fun u src s length m d hlen => blit_longs rfl longMacros_rgb888NBO hlen, fun x => ?_⟩
    rw [shows_iff (show ¬d ≤ 8 by omega), hsize]
    refine iff_of_true ?_ trivial
    show rgbOf 0xff0000 0xff00 0xff ((blitRGB888NBO.blit2 x).setWidth 32) = _
    rw [rgb888NBO_eq, BitVec.setWidth_eq]
    exact rgbOf_rgb888 _
  | false =>
    refine ⟨id, hsize, by decide, fun u src s length m d _ => blit_copyRaw (by decide) rfl, fun x => ?_⟩
    rw [shows_iff (show ¬d ≤ 8 by omega), hsize]
    exact iff_of_true (rgbOf_rgb888 _) fun h => absurd h (show ¬(0xff0000 : Word) = 0xff00 by decide)

theorem converts_bgr888 {d : Nat} (hd : d = 24 ∨ d = 32) :
    ∃ f, Converts ⟨d, 0x0000ff, 0x00ff00, 0xff0000, .bgr888NBO, .bgr888OBO⟩ native 4 f := by
  have hsize : ScreenBlitFuncInfo.pixelSize ⟨d, 0x0000ff, 0x00ff00, 0xff0000, .bgr888NBO, .bgr888OBO⟩ = 4 := by
    rcases hd with rfl | rfl <;> rfl
  cases native with
  | true =>
    refine ⟨blitBGR888NBO.blit2, hsize, by decide,
      fun u src s length m d hlen => blit_longs rfl longMacros_bgr888NBO hlen, fun x => ?_⟩
    rw [shows_iff (show ¬d ≤ 8 by omega), hsize]
    show rgbOf 0xff 0xff00 0xff0000 ((blitBGR888NBO.blit2 x).setWidth 32) = macRgb 4 (swapLongs x) ↔
      spare (swapLongs x) = (macRgb 4 (swapLongs x)).red ∧ (macRgb 4 (swapLongs x)).green = 0 ∧
        (macRgb 4 (swapLongs x)).blue = 0
    rw [BitVec.setWidth_eq, rgbOf_bgr888NBO, Rgb.ext_iff]
    constructor
    · exact fun ⟨hred, hgreen, hblue⟩ => ⟨hred, hgreen.symm, hblue.symm.trans hgreen.symm⟩
    · exact fun ⟨hred, hgreen, hblue⟩ => ⟨hred, hgreen.symm, hgreen.trans hblue.symm⟩
  | false =>
    refine ⟨blitBGR888OBO.blit2, hsize, by decide,
      fun u src s length m d hlen => blit_longs rfl longMacros_bgr888OBO hlen, fun x => ?_⟩
    rw [shows_iff (show ¬d ≤ 8 by omega), hsize]
    show rgbOf 0xff 0xff00 0xff0000 (swapLongs (blitBGR888OBO.blit2 x)) = macRgb 4 (swapLongs x) ↔
      (macRgb 4 (swapLongs x)).red = 0 ∧ (macRgb 4 (swapLongs x)).blue = 0 ∧
        (macRgb 4 (swapLongs x)).green ||| spare (swapLongs x) = (macRgb 4 (swapLongs x)).green
    rw [rgbOf_bgr888OBO, Rgb.ext_iff]
    constructor
    · exact fun ⟨hred, hgreen, hblue⟩ => ⟨hred.symm, hblue.symm, hgreen⟩
    · exact fun ⟨hred, hblue, hgreen⟩ => ⟨hred.symm, hgreen, hblue.symm⟩

theorem converts_raw :
    Converts ⟨32, 0xff00, 0xff0000, 0xff000000, .copyRaw, .copyRaw⟩ native 4 id := by
  have hraw : ScreenBlitFuncInfo.handler ⟨32, 0xff00, 0xff0000, 0xff000000, .copyRaw, .copyRaw⟩ native =
      .copyRaw := by
    cases native <;> rfl
  refine ⟨rfl, by decide, fun u src s length m d _ => blit_copyRaw (by decide) hraw, fun x => ?_⟩
  rw [shows_iff (by decide), ScreenBlitFuncInfo.Convertible, hraw]
  cases native with
  | true =>
    refine iff_of_true ?_ fun _ h => by cases h
    show rgbOf 0xff00 0xff0000 0xff000000 (BitVec.setWidth 32 (x : BitVec 32)) = _
    rw [BitVec.setWidth_eq]
    exact rgbOf_raw x
  | false =>
    show rgbOf 0xff00 0xff0000 0xff000000 (swapLongs x) = macRgb 4 (swapLongs x) ↔ _
    rw [rgbOf_rawSwapped, Rgb.ext_iff]
    constructor
    · exact fun ⟨hred, _, hblue⟩ _ _ => ⟨hred, hblue⟩
    · intro h
      obtain ⟨hred, hblue⟩ := h rfl rfl
      exact ⟨hred, hred.symm, hblue⟩

theorem exists_converts (he : e ∈ screenBlitters) (native : Bool) : ∃ n f, Converts e native n f := by
  simp only [screenBlitters, List.mem_cons, List.not_mem_nil, or_false] at he
  rcases he with rfl | rfl | rfl | rfl | rfl | rfl | rfl | rfl | rfl | rfl | rfl
  · exact ⟨1, id, converts_index (.inl rfl)⟩
  · exact ⟨1, id, converts_index (.inr rfl)⟩
  · exact ⟨2, converts_rgb555 (.inl rfl)⟩
  · exact ⟨2, converts_bgr555⟩
  · exact ⟨2, converts_rgb555 (.inr rfl)⟩
  · exact ⟨2, converts_rgb565⟩
  · exact ⟨4, converts_rgb888 (.inl rfl)⟩
  · exact ⟨4, converts_bgr888 (.inl rfl)⟩
  · exact ⟨4, converts_rgb888 (.inr rfl)⟩
  · exact ⟨4, converts_bgr888 (.inr rfl)⟩
  · exact ⟨4, id, converts_raw⟩

-- ---------------------------------------------------------------------------
-- Exactness
-- ---------------------------------------------------------------------------

/-- Equal bytes make equal pixels. -/
theorem eq_of_lanes {x y : BitVec (8 * n)} (h : ∀ j < n, lane 8 x j = lane 8 y j) : x = y := by
  refine BitVec.eq_of_getLsbD_eq fun i hi => ?_
  have hbit := congrArg (fun z : Byte => z.getLsbD (i % 8)) (h (i / 8) (by omega))
  simp only [getLsbD_lane, decide_eq_true (Nat.mod_lt i (show 0 < 8 by decide)), Bool.true_and,
    Nat.div_add_mod] at hbit
  exact hbit

theorem pixelAt_convertedRow {f : BitVec (8 * n) → BitVec (8 * n)} {i : Nat} (hi : n * (i + 1) ≤ len) :
    pixelAt n (convertedRow n f src s m d len) (d + n * i) = f (pixelAt n src (s + n * i)) := by
  refine eq_of_lanes fun j hj => ?_
  rw [Nat.mul_succ] at hi
  rw [lane_pixelAt _ _ hj, convertedRow, if_pos (by omega),
    show d + n * i + j - d = j + n * i by omega, Nat.add_mul_div_left _ _ (by omega),
    Nat.add_mul_mod_self_left, Nat.div_eq_of_lt hj, Nat.mod_eq_of_lt hj, Nat.zero_add]

theorem setWidth_pixelAt (hn : n = 1 ∨ n = 2 ∨ n = 4) (m : HostMemory) (a : Nat) :
    (pixelAt n m a).setWidth 32 = BitVec.ofNat 32 (readLE m a n) := by
  have hlt := readLE_lt m a n
  refine BitVec.eq_of_toNat_eq ?_
  rw [BitVec.toNat_setWidth, pixelAt, BitVec.toNat_ofNat, BitVec.toNat_ofNat]
  rcases hn with rfl | rfl | rfl
  · omega
  · omega
  · omega

theorem bigEndian_pixelAt (hn : n = 1 ∨ n = 2 ∨ n = 4) (m : HostMemory) (a : Nat) :
    bigEndian n (pixelAt n m a) = BitVec.ofNat 32 (readBE m a n) := by
  rcases hn with rfl | rfl | rfl
  · refine (setWidth_pixelAt (.inl rfl) m a).trans (congrArg (BitVec.ofNat 32) ?_)
    show (m a).toNat + 256 * 0 = 256 * 0 + (m (a + 0)).toNat
    rw [Nat.add_zero, Nat.mul_zero, Nat.zero_add, Nat.add_zero]
  · exact (readBE_two m a).symm
  · exact (readBE_four m a).symm

/-- A blitter is right exactly for the rows that it does not take for longer ones and whose
pixels it converts. -/
theorem right_iff (he : e ∈ screenBlitters) (hlen : e.pixelSize ∣ length.toNat) :
    e.Right native u src s length d ↔
      ¬Wraps (e.handler native) u s length ∧
        ∀ i < length.toNat / e.pixelSize,
          e.Convertible native (macPixel e.pixelSize src (s + e.pixelSize * i)) := by
  obtain ⟨n, f, h⟩ := exists_converts he native
  obtain rfl := h.size
  by_cases hwraps : Wraps (e.handler native) u s length
  · refine iff_of_false (fun hright => ?_) fun hno => hno.1 hwraps
    -- The byte at the start of the row is written, but is not one of the row.
    let written := lane 8 (f (pixelAt e.pixelSize src (s + e.pixelSize * 0))) 0
    obtain ⟨hsame, -⟩ := hright fun _ => written + 1
    have hempty : length.toNat = 0 := by rw [hwraps.2.2]; rfl
    have hbyte := hsame d (by rw [hempty]; omega)
    rw [h.blit _ _ _ _ _ _ hlen, if_pos hwraps, convertedRow, if_pos (by omega), Nat.sub_self, Nat.zero_div,
      Nat.zero_mod] at hbyte
    have hnext : written = written + 1 := hbyte
    simp at hnext
  · rw [and_iff_right hwraps, ScreenBlitFuncInfo.Right]
    simp only [h.blit _ _ _ _ _ _ hlen, if_neg hwraps]
    have hpixels : ∀ m, ∀ i < length.toNat / e.pixelSize,
        (e.Shows (macPixel e.pixelSize src (s + e.pixelSize * i))
          (shownPixel native e.pixelSize (convertedRow e.pixelSize f src s m d length.toNat)
            (d + e.pixelSize * i)) ↔
          e.Convertible native (macPixel e.pixelSize src (s + e.pixelSize * i))) := by
      intro m i hi
      have hin : e.pixelSize * (i + 1) ≤ length.toNat := by
        exact (Nat.mul_le_mul_left _ hi).trans (Nat.mul_div_le ..)
      have hmac : macPixel e.pixelSize src (s + e.pixelSize * i) =
          bigEndian e.pixelSize (pixelAt e.pixelSize src (s + e.pixelSize * i)) :=
        (bigEndian_pixelAt h.one src _).symm
      have hshown : shownPixel native e.pixelSize (convertedRow e.pixelSize f src s m d length.toNat)
          (d + e.pixelSize * i) =
          if native then (f (pixelAt e.pixelSize src (s + e.pixelSize * i))).setWidth 32
          else bigEndian e.pixelSize (f (pixelAt e.pixelSize src (s + e.pixelSize * i))) := by
        rw [← @pixelAt_convertedRow _ _ src m s d f i hin, setWidth_pixelAt h.one, bigEndian_pixelAt h.one,
          shownPixel, apply_ite (BitVec.ofNat 32)]
      rw [hmac, hshown]
      exact h.shows _
    constructor
    · exact fun hright i hi => (hpixels (fun _ => 0) i hi).mp ((hright fun _ => 0).2.2 i hi)
    · intro hconv m
      refine ⟨fun x hx => if_neg hx, fun m₂ x hlow hhigh => ?_, fun i hi => (hpixels m i hi).mpr (hconv i hi)⟩
      rw [convertedRow, convertedRow, if_pos ⟨hlow, hhigh⟩, if_pos ⟨hlow, hhigh⟩]

/-- Three pixels behind the middle of a 32-bit word. -/
theorem right_rgb565 :
    ScreenBlitFuncInfo.Right ⟨16, 0x00f800, 0x0007e0, 0x00001f, .rgb565NBO, .rgb565OBO⟩ true false
      (fun a => BitVec.ofNat 8 (37 * a)) 2 6 0 :=
  (right_iff (by decide) (by decide)).mpr ⟨by decide, fun _ _ => trivial⟩

/-- A pixel of half blue has a little green in RGB565 of the opposite byte order. -/
theorem blue_not_shown :
    ¬∀ e ∈ screenBlitters, ∀ native u src s length d, e.pixelSize ∣ length.toNat →
      e.Right native u src s length d := by
  intro hall
  have hright := hall ⟨16, 0x00f800, 0x0007e0, 0x00001f, .rgb565NBO, .rgb565OBO⟩ (by decide) false true
    (fun a => if a = 1 then 0x10 else 0) 0 2 0 (by decide)
  have hpixel : rgbOf 0xf800 0x7e0 0x1f (BitVec.ofNat 32 (readBE (Handler.blit .rgb565OBO true
      (fun a => if a = 1 then 0x10 else 0) 0 2 (fun _ => 0) 0) 0 2)) = ⟨0, 0, 0x10⟩ :=
    (hright fun _ => 0).2.2 0 (by decide)
  revert hpixel
  decide +kernel

end SheepShear.Video.Blit
