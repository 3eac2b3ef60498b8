import SheepShear.Video.VosfUpdates

/-!
# Marking an area

Every page with a byte of the area that is on the screen is marked, in all depths
and wherever the area is. A pixel of several bytes is found by its first one: it
does not reach over the end of a page.
-/

namespace SheepShear.Video

/-- `VIDEO_DEPTH_1BIT` and so on. -/
inductive Depth where
  | bit1
  | bit2
  | bit4
  | bit8
  | bit16
  | bit32
deriving DecidableEq, Repr

/-- The pixels of a byte, or the bytes of a pixel. -/
def Depth.pixelsPerByte : Depth → Nat
  | .bit1 => 8
  | .bit2 => 4
  | .bit4 => 2
  | _ => 1

def Depth.bytesPerPixel : Depth → Nat
  | .bit16 => 2
  | .bit32 => 4
  | _ => 1

/-- The scanlines of a mode have no bytes to spare, and a page holds a pixel at least. -/
structure Mode (g : Geometry) (depth : Depth) : Prop where
  exact : g.rowBytes * depth.pixelsPerByte = g.width * depth.bytesPerPixel
  page : depth.bytesPerPixel ≤ g.pageSize

/-- The first of the bytes a pixel of a scanline is in. -/
def Depth.firstByte (depth : Depth) (column : Nat) : Nat :=
  column * depth.bytesPerPixel / depth.pixelsPerByte

/-- A byte of the part of an area that is on the screen. -/
def InArea (g : Geometry) (depth : Depth) (x y w h : Int) (b : Nat) : Prop :=
  ∃ line column i : Nat, line < g.height ∧ column < g.width ∧ i < depth.bytesPerPixel ∧
    y ≤ line ∧ line < y + h ∧ x ≤ column ∧ column < x + w ∧
    b = line * g.rowBytes + depth.firstByte column + i

variable {g : Geometry} {depth : Depth} {s : Screen}

-- ---------------------------------------------------------------------------
-- Pixels and pages
-- ---------------------------------------------------------------------------

/-- What is smaller than `n` does not matter above a multiple of `n`. -/
theorem div_mul_of_lt {n q r m : Nat} (hr : r < n) : (n * q + r) / (n * m) = n * q / (n * m) := by
  rw [← Nat.div_div_eq_div_mul, Nat.mul_add_div (by omega), Nat.div_eq_of_lt hr, Nat.add_zero,
    ← Nat.div_div_eq_div_mul, Nat.mul_div_cancel_left _ (by omega)]

theorem Mode.bytesPerPixel_dvd (h : Mode g depth) : depth.bytesPerPixel ∣ g.pageSize := by
  have hpage := h.page
  have hpow : ∃ k, depth.bytesPerPixel = 2 ^ k := by
    cases depth
    case bit16 => exact ⟨1, rfl⟩
    case bit32 => exact ⟨2, rfl⟩
    all_goals exact ⟨0, rfl⟩
  obtain ⟨k, hk⟩ := hpow
  rw [hk] at hpage ⊢
  exact (Nat.pow_dvd_pow_iff_le_right (by decide)).mpr ((Nat.pow_le_pow_iff_right (by decide)).mp hpage)

theorem Depth.bytes_or_bits (depth : Depth) :
    depth.pixelsPerByte = 1 ∧ 0 < depth.bytesPerPixel ∨
      depth.bytesPerPixel = 1 ∧ 1 < depth.pixelsPerByte := by
  cases depth <;> decide

/-- A pixel is on the page of its first byte. -/
theorem Mode.page_eq (h : Mode g depth) (line column : Nat) {i : Nat} (hi : i < depth.bytesPerPixel) :
    (line * g.rowBytes + depth.firstByte column + i) / g.pageSize =
      (line * g.rowBytes + depth.firstByte column) / g.pageSize := by
  obtain ⟨m, hm⟩ := h.bytesPerPixel_dvd
  have haligned : ∃ q, line * g.rowBytes + depth.firstByte column = depth.bytesPerPixel * q := by
    have hexact := h.exact
    obtain ⟨hone, -⟩ | ⟨hone, -⟩ := depth.bytes_or_bits
    · rw [hone, Nat.mul_one] at hexact
      rw [Depth.firstByte, hone, Nat.div_one, hexact]
      exact ⟨line * g.width + column, by ring⟩
    · rw [hone]
      exact ⟨_, (Nat.one_mul _).symm⟩
  obtain ⟨q, hq⟩ := haligned
  rw [hq, hm]
  exact div_mul_of_lt hi

/-- The columns of an area in bytes. -/
theorem Mode.columns_eq (h : Mode g depth) {x w : Int} (hx : 0 ≤ x) (hw : 0 < w) :
    columns g x w = (↑(depth.firstByte x.toNat), ↑(depth.firstByte (x + w - 1).toNat)) := by
  have hexact := h.exact
  have hwidth := g.width_pos
  have hrow := g.rowBytes_pos
  have hcast : ∀ {z : Int}, 0 ≤ z → ((z.toNat : Nat) : Int) = z := Int.toNat_of_nonneg
  obtain ⟨hone, hpos⟩ | ⟨hone, hlt⟩ := depth.bytes_or_bits
  · rw [hone, Nat.mul_one] at hexact
    have hge : g.rowBytes ≥ g.width := hexact ▸ Nat.le_mul_of_pos_right _ hpos
    have hdiv : (g.rowBytes : Int) / g.width = depth.bytesPerPixel := by
      rw [hexact]
      push_cast
      exact Int.mul_ediv_cancel_left _ (by omega)
    rw [columns, if_pos hge, hdiv]
    simp only [Depth.firstByte, hone, Nat.div_one]
    push_cast
    rw [hcast hx, hcast (by omega)]
  · rw [hone, Nat.mul_one] at hexact
    have hless : ¬g.rowBytes ≥ g.width := by
      have hmul : g.rowBytes * 1 < g.rowBytes * depth.pixelsPerByte :=
        Nat.mul_lt_mul_of_pos_left hlt hrow
      omega
    have hdiv : (g.width : Int) / g.rowBytes = depth.pixelsPerByte := by
      rw [← hexact]
      push_cast
      exact Int.mul_ediv_cancel_left _ (by omega)
    rw [columns, if_neg hless, hdiv]
    simp only [Depth.firstByte, hone, Nat.mul_one]
    push_cast
    rw [hcast hx, hcast (by omega)]

theorem Depth.firstByte_mono (depth : Depth) {c c' : Nat} (h : c ≤ c') :
    depth.firstByte c ≤ depth.firstByte c' :=
  Nat.div_le_div_right (Nat.mul_le_mul_right _ h)

-- ---------------------------------------------------------------------------
-- Coverage
-- ---------------------------------------------------------------------------

theorem touchPage_dirtyPages (p q : Nat) :
    (s.touchPage q).dirtyPages p = true ↔ p = q ∨ s.dirtyPages p = true := by
  unfold Screen.touchPage
  split_ifs with hdirty
  · exact ⟨.inr, by rintro (rfl | h); exacts [hdirty, h]⟩
  · change Function.update s.dirtyPages q true p = true ↔ _
    by_cases heq : p = q
    · rw [heq, Function.update_self]
      simp
    · rw [Function.update_of_ne heq]
      simp [heq]

theorem touchAll_keeps {p : Nat} {l : List Int} (h : s.dirtyPages p = true) :
    (s.touchAll l).dirtyPages p = true := by
  induction l generalizing s with
  | nil => exact h
  | cons i l ih => exact ih ((touchPage_dirtyPages ..).mpr (.inr h))

theorem touchAll_dirty {p : Nat} {l : List Int} (h : (p : Int) ∈ l) :
    (s.touchAll l).dirtyPages p = true := by
  induction l generalizing s with
  | nil => cases h
  | cons i l ih =>
    obtain rfl | h := List.mem_cons.mp h
    · change ((s.touchPage (p : Int).toNat).touchAll l).dirtyPages p = true
      exact touchAll_keeps ((touchPage_dirtyPages ..).mpr (.inl (Int.toNat_natCast p).symm))
    · exact ih h

/-- Rows that hold a byte mark its page. -/
theorem mem_rowPages {column lastColumn line k : Nat} {y h : Int} (hline : y ≤ line)
    (hlast : (line : Int) < y + h) (hcolumn : column ≤ k) (hk : k ≤ lastColumn) :
    (((line * g.rowBytes + k) / g.pageSize : Nat) : Int) ∈ rowPages g column lastColumn y h := by
  have hsize : (0 : Int) < g.pageSize := by exact_mod_cast g.pageSize_pos
  have hrow : (0 : Int) ≤ g.rowBytes := Int.natCast_nonneg _
  have hcast : (((line * g.rowBytes + k) / g.pageSize : Nat) : Int) =
      ((line : Int) * g.rowBytes + k) / g.pageSize := by push_cast; rfl
  rw [hcast, rowPages]
  split_ifs
  · refine mem_areaPages.mpr ⟨Int.ediv_le_ediv hsize ?_, Int.ediv_le_ediv hsize ?_⟩
    · have hmul : y * g.rowBytes ≤ line * (g.rowBytes : Int) := mul_le_mul_of_nonneg_right hline hrow
      omega
    · have hmul : line * (g.rowBytes : Int) ≤ (y + h - 1) * g.rowBytes :=
        mul_le_mul_of_nonneg_right (by omega) hrow
      omega
  · refine mem_linePages.mpr ⟨line, hline, by omega, mem_areaPages.mpr ⟨?_, ?_⟩⟩
    · exact Int.ediv_le_ediv hsize (by omega)
    · exact Int.ediv_le_ediv hsize (by omega)

/-- The clipped interval holds what is on the screen. -/
theorem clip_spec {size z : Nat} {x w : Int} (hz : z < size) (hx : x ≤ z) (hw : (z : Int) < x + w) :
    0 < (clipStart x w).2 ∧ (clipStart x w).1 ≤ z ∧
      (z : Int) < (clipStart x w).1 + clipEnd size (clipStart x w).1 (clipStart x w).2 := by
  unfold clipStart clipEnd
  split_ifs <;> dsimp only at * <;> omega

/-- The page of each byte of the area is among those that are marked. -/
theorem Mode.mem_dirtyAreaPages (hmode : Mode g depth) {x y w h : Int} {b : Nat}
    (hb : InArea g depth x y w h b) : ((b / g.pageSize : Nat) : Int) ∈ dirtyAreaPages g x y w h := by
  obtain ⟨line, column, i, hline, hcolumn, hi, hy, hh, hx, hw, rfl⟩ := hb
  obtain ⟨hw', hx', hcol⟩ := clip_spec hcolumn hx hw
  obtain ⟨hh', hy', hrow⟩ := clip_spec hline hy hh
  have hxpos := clipStart_nonneg x w
  rw [hmode.page_eq line column hi, dirtyAreaPages]
  dsimp only
  rw [if_neg (by omega), hmode.columns_eq hxpos (by omega)]
  exact mem_rowPages hy' hrow (depth.firstByte_mono (by omega))
    (depth.firstByte_mono (by omega))

/-- While no update is in progress: an area of any size and at any place marks every page with a
byte of it, and no flag outside the table is read or written. -/
theorem dirty_area_marked (hmode : Mode g depth) (buffer : Nat → Byte)
    (hrun : Steps.Reaches (step g) (fun _ _ => True) (.init g buffer) s) (hidle : s.phase = .idle)
    (x y w h : Int) :
    (setDirtyArea g x y w h s = s ∧ dirtyAreaPages g x y w h = [] ∨
      setDirtyArea g x y w h s = { s.touchAll (dirtyAreaPages g x y w h) with dirty := true }) ∧
    (∀ i ∈ dirtyAreaPages g x y w h, 0 ≤ i ∧ i < g.pageCount) ∧
      ∀ b, InArea g depth x y w h b →
        (setDirtyArea g x y w h s).dirtyPages (b / g.pageSize) = true ∧
        (setDirtyArea g x y w h s).writable (b / g.pageSize) = true := by
  refine ⟨setDirtyArea_touches g x y w h s, dirtyAreaPages_bound g x y w h, fun b hb => ?_⟩
  have hmem := hmode.mem_dirtyAreaPages hb
  have hdirty : (setDirtyArea g x y w h s).dirtyPages (b / g.pageSize) = true := by
    obtain ⟨-, hnil⟩ | heq := setDirtyArea_touches g x y w h s
    · rw [hnil] at hmem
      cases hmem
    · rw [heq]
      exact touchAll_dirty hmem
  refine ⟨hdirty, ?_⟩
  have hpage : b / g.pageSize < g.pageCount := by
    have hbound := (dirtyAreaPages_bound g x y w h _ hmem).2
    exact_mod_cast hbound
  have hnext : Steps.Reaches (step g) (fun _ _ => True) (.init g buffer) (setDirtyArea g x y w h s) :=
    hrun.next (a := .setDirtyArea x y w h) trivial (by simp only [step, hidle])
  have hphase : (setDirtyArea g x y w h s).phase = .idle := by
    obtain heq | ⟨s', hmarked, heq⟩ := setDirtyArea_eq g x y w h s
    · rw [heq, hidle]
    · rw [heq]
      exact hmarked.phase.trans hidle
  exact ((screen_consistent g buffer hnext hphase).writable _ hpage).mpr hdirty

/-- An area that reaches over all edges but the upper one. -/
theorem offScreen_marked :
    (setDirtyArea smallScreen (-3) 1 100 100 (.init smallScreen fun _ => 0)).dirtyPages 1 = true :=
  ((dirty_area_marked (show Mode smallScreen .bit8 from ⟨by decide, by decide⟩) _ .start rfl
    (-3) 1 100 100).2.2 4 ⟨1, 0, 0, by decide⟩).1

end SheepShear.Video
