import SheepShear.Video.Vosf

/-!
# No update of the screen is lost

Between updates, every byte that differs from what was last blitted lies on a
dirty page, and the dirty pages are the writable ones. During an update the
bytes of the pages whose flags are already clear wait for their copy instead.
-/

namespace SheepShear.Video

-- ---------------------------------------------------------------------------
-- Searching the flags
-- ---------------------------------------------------------------------------

section
variable {p : Nat → Bool}

/-- Only pages with `p` are passed over. -/
theorem skipFour_spec (left page : Nat) :
    page ≤ skipFour p left page ∧ ∀ i, page ≤ i → i < skipFour p left page → p i = true := by
  induction left generalizing page with
  | zero =>
    refine ⟨le_rfl, ?_⟩
    intro i hi hlt
    exact absurd hlt (by simp only [skipFour]; omega)
  | succ left ih =>
    unfold skipFour
    split_ifs with h
    · simp only [Bool.and_eq_true] at h
      obtain ⟨⟨⟨h0, h1⟩, h2⟩, h3⟩ := h
      obtain ⟨hle, hall⟩ := ih (page + 4)
      refine ⟨by omega, ?_⟩
      intro i hi hlt
      obtain rfl | rfl | rfl | rfl | hge :
          i = page ∨ i = page + 1 ∨ i = page + 2 ∨ i = page + 3 ∨ page + 4 ≤ i := by omega
      exacts [h0, h1, h2, h3, hall i hge hlt]
    · refine ⟨le_rfl, ?_⟩
      intro i hi hlt
      omega

theorem skipOne_spec (left page : Nat) {stop : Nat} (hle : page ≤ stop) (hstop : p stop = false)
    (hleft : stop < page + left) :
    page ≤ skipOne p left page ∧ skipOne p left page ≤ stop ∧ p (skipOne p left page) = false ∧
      ∀ i, page ≤ i → i < skipOne p left page → p i = true := by
  induction left generalizing page with
  | zero => omega
  | succ left ih =>
    unfold skipOne
    split_ifs with h
    · have hne : page ≠ stop := by
        rintro rfl
        simp [h] at hstop
      obtain ⟨hge, hle', hfound, hall⟩ := ih (page + 1) (by omega) (by omega)
      refine ⟨by omega, hle', hfound, ?_⟩
      intro i hi hlt
      obtain rfl | hgt : i = page ∨ page + 1 ≤ i := by omega
      · exact h
      · exact hall i hgt hlt
    · refine ⟨le_rfl, hle, by simpa using h, ?_⟩
      intro i hi hlt
      omega

/-- The search finds the first page without `p` when there is one within its bound. -/
theorem findNext_spec {bound page stop : Nat} (hle : page ≤ stop) (hstop : p stop = false)
    (hbound : stop < bound) :
    page ≤ findNext p bound page ∧ findNext p bound page ≤ stop ∧
      p (findNext p bound page) = false ∧
      ∀ i, page ≤ i → i < findNext p bound page → p i = true := by
  obtain ⟨hge, hfour⟩ := skipFour_spec (p := p) bound page
  have hnot : skipFour p bound page ≤ stop := by
    by_contra hgt
    have := hfour stop hle (by omega)
    simp [hstop] at this
  obtain ⟨hge', hle', hfound, hone⟩ := skipOne_spec bound _ hnot hstop (by omega)
  refine ⟨hge.trans hge', hle', hfound, ?_⟩
  intro i hi hlt
  by_cases h : i < skipFour p bound page
  · exact hfour i hi h
  · exact hone i (not_lt.mp h) hlt

end

-- ---------------------------------------------------------------------------
-- Scanlines of pages
-- ---------------------------------------------------------------------------

section
variable {g : Geometry}

theorem Geometry.pageSize_pos (g : Geometry) : 0 < g.pageSize := Nat.two_pow_pos _

theorem Geometry.pageInfoFrom_getD {left i k : Nat} (hleft : k + left = g.pageCount) (hi : i < left) :
    (g.pageInfoFrom left (k * g.pageSize)).getD i default =
      ⟨g.clampLine ((k + i) * g.pageSize / g.rowBytes),
        g.clampLine ((k + i + 1) * g.pageSize / g.rowBytes)⟩ := by
  induction left generalizing i k with
  | zero => omega
  | succ left ih =>
    have hnext : k * g.pageSize + g.pageSize = (k + 1) * g.pageSize := (Nat.succ_mul ..).symm
    have hroom : ¬ (k + 1) * g.pageSize > g.memLength := by
      rw [not_lt, Geometry.memLength]
      exact Nat.mul_le_mul_right _ (by omega)
    unfold Geometry.pageInfoFrom
    dsimp only
    rw [hnext, if_neg hroom]
    cases i with
    | zero => simp
    | succ i =>
      rw [List.getD_cons_succ, ih (by omega) (by omega)]
      simp only [Nat.add_assoc, Nat.add_comm 1]

theorem Geometry.pageInfo_getD {i : Nat} (hi : i < g.pageCount) :
    g.pageInfo.getD i default = ⟨g.clampLine (i * g.pageSize / g.rowBytes),
      g.clampLine ((i + 1) * g.pageSize / g.rowBytes)⟩ := by
  have h := g.pageInfoFrom_getD (k := 0) (by omega) hi
  simpa [Geometry.pageInfo] using h

/-- The first scanline of a page begins no later than the bytes of the page. -/
theorem Geometry.top_mul_le {i b : Nat} (hi : i < g.pageCount) (hb : i ≤ b / g.pageSize) :
    (g.pageInfo.getD i default).top * g.rowBytes ≤ b := by
  have hclamp : g.clampLine (i * g.pageSize / g.rowBytes) ≤ i * g.pageSize / g.rowBytes := by
    unfold Geometry.clampLine
    split_ifs <;> omega
  rw [g.pageInfo_getD hi]
  calc g.clampLine (i * g.pageSize / g.rowBytes) * g.rowBytes
      ≤ i * g.pageSize / g.rowBytes * g.rowBytes := Nat.mul_le_mul_right _ hclamp
    _ ≤ i * g.pageSize := Nat.div_mul_le_self ..
    _ ≤ b := (Nat.le_div_iff_mul_le g.pageSize_pos).mp hb

/-- The last one ends after every byte of the screen that is on the page or before it. -/
theorem Geometry.lt_bottom_mul {i b : Nat} (hi : i < g.pageCount) (hb : b / g.pageSize ≤ i)
    (hscreen : b < g.height * g.rowBytes) :
    b < ((g.pageInfo.getD i default).bottom + 1) * g.rowBytes := by
  have hline : b / g.rowBytes < g.height := (Nat.div_lt_iff_lt_mul g.rowBytes_pos).mpr hscreen
  have hpage : b ≤ (i + 1) * g.pageSize :=
    ((Nat.div_lt_iff_lt_mul g.pageSize_pos).mp (Nat.lt_succ_of_le hb)).le
  have hle : b / g.rowBytes ≤ (i + 1) * g.pageSize / g.rowBytes := Nat.div_le_div_right hpage
  rw [g.pageInfo_getD hi, ← Nat.div_lt_iff_lt_mul g.rowBytes_pos]
  dsimp only [Geometry.clampLine]
  split_ifs <;> omega

end

-- ---------------------------------------------------------------------------
-- Marking pages
-- ---------------------------------------------------------------------------

/-- Some pages of the screen have been marked dirty and made writable, and nothing else. -/
structure Marked (g : Geometry) (s s' : Screen) : Prop where
  buffer : s'.buffer = s.buffer
  shown : s'.shown = s.shown
  phase : s'.phase = s.phase
  pages : ∀ p, (s'.dirtyPages p = s.dirtyPages p ∧ s'.writable p = s.writable p) ∨
    (p < g.pageCount ∧ s'.dirtyPages p = true ∧ s'.writable p = true)

section
variable {g : Geometry} {s s₁ s₂ : Screen}

theorem Marked.refl (s : Screen) : Marked g s s := ⟨rfl, rfl, rfl, fun _ => .inl ⟨rfl, rfl⟩⟩

theorem Marked.trans (h : Marked g s s₁) (h' : Marked g s₁ s₂) : Marked g s s₂ := by
  refine ⟨h'.buffer.trans h.buffer, h'.shown.trans h.shown, h'.phase.trans h.phase, ?_⟩
  intro p
  obtain ⟨hd', hw'⟩ | hmarked := h'.pages p
  · rw [hd', hw']
    exact h.pages p
  · exact .inr hmarked

theorem touchPage_marked {p : Nat} (hp : p < g.pageCount) : Marked g s (s.touchPage p) := by
  unfold Screen.touchPage
  split_ifs
  · exact .refl s
  · refine ⟨rfl, rfl, rfl, ?_⟩
    intro q
    obtain rfl | hne := eq_or_ne q p
    · exact .inr ⟨hp, by simp, by simp⟩
    · exact .inl ⟨Function.update_of_ne hne .., Function.update_of_ne hne ..⟩

end

-- ---------------------------------------------------------------------------
-- The pages of an area
-- ---------------------------------------------------------------------------

/-- The indices the loop of `vosf_do_set_dirty_area` goes through. -/
def areaPages (g : Geometry) (first last : Int) : List Int :=
  (List.range (last / g.pageSize - first / g.pageSize + 1).toNat).map fun i : Nat =>
    first / g.pageSize + (i : Int)

def linePages (g : Geometry) (column lastColumn : Int) (j : Int) : (count : Nat) → List Int
  | 0 => []
  | count + 1 => areaPages g (j * g.rowBytes + column) (j * g.rowBytes + lastColumn) ++
      linePages g column lastColumn (j + 1) count

def rowPages (g : Geometry) (column lastColumn y h : Int) : List Int :=
  if g.rowBytes ≤ g.pageSize then
    areaPages g (y * g.rowBytes + column) ((y + h - 1) * g.rowBytes + lastColumn)
  else linePages g column lastColumn y h.toNat

/-- The first and the last byte of a clipped area in each of its lines. -/
def columns (g : Geometry) (x w : Int) : Int × Int :=
  if g.rowBytes ≥ g.width then (x * (g.rowBytes / g.width), (x + w - 1) * (g.rowBytes / g.width))
  else (x / (g.width / g.rowBytes), (x + w - 1) / (g.width / g.rowBytes))

/-- The indices of `dirtyPages` that `vosf_set_dirty_area` reads and writes. -/
def dirtyAreaPages (g : Geometry) (x y w h : Int) : List Int :=
  let (x, w) := clipStart x w
  let (y, h) := clipStart y h
  if w ≤ 0 ∨ h ≤ 0 then []
  else
    let (column, lastColumn) := columns g x (clipEnd g.width x w)
    rowPages g column lastColumn y (clipEnd g.height y h)

section
variable {g : Geometry} {s : Screen}

/-- Marking the pages with these indices, in this order. -/
def Screen.touchAll (s : Screen) (pages : List Int) : Screen :=
  pages.foldl (fun s i => s.touchPage i.toNat) s

theorem Screen.touchAll_append (s : Screen) (l l' : List Int) :
    s.touchAll (l ++ l') = (s.touchAll l).touchAll l' := List.foldl_append ..

theorem touchPages_eq (page : Int) (count : Nat) :
    s.touchPages page count = s.touchAll ((List.range count).map fun i : Nat => page + (i : Int)) := by
  induction count generalizing s page with
  | zero => rfl
  | succ count ih =>
    have hnext : (List.range (count + 1)).map (fun i : Nat => page + (i : Int)) =
        page :: (List.range count).map fun i : Nat => page + 1 + (i : Int) := by
      rw [List.range_succ_eq_map, List.map_cons, List.map_map]
      refine congrArg₂ _ (Int.add_zero _) (List.map_congr_left fun i _ => ?_)
      simp only [Function.comp_apply]
      omega
    rw [Screen.touchPages, hnext, ih]
    rfl

theorem doSetDirtyArea_eq (first last : Int) :
    doSetDirtyArea g first last s = s.touchAll (areaPages g first last) := touchPages_eq ..

theorem setDirtyLines_eq (column lastColumn j : Int) (count : Nat) :
    setDirtyLines g column lastColumn j count s =
      s.touchAll (linePages g column lastColumn j count) := by
  induction count generalizing s j with
  | zero => rfl
  | succ count ih =>
    rw [setDirtyLines, linePages, ih, doSetDirtyArea_eq, Screen.touchAll_append]

theorem setDirtyRows_eq (column lastColumn y h : Int) :
    setDirtyRows g column lastColumn y h s = s.touchAll (rowPages g column lastColumn y h) := by
  unfold setDirtyRows rowPages
  split_ifs
  · exact doSetDirtyArea_eq ..
  · exact setDirtyLines_eq ..

theorem markArea_eq (x y w h : Int) : markArea g x y w h s =
    s.touchAll (rowPages g (columns g x w).1 (columns g x w).2 y h) := by
  unfold markArea columns
  dsimp only
  split_ifs
  · exact setDirtyRows_eq ..
  · exact setDirtyRows_eq ..

theorem touchAll_marked {l : List Int} (hl : ∀ i ∈ l, 0 ≤ i ∧ i < g.pageCount) :
    Marked g s (s.touchAll l) := by
  induction l generalizing s with
  | nil => exact .refl s
  | cons i l ih =>
    obtain ⟨⟨hpos, hlt⟩, hl⟩ := List.forall_mem_cons.mp hl
    exact (touchPage_marked (by omega)).trans (ih hl)

theorem mem_areaPages {first last i : Int} :
    i ∈ areaPages g first last ↔ first / g.pageSize ≤ i ∧ i ≤ last / g.pageSize := by
  rw [areaPages, List.mem_map]
  constructor
  · rintro ⟨k, hk, rfl⟩
    rw [List.mem_range] at hk
    omega
  · rintro ⟨hfirst, hlast⟩
    exact ⟨(i - first / g.pageSize).toNat, List.mem_range.mpr (by omega), by omega⟩

theorem mem_linePages {column lastColumn j i : Int} {count : Nat} :
    i ∈ linePages g column lastColumn j count ↔ ∃ line, j ≤ line ∧ line < j + count ∧
      i ∈ areaPages g (line * g.rowBytes + column) (line * g.rowBytes + lastColumn) := by
  induction count generalizing j with
  | zero =>
    refine iff_of_false List.not_mem_nil ?_
    rintro ⟨line, hj, hlt, -⟩
    omega
  | succ count ih =>
    rw [linePages, List.mem_append, ih]
    constructor
    · rintro (hi | ⟨line, hj, hlt, hi⟩)
      · exact ⟨j, le_rfl, by omega, hi⟩
      · exact ⟨line, by omega, by omega, hi⟩
    · rintro ⟨line, hj, hlt, hi⟩
      obtain rfl | hne := eq_or_ne line j
      · exact .inl hi
      · exact .inr ⟨line, by omega, by omega, hi⟩

theorem areaPages_bound {first last : Int} (hfirst : 0 ≤ first) (hlast : last < g.memLength) :
    ∀ i ∈ areaPages g first last, 0 ≤ i ∧ i < g.pageCount := by
  intro i hi
  obtain ⟨hge, hle⟩ := mem_areaPages.mp hi
  have hsize : (0 : Int) < g.pageSize := by exact_mod_cast g.pageSize_pos
  have hlastPage : last / g.pageSize < g.pageCount := by
    rw [Int.ediv_lt_iff_lt_mul hsize]
    exact_mod_cast hlast
  exact ⟨(Int.ediv_nonneg hfirst hsize.le).trans hge, by omega⟩

theorem Geometry.offset_lt {line column : Int} (hline : line < g.height)
    (hcolumn : column < 2 * g.rowBytes) : line * g.rowBytes + column < g.memLength := by
  have hroom : ((g.height + 2) * g.rowBytes : Int) ≤ g.memLength := by exact_mod_cast g.room
  have hlines : (line + 2) * g.rowBytes ≤ (g.height + 2) * (g.rowBytes : Int) :=
    mul_le_mul_of_nonneg_right (by omega) (by omega)
  have hsplit : (line + 2) * g.rowBytes = line * g.rowBytes + 2 * (g.rowBytes : Int) := add_mul ..
  omega

theorem rowPages_bound {column lastColumn y h : Int} (hy : 0 ≤ y) (hcolumn : 0 ≤ column)
    (hlast : lastColumn < 2 * g.rowBytes) (hh : y + h ≤ g.height) :
    ∀ i ∈ rowPages g column lastColumn y h, 0 ≤ i ∧ i < g.pageCount := by
  unfold rowPages
  split_ifs
  · exact areaPages_bound (by positivity) (g.offset_lt (by omega) hlast)
  · intro i hi
    obtain ⟨line, hline, hlt, hi⟩ := mem_linePages.mp hi
    have hpos : 0 ≤ line := by omega
    exact areaPages_bound (by positivity) (g.offset_lt (by omega) hlast) i hi

/-- The last column of an area is within the two scanlines to spare, even when a byte holds a number
of pixels that does not divide the width. -/
theorem Geometry.lastColumn_lt (g : Geometry) {x : Int} (hx : x < g.width) :
    x * (g.rowBytes / g.width : Int) < 2 * g.rowBytes ∧
      (g.rowBytes < g.width → x / (g.width / g.rowBytes : Int) < 2 * g.rowBytes) := by
  have hrow : (0 : Int) < g.rowBytes := by exact_mod_cast g.rowBytes_pos
  have hwidth : (0 : Int) < g.width := by exact_mod_cast g.width_pos
  constructor
  · have hnonneg : (0 : Int) ≤ g.rowBytes / g.width := Int.ediv_nonneg hrow.le hwidth.le
    calc x * (g.rowBytes / g.width : Int)
        ≤ g.width * (g.rowBytes / g.width : Int) := mul_le_mul_of_nonneg_right hx.le hnonneg
      _ ≤ g.rowBytes := Int.mul_ediv_self_le hwidth.ne'
      _ < 2 * g.rowBytes := by omega
  · intro hlt
    have hone : (1 : Int) ≤ g.width / g.rowBytes := by
      rw [Int.le_ediv_iff_mul_le hrow]
      omega
    have hnext : (g.width : Int) < (g.width / g.rowBytes + 1) * g.rowBytes :=
      Int.lt_ediv_add_one_mul_self _ hrow
    rw [Int.ediv_lt_iff_lt_mul (by omega)]
    calc x < g.width := hx
      _ ≤ (g.width / g.rowBytes + 1) * g.rowBytes := hnext.le
      _ ≤ (g.width / g.rowBytes + g.width / g.rowBytes) * g.rowBytes :=
        mul_le_mul_of_nonneg_right (by omega) hrow.le
      _ = 2 * g.rowBytes * (g.width / g.rowBytes) := by ring

theorem columns_bound {x w : Int} (hx : 0 ≤ x) (hw : x + w ≤ g.width) :
    0 ≤ (columns g x w).1 ∧ (columns g x w).2 < 2 * g.rowBytes := by
  obtain ⟨hbytes, hpixels⟩ := g.lastColumn_lt (show x + w - 1 < g.width by omega)
  unfold columns
  split_ifs with hrow
  · exact ⟨by positivity, hbytes⟩
  · exact ⟨by positivity, hpixels (by omega)⟩

theorem clipStart_nonneg (x w : Int) : 0 ≤ (clipStart x w).1 := by
  unfold clipStart
  split_ifs <;> dsimp only <;> omega

theorem clipEnd_le (size : Nat) (x w : Int) : x + clipEnd size x w ≤ size := by
  unfold clipEnd
  split_ifs <;> omega

/-- The flags of the pages on the screen, and no others, are read and written. -/
theorem dirtyAreaPages_bound (g : Geometry) (x y w h : Int) :
    ∀ i ∈ dirtyAreaPages g x y w h, 0 ≤ i ∧ i < g.pageCount := by
  unfold dirtyAreaPages
  dsimp only
  split_ifs
  · exact fun i hi => absurd hi List.not_mem_nil
  · obtain ⟨hcolumn, hlast⟩ := columns_bound (clipStart_nonneg x w) (clipEnd_le g.width _ _)
    exact rowPages_bound (clipStart_nonneg ..) hcolumn hlast (clipEnd_le ..)

/-- An area marks its pages. -/
theorem setDirtyArea_touches (g : Geometry) (x y w h : Int) (s : Screen) :
    setDirtyArea g x y w h s = s ∧ dirtyAreaPages g x y w h = [] ∨
      setDirtyArea g x y w h s = { s.touchAll (dirtyAreaPages g x y w h) with dirty := true } := by
  unfold setDirtyArea dirtyAreaPages
  dsimp only
  split_ifs
  · exact .inl ⟨rfl, rfl⟩
  · exact .inr (by rw [markArea_eq])

theorem setDirtyArea_eq (g : Geometry) (x y w h : Int) (s : Screen) :
    setDirtyArea g x y w h s = s ∨
      ∃ s', Marked g s s' ∧ setDirtyArea g x y w h s = { s' with dirty := true } := by
  obtain ⟨heq, -⟩ | heq := setDirtyArea_touches g x y w h s
  · exact .inl heq
  · exact .inr ⟨_, touchAll_marked (dirtyAreaPages_bound g x y w h), heq⟩

end

-- ---------------------------------------------------------------------------
-- The invariant
-- ---------------------------------------------------------------------------

/-- A byte whose page has a clear flag already and that is still to be copied. -/
def Phase.Pending (g : Geometry) : Phase → Nat → Prop
  | .protect firstPage page, b => firstPage ≤ b / g.pageSize ∧ b / g.pageSize < page
  | .blit firstPage page pos _, b => firstPage ≤ b / g.pageSize ∧ b / g.pageSize < page ∧ pos ≤ b
  | _, _ => False

/-- A page whose flag is clear already and that is still writable. -/
def Phase.Unprotected : Phase → Nat → Prop
  | .protect firstPage page, p => firstPage ≤ p ∧ p < page
  | _, _ => False

/-- What is known of the flags, and of the bytes to copy, while an update runs. -/
def Phase.Valid (g : Geometry) (dirtyPages : Nat → Bool) : Phase → Prop
  | .idle => True
  | .scan page => page ≤ g.pageCount ∧ ∀ p < page, dirtyPages p = false
  | .clear firstPage page => firstPage < page ∧ page ≤ g.pageCount ∧
    (∀ p < firstPage, dirtyPages p = false) ∧ ∀ p, firstPage ≤ p → p < page → dirtyPages p = true
  | .protect firstPage page => firstPage < page ∧ page ≤ g.pageCount ∧
    ∀ p < page, dirtyPages p = false
  | .blit firstPage page _ stop => firstPage < page ∧ page ≤ g.pageCount ∧
    (∀ p < page, dirtyPages p = false) ∧
    ∀ b < g.height * g.rowBytes, firstPage ≤ b / g.pageSize → b / g.pageSize < page → b < stop

structure Inv (g : Geometry) (s : Screen) : Prop where
  guardClear : s.dirtyPages g.pageCount = false
  guardSet : s.dirtyPages (g.pageCount + 1) = true
  shown : ∀ b < g.height * g.rowBytes, s.buffer b ≠ s.shown b →
    s.dirtyPages (b / g.pageSize) = true ∨ s.phase.Pending g b
  writable : ∀ p < g.pageCount,
    (s.writable p = true ↔ s.dirtyPages p = true ∨ s.phase.Unprotected p)
  dirty : ∀ p < g.pageCount, s.dirtyPages p = true → s.dirty = true
  phase : s.phase.Valid g s.dirtyPages

theorem init_inv (g : Geometry) (buffer : Nat → Byte) : Inv g (.init g buffer) := by
  refine ⟨?_, ?_, ?_, ?_, ?_, trivial⟩
  · simp [Screen.init]
  · simp [Screen.init]
  · intro b _ hne
    exact absurd rfl hne
  · intro p hp
    have hne : p ≠ g.pageCount + 1 := by omega
    simp [Screen.init, Phase.Unprotected, hne]
  · intro p hp hset
    have hne : p ≠ g.pageCount + 1 := by omega
    simp [Screen.init, hne] at hset

section
variable {g : Geometry} {s s' : Screen}

theorem Inv.write (h : Inv g s) {addr : Nat} (haddr : addr < g.memLength)
    (hw : s.writable (addr / g.pageSize) = true) (v : Byte) :
    Inv g { s with buffer := Function.update s.buffer addr v } := by
  refine ⟨h.guardClear, h.guardSet, ?_, h.writable, h.dirty, h.phase⟩
  intro b hb hne
  obtain rfl | hother := eq_or_ne b addr
  · have hpage : b / g.pageSize < g.pageCount :=
      (Nat.div_lt_iff_lt_mul g.pageSize_pos).mpr haddr
    obtain hset | hopen := (h.writable _ hpage).mp hw
    · exact .inl hset
    · -- The only time a writable page has a clear flag is before it is protected.
      right
      cases hphase : s.phase with
      | protect firstPage page =>
        rw [hphase] at hopen
        exact hopen
      | _ =>
        rw [hphase] at hopen
        exact hopen.elim
  · refine h.shown b hb ?_
    simpa [Function.update_of_ne hother] using hne

/-- Marking pages, under the lock. -/
theorem Inv.mark (h : Inv g s) (hm : Marked g s s') (hidle : s.phase = .idle) :
    Inv g { s' with dirty := true } := by
  have hphase : s'.phase = .idle := hm.phase.trans hidle
  have hkept : ∀ p, g.pageCount ≤ p → s'.dirtyPages p = s.dirtyPages p := by
    intro p hp
    obtain ⟨hd, -⟩ | ⟨hlt, -⟩ := hm.pages p
    · exact hd
    · omega
  refine ⟨?_, ?_, ?_, ?_, fun _ _ _ => rfl, ?_⟩
  · exact (hkept _ le_rfl).trans h.guardClear
  · exact (hkept _ (Nat.le_succ _)).trans h.guardSet
  · intro b hb hne
    left
    obtain ⟨hd, -⟩ | ⟨-, hset, -⟩ := hm.pages (b / g.pageSize)
    · obtain hset | hpending := h.shown b hb (by rwa [hm.buffer, hm.shown] at hne)
      · exact hd.trans hset
      · simp [hidle, Phase.Pending] at hpending
    · exact hset
  · intro p hp
    simp only [hphase, Phase.Unprotected, or_false]
    obtain ⟨hd, hw⟩ | ⟨-, hset, hopen⟩ := hm.pages p
    · simpa [hd, hw, hidle, Phase.Unprotected] using h.writable p hp
    · simp [hset, hopen]
  · simp [hphase, Phase.Valid]

theorem Inv.findNextPageSet_spec (h : Inv g s) {page : Nat} (hpage : page ≤ g.pageCount) :
    page ≤ findNextPageSet g s page ∧ s.dirtyPages (findNextPageSet g s page) = true ∧
      ∀ i, page ≤ i → i < findNextPageSet g s page → s.dirtyPages i = false := by
  obtain ⟨hge, -, hfound, hpassed⟩ := findNext_spec (p := fun i => !s.dirtyPages i)
    (show page ≤ g.pageCount + 1 by omega) (by simp [h.guardSet])
    (show g.pageCount + 1 < g.pageCount + 2 by omega)
  refine ⟨hge, by simpa [findNextPageSet] using hfound, ?_⟩
  intro i hi hlt
  simpa using hpassed i hi hlt

theorem Inv.findNextPageClear_spec (h : Inv g s) {page : Nat} (hpage : page ≤ g.pageCount) :
    page ≤ findNextPageClear g s page ∧ findNextPageClear g s page ≤ g.pageCount ∧
      s.dirtyPages (findNextPageClear g s page) = false ∧
      ∀ i, page ≤ i → i < findNextPageClear g s page → s.dirtyPages i = true :=
  findNext_spec hpage h.guardClear (by omega)

/-- Every flag is clear when the search gets past the last page. -/
theorem Inv.scan (h : Inv g s) {page : Nat} (hphase : s.phase = .scan page)
    (hs : continueUpdate g s = some s') : Inv g s' := by
  have hvalid := h.phase
  rw [hphase] at hvalid
  obtain ⟨hpage, hclear⟩ := hvalid
  obtain ⟨hge, hfound, hpassed⟩ := h.findNextPageSet_spec hpage
  have hbelow : ∀ p < findNextPageSet g s page, s.dirtyPages p = false := by
    intro p hp
    by_cases hlt : p < page
    · exact hclear p hlt
    · exact hpassed p (not_lt.mp hlt) hp
  have hshown : ∀ b < g.height * g.rowBytes, s.buffer b ≠ s.shown b →
      s.dirtyPages (b / g.pageSize) = true := by
    intro b hb hne
    obtain hset | hpending := h.shown b hb hne
    · exact hset
    · simp [hphase, Phase.Pending] at hpending
  have hwritable : ∀ p < g.pageCount, (s.writable p = true ↔ s.dirtyPages p = true) := by
    intro p hp
    simpa [hphase, Phase.Unprotected] using h.writable p hp
  simp only [continueUpdate, hphase] at hs
  split_ifs at hs with hdone
  · cases hs
    refine ⟨h.guardClear, h.guardSet, fun b hb hne => .inl (hshown b hb hne), ?_, ?_, trivial⟩
    · intro p hp
      simpa [Phase.Unprotected] using hwritable p hp
    · intro p hp hset
      simp [hbelow p (by omega)] at hset
  · cases hs
    obtain ⟨hge', hle', hfound', hpassed'⟩ :=
      h.findNextPageClear_spec (show findNextPageSet g s page ≤ g.pageCount by omega)
    have hne : findNextPageSet g s page ≠ findNextPageClear g s (findNextPageSet g s page) := by
      intro heq
      rw [← heq, hfound] at hfound'
      cases hfound'
    refine ⟨h.guardClear, h.guardSet, fun b hb hne => .inl (hshown b hb hne), ?_, h.dirty, ?_⟩
    · intro p hp
      simpa [Phase.Unprotected] using hwritable p hp
    · exact ⟨lt_of_le_of_ne hge' hne, hle', hbelow, hpassed'⟩

theorem Inv.clear (h : Inv g s) {firstPage page : Nat} (hphase : s.phase = .clear firstPage page)
    (hs : continueUpdate g s = some s') : Inv g s' := by
  have hvalid := h.phase
  rw [hphase] at hvalid
  obtain ⟨hlt, hpage, hbelow, hset⟩ := hvalid
  simp only [continueUpdate, hphase, Option.some.injEq] at hs
  subst hs
  refine ⟨?_, ?_, ?_, ?_, ?_, hlt, hpage, ?_⟩
  · simp only [h.guardClear, ite_self]
  · simp only [h.guardSet, ite_eq_right_iff]
    omega
  · intro b hb hne
    by_cases hrange : firstPage ≤ b / g.pageSize ∧ b / g.pageSize < page
    · exact .inr hrange
    · left
      simp only [hrange, if_false]
      obtain hset | hpending := h.shown b hb hne
      · exact hset
      · simp [hphase, Phase.Pending] at hpending
  · intro p hp
    have hold : s.writable p = true ↔ s.dirtyPages p = true := by
      simpa [hphase, Phase.Unprotected] using h.writable p hp
    by_cases hrange : firstPage ≤ p ∧ p < page
    · simp [Phase.Unprotected, hrange, hold, hset p hrange.1 hrange.2]
    · simp [Phase.Unprotected, hrange, hold]
  · intro p hp hdirty
    refine h.dirty p hp ?_
    by_contra hne
    simp [hne] at hdirty
  · intro p hp
    by_cases hfirst : firstPage ≤ p
    · simp [hfirst, hp]
    · simp [hfirst, hbelow p (not_le.mp hfirst)]

theorem Inv.protect (h : Inv g s) {firstPage page : Nat}
    (hphase : s.phase = .protect firstPage page) (hs : continueUpdate g s = some s') :
    Inv g s' := by
  have hvalid := h.phase
  rw [hphase] at hvalid
  obtain ⟨hlt, hpage, hbelow⟩ := hvalid
  simp only [continueUpdate, hphase, Option.some.injEq] at hs
  subst hs
  refine ⟨h.guardClear, h.guardSet, ?_, ?_, h.dirty, hlt, hpage, hbelow, ?_⟩
  · intro b hb hne
    obtain hset | hpending := h.shown b hb hne
    · exact .inl hset
    · rw [hphase] at hpending
      exact .inr ⟨hpending.1, hpending.2, g.top_mul_le (by omega) hpending.1⟩
  · intro p hp
    have hold := h.writable p hp
    rw [hphase] at hold
    by_cases hrange : firstPage ≤ p ∧ p < page
    · simp [Phase.Unprotected, hrange, hbelow p hrange.2]
    · simpa [Phase.Unprotected, hrange] using hold
  · intro b hb hfirst hlast
    exact g.lt_bottom_mul (by omega) (by omega) hb

theorem Inv.blit (h : Inv g s) {firstPage page pos stop : Nat}
    (hphase : s.phase = .blit firstPage page pos stop) (hs : continueUpdate g s = some s') :
    Inv g s' := by
  have hvalid := h.phase
  rw [hphase] at hvalid
  obtain ⟨hlt, hpage, hbelow, hstop⟩ := hvalid
  have hwritable : ∀ p < g.pageCount, (s.writable p = true ↔ s.dirtyPages p = true) := by
    intro p hp
    simpa [hphase, Phase.Unprotected] using h.writable p hp
  simp only [continueUpdate, hphase] at hs
  split_ifs at hs with hmore
  · cases hs
    refine ⟨h.guardClear, h.guardSet, ?_, ?_, h.dirty, hlt, hpage, hbelow, hstop⟩
    · intro b hb hne
      obtain rfl | hother := eq_or_ne b pos
      · simp at hne
      · dsimp only at hne
        rw [Function.update_of_ne hother] at hne
        obtain hset | hpending := h.shown b hb hne
        · exact .inl hset
        · rw [hphase] at hpending
          obtain ⟨hfirst, hlast, hpos⟩ := hpending
          exact .inr ⟨hfirst, hlast, by omega⟩
    · intro p hp
      simpa [Phase.Unprotected] using hwritable p hp
  · cases hs
    refine ⟨h.guardClear, h.guardSet, ?_, ?_, h.dirty, hpage, hbelow⟩
    · intro b hb hne
      obtain hset | hpending := h.shown b hb hne
      · exact .inl hset
      · rw [hphase] at hpending
        obtain ⟨hfirst, hlast, hpos⟩ := hpending
        have := hstop b hb hfirst hlast
        omega
    · intro p hp
      simpa [Phase.Unprotected] using hwritable p hp

theorem continueUpdate_inv (h : Inv g s) (hs : continueUpdate g s = some s') : Inv g s' := by
  cases hphase : s.phase with
  | idle => simp [continueUpdate, hphase] at hs
  | scan page => exact h.scan hphase hs
  | clear firstPage page => exact h.clear hphase hs
  | protect firstPage page => exact h.protect hphase hs
  | blit firstPage page pos stop => exact h.blit hphase hs

theorem beginUpdate_inv (h : Inv g s) (hidle : s.phase = .idle) :
    Inv g { s with phase := .scan 0 } := by
  refine ⟨h.guardClear, h.guardSet, ?_, ?_, h.dirty, Nat.zero_le _, by simp⟩
  · intro b hb hne
    obtain hset | hpending := h.shown b hb hne
    · exact .inl hset
    · simp [hidle, Phase.Pending] at hpending
  · intro p hp
    simpa [hidle, Phase.Unprotected] using h.writable p hp

theorem step_inv {a : Action} (h : Inv g s) (hs : step g s a = some s') : Inv g s' := by
  cases a with
  | write addr v =>
    simp only [step] at hs
    split_ifs at hs with hopen
    cases hs
    exact h.write hopen.1 hopen.2 v
  | fault addr =>
    simp only [step] at hs
    split at hs
    next hidle =>
      split_ifs at hs with haddr
      cases hs
      have hpage : addr / g.pageSize < g.pageCount :=
        (Nat.div_lt_iff_lt_mul g.pageSize_pos).mpr haddr
      exact h.mark (touchPage_marked hpage) hidle
    next => cases hs
  | setDirtyArea x y w d =>
    simp only [step] at hs
    split at hs
    next hidle =>
      cases hs
      obtain heq | ⟨s₁, hm, heq⟩ := setDirtyArea_eq g x y w d s
      · rw [heq]
        exact h
      · rw [heq]
        exact h.mark hm hidle
    next => cases hs
  | beginUpdate =>
    simp only [step] at hs
    split at hs
    next hidle =>
      cases hs
      exact beginUpdate_inv h hidle
    next => cases hs
  | continueUpdate => exact continueUpdate_inv h hs

end

-- ---------------------------------------------------------------------------
-- Runs
-- ---------------------------------------------------------------------------

/-- What holds of the screen while no update is in progress. -/
structure Consistent (g : Geometry) (s : Screen) : Prop where
  scanlines : ∀ y i, y < g.height → i < g.rowBytes →
    s.buffer (y * g.rowBytes + i) ≠ s.shown (y * g.rowBytes + i) →
    (y * g.rowBytes + i) / g.pageSize < g.pageCount ∧
      s.dirtyPages ((y * g.rowBytes + i) / g.pageSize) = true
  writable : ∀ p < g.pageCount, (s.writable p = true ↔ s.dirtyPages p = true)
  dirty : (∃ p < g.pageCount, s.dirtyPages p = true) → s.dirty = true

/-- Stores, faults, marked areas and the steps of updates, in any order: no scanline that differs
from what was blitted is left behind. -/
theorem screen_consistent (g : Geometry) (buffer : Nat → Byte) {s : Screen}
    (hrun : Steps.Reaches (step g) (fun _ _ => True) (.init g buffer) s) (hidle : s.phase = .idle) :
    Consistent g s := by
  have h : Inv g s := hrun.invariant (init_inv g buffer) fun hinv _ hs => step_inv hinv hs
  refine ⟨?_, ?_, ?_⟩
  · intro y i hy hi hne
    have hb : y * g.rowBytes + i < g.height * g.rowBytes := by
      calc y * g.rowBytes + i < (y + 1) * g.rowBytes := by rw [Nat.succ_mul]; omega
        _ ≤ g.height * g.rowBytes := Nat.mul_le_mul_right _ hy
    have hroom : g.height * g.rowBytes ≤ g.memLength :=
      (Nat.mul_le_mul_right _ (Nat.le_add_right _ 2)).trans g.room
    refine ⟨(Nat.div_lt_iff_lt_mul g.pageSize_pos).mpr (hb.trans_le hroom), ?_⟩
    obtain hset | hpending := h.shown _ hb hne
    · exact hset
    · simp [hidle, Phase.Pending] at hpending
  · intro p hp
    simpa [hidle, Phase.Unprotected] using h.writable p hp
  · rintro ⟨p, hp, hset⟩
    exact h.dirty p hp hset

/-- Two scanlines of four bytes on pages of four bytes. -/
def smallScreen : Geometry := ⟨2, 4, 4, 2, 4, by decide, by decide, by decide, by decide⟩

/-- A store to the second scanline after its flag was cleared by an update, and one after it. -/
def storeDuringUpdate : List Action :=
  [.fault 1, .write 1 7, .setDirtyArea 0 1 4 1, .beginUpdate, .continueUpdate, .continueUpdate,
    .write 5 9, .continueUpdate] ++ List.replicate 10 .continueUpdate ++ [.fault 6, .write 6 3]

theorem storeDuringUpdate_consistent : ∃ s,
    Steps.run (step smallScreen) (.init smallScreen fun _ => 0) storeDuringUpdate = some s ∧
    s.shown 5 = 9 ∧ s.shown 6 = 0 ∧ Consistent smallScreen s := by
  refine ⟨_, rfl, by decide, by decide, ?_⟩
  exact screen_consistent smallScreen (fun _ => 0)
    (Steps.reaches_of_run (show Steps.run _ _ storeDuringUpdate = some _ from rfl)) rfl

end SheepShear.Video
