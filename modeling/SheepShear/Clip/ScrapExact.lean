import SheepShear.Clip.Scrap

/-!
# What the Mac gets of a text

A text that is read as a terminated string has its terminator in the buffer, and
the size of the buffer is the length of what the Mac gets: each text arrives with
a byte 0 behind it. The mark that keeps this data from the host is used up by the
time the procedure returns.
-/

namespace SheepShear.Clip

variable {h : Host} {s : Scrap} {m : Mem}

-- ---------------------------------------------------------------------------
-- The procedure
-- ---------------------------------------------------------------------------

/-- The pushes of the procedure find their operands. -/
theorem operands_storeProc (m : Mem) (procArea type scrapArea : Word) (data : List Byte) :
    (storeProc m procArea type scrapArea data).readInt32 (procArea + 6) = .ofNat 32 data.length ∧
    (storeProc m procArea type scrapArea data).readInt32 (procArea + 12) = type ∧
    (storeProc m procArea type scrapArea data).readInt32 (procArea + 18) = scrapArea := by
  refine ⟨?_, ?_, ?_⟩
  · rw [storeProc, Mem.readInt32_writeInt32_add_of_far _ _ _ (by decide) (by decide),
      Mem.readInt32_writeInt32_add_of_far _ _ _ (by decide) (by decide), Mem.readInt32_writeInt32_self]
  · rw [storeProc, Mem.readInt32_writeInt32_add_of_far _ _ _ (by decide) (by decide),
      Mem.readInt32_writeInt32_self]
  · rw [storeProc, Mem.readInt32_writeInt32_self]

/-- The procedure is stored at `procArea`. -/
theorem storeProc_of_far (m : Mem) (procArea type scrapArea : Word) (data : List Byte) {x : Word}
    (hfar : proc.length ≤ (x - procArea).toNat) : storeProc m procArea type scrapArea data x = m x := by
  have hproc : ¬(x - procArea).toNat < proc.length := by omega
  have hpart (d : Word) (hd : d.toNat + 4 ≤ proc.length) : 4 ≤ (x - (procArea + d)).toNat := by
    rw [sub_add_eq_sub_sub, BitVec.toNat_sub_of_le (BitVec.le_def.mpr (by omega))]
    omega
  rw [storeProc, Mem.writeInt32_of_far _ _ (hpart 18 (by decide)),
    Mem.writeInt32_of_far _ _ (hpart 12 (by decide)), Mem.writeInt32_of_far _ _ (hpart 6 (by decide)),
    Mem.storeBytes, if_neg hproc]

theorem length_scrapBytes (m : Mem) (scrap : Word) (length : Int) :
    (scrapBytes m scrap length).length = length.toNat := by
  rw [scrapBytes, List.length_map, List.length_range]

/-- The procedure puts as many bytes on the scrap as there are in the buffer,
and nothing of it comes to the host. -/
theorem execute68k_storeProc (m : Mem) (procArea scrapArea : Word) {data : List Byte}
    (hsize : data.length < 2 ^ 31) :
    execute68k h { s with wePutThisData := true } (storeProc m procArea TEXT scrapArea data) procArea =
      { s with
        wePutThisData := false
        scraps := s.scraps ++
          [(TEXT, scrapBytes (storeProc m procArea TEXT scrapArea data) scrapArea data.length)] } := by
  obtain ⟨hlength, htype, houtbuf⟩ := operands_storeProc m procArea TEXT scrapArea data
  have hint : (BitVec.ofNat 32 data.length).toInt = data.length := by
    rw [BitVec.toInt_eq_toNat_cond, BitVec.toNat_ofNat, Nat.mod_eq_of_lt (by omega), if_pos (by omega)]
  rw [execute68k, hlength, htype, houtbuf, trapPutScrap, putScrap, if_pos rfl, hint]

-- ---------------------------------------------------------------------------
-- The text
-- ---------------------------------------------------------------------------

def textProperty (text : List Byte) : Property where
  type := XA_STRING
  format := .bits8
  items := text.map fun b => b.setWidth 32

theorem bytes_textProperty (text : List Byte) : (textProperty text).bytes = text := by
  have hone (b : Byte) : Format.bits8.bytes (b.setWidth 32) = [b] := by
    show [((b.setWidth 32).signExtend 64).extractLsb' (8 * 0) 8] = [b]
    congr 1
    ext i hi
    simp
    grind
  show (text.map fun b => b.setWidth 32).flatMap Format.bits8.bytes = text
  rw [List.flatMap_map]
  simp [hone]

/-- The owner of the selection, which is another client, offers a text. -/
structure Offered (h : Host) (s : Scrap) (windows : WindowId → Window) (event : XSelectionEvent)
    (text : List Byte) : Prop where
  owner : s.selectionOwner ≠ h.clipWin
  property : event.property ≠ None
  error : (windows event.requestor).error = false
  known : (windows event.requestor).interned event.property = true
  text : (windows event.requestor).property event.property = some (textProperty text)

variable {windows : WindowId → Window} {event : XSelectionEvent} {text : List Byte}

theorem Offered.doGetScrap_eq (ho : Offered h s windows event text) (hsize : text.length + 1 < 2 ^ 31) :
    doGetScrap h s m windows (some event) TEXT = .ok (
      let (scrapArea, m) := h.newPtrSysClear m (.ofNat 32 (text ++ [0]).length)
      if scrapArea ≠ 0 then
        let (procArea, m) := h.newPtrSysClear (storeText h m TEXT scrapArea (text ++ [0]))
          (.ofNat 32 proc.length)
        execute68k h { s with wePutThisData := true } (storeProc m procArea TEXT scrapArea (text ++ [0]))
          procArea
      else s) := by
  have hread := readProperty_eq h.display ho.error ho.known ho.text false true
    (by rw [bytes_textProperty]; exact hsize)
  rw [bytes_textProperty, Bool.toNat_true, List.replicate_one] at hread
  have hsome : ¬XA_STRING = None := by decide
  simp only [doGetScrap, if_neg ho.owner, if_neg ho.property, if_true, if_neg hsome, decide_true, hread,
    Except.ok_bind]
  split_ifs <;> rfl

/-- A text that does not fit the buffer. -/
theorem Offered.doGetScrap_overflow (ho : Offered h s windows event text)
    (hsize : 2 ^ 31 ≤ text.length + 1) :
    doGetScrap h s m windows (some event) TEXT = .error .overflow := by
  have hsome : ¬XA_STRING = None := by decide
  have hread : readProperty h.display (windows event.requestor) event.property false true =
      .error .overflow :=
    readProperty_overflow h.display ho.error ho.known ho.text false true
      (by rw [bytes_textProperty]; exact hsize)
  simp only [doGetScrap, if_neg ho.owner, if_neg ho.property, if_true, if_neg hsome, decide_true, hread]
  rfl

/-- The data is passed to `PutScrap` of the Mac, it does not come back to the
host, and any text that an application puts on the scrap later is offered to
the clients of the server. -/
def Imported (h : Host) (s : Scrap) (m : Mem) (windows : WindowId → Window) (event : XSelectionEvent)
    (text : List Byte) : Prop :=
  ∃ s', doGetScrap h s m windows (some event) TEXT = .ok s' ∧
    s'.scraps = s.scraps ++ [(TEXT, text.map (toMac h.noClipConversion))] ∧
    s'.clipData = s.clipData ∧ s'.selectionOwner = s.selectionOwner ∧
    ∀ (m : Mem) (scrap length : Word), 0 < length.toInt →
      (trapPutScrap h s' m TEXT scrap length).selectionOwner = h.clipWin ∧
      (trapPutScrap h s' m TEXT scrap length).clipData =
        { time := 0
          type := XA_STRING
          data := (scrapBytes m scrap length.toInt).map (toHost h.noClipConversion) }

/-- What an application puts on the scrap when the mark is not set. -/
theorem trapPutScrap_text (hmark : s.wePutThisData = false) (m : Mem) (scrap : Word) {length : Word}
    (hlength : 0 < length.toInt) :
    (trapPutScrap h s m TEXT scrap length).selectionOwner = h.clipWin ∧
    (trapPutScrap h s m TEXT scrap length).clipData =
      { time := 0
        type := XA_STRING
        data := (scrapBytes m scrap length.toInt).map (toHost h.noClipConversion) } := by
  have hput : putScrap h s m TEXT scrap length.toInt = doPutScrap h s m TEXT scrap length.toInt := by
    rw [putScrap, hmark, if_neg (by decide), if_neg (by omega)]
  rw [trapPutScrap, hput]
  exact ⟨rfl, rfl⟩

/-- A text with a byte 0 behind it is what the Mac gets, when its memory is
handed out as it should be: the second block is another one. -/
theorem Offered.passed (ho : Offered h s windows event text) (hsize : text.length + 1 < 2 ^ 31)
    {scrapArea procArea : Word} {m₁ m₂ : Mem}
    (hscrap : h.newPtrSysClear m (.ofNat 32 (text.length + 1)) = (scrapArea, m₁)) (hgot : scrapArea ≠ 0)
    (hproc : h.newPtrSysClear (storeText h m₁ TEXT scrapArea (text ++ [0])) (.ofNat 32 proc.length) =
      (procArea, m₂))
    (hkept : ∀ i < text.length + 1, m₂ (scrapArea + .ofNat 32 i) =
      storeText h m₁ TEXT scrapArea (text ++ [0]) (scrapArea + .ofNat 32 i))
    (hapart : ∀ i < text.length + 1, proc.length ≤ (scrapArea + .ofNat 32 i - procArea).toNat) :
    doGetScrap h s m windows (some event) TEXT = .ok
      { s with
        wePutThisData := false
        scraps := s.scraps ++ [(TEXT, text.map (toMac h.noClipConversion) ++ [0])] } := by
  have hlength : (text ++ [0]).length = text.length + 1 := by simp
  rw [ho.doGetScrap_eq hsize, hlength, hscrap]
  simp only [if_pos hgot, ne_eq, hproc]
  rw [execute68k_storeProc _ _ _ (by omega), hlength]
  have hbyte : ∀ i < text.length + 1,
      storeProc m₂ procArea TEXT scrapArea (text ++ [0]) (scrapArea + .ofNat 32 i) =
        toMac h.noClipConversion ((text ++ [0]).getD i 0) := by
    intro i hi
    have hindex : (scrapArea + .ofNat 32 i - scrapArea).toNat = i := by
      rw [add_sub_cancel_left, BitVec.toNat_ofNat, Nat.mod_eq_of_lt (by omega)]
    rw [storeProc_of_far _ _ _ _ _ (hapart i hi), hkept i hi, storeText, if_pos rfl, Mem.storeBytes,
      hindex, if_pos (by omega)]
  have hbytes : scrapBytes (storeProc m₂ procArea TEXT scrapArea (text ++ [0])) scrapArea
      (text.length + 1 : Nat) = text.map (toMac h.noClipConversion) ++ [0] := by
    have hzero : toMac h.noClipConversion 0 = 0 := rfl
    have hmapped : text.map (toMac h.noClipConversion) ++ [0] =
        (text ++ [0]).map (toMac h.noClipConversion) := by
      rw [List.map_append, List.map_singleton, hzero]
    rw [hmapped, scrapBytes, Int.toNat_natCast]
    refine List.ext_getElem (by simp) fun i hi _ => ?_
    rw [List.length_map, List.length_range] at hi
    rw [List.getElem_map, List.getElem_map, List.getElem_range, hbyte i hi,
      List.getD_eq_getElem _ _ (by omega)]
  rw [hbytes]

/-- The mark is used up by the time the call returns, whatever the Mac asked for. -/
theorem doGetScrap_mark (hmark : s.wePutThisData = false) {notify : Option XSelectionEvent}
    {type : Word} {s' : Scrap} (hrun : doGetScrap h s m windows notify type = .ok s') :
    s'.wePutThisData = false := by
  rw [doGetScrap] at hrun
  generalize (if type = TEXT then XA_STRING else None) = format at hrun
  simp only at hrun
  split_ifs at hrun with howner hformat
  · exact Except.ok.inj hrun ▸ hmark
  · exact Except.ok.inj hrun ▸ hmark
  · cases notify with
    | none => exact Except.ok.inj hrun ▸ hmark
    | some event =>
      simp only at hrun
      split_ifs at hrun with hnone
      · exact Except.ok.inj hrun ▸ hmark
      · obtain ⟨read, -, hrun⟩ := Except.bind_eq_ok.mp hrun
        cases read with
        | none => exact Except.ok.inj hrun ▸ hmark
        | some read =>
          simp only at hrun
          split_ifs at hrun with hgot
          · exact Except.ok.inj hrun ▸ rfl
          · exact Except.ok.inj hrun ▸ hmark

/-- So a text of an application is offered to the clients of the server. -/
theorem offered_after_getScrap (hmark : s.wePutThisData = false) {notify : Option XSelectionEvent}
    {type : Word} {s' : Scrap} (hrun : doGetScrap h s m windows notify type = .ok s') (m' : Mem)
    (scrap : Word) {length : Word} (hlength : 0 < length.toInt) :
    (trapPutScrap h s' m' TEXT scrap length).selectionOwner = h.clipWin ∧
    (trapPutScrap h s' m' TEXT scrap length).clipData =
      { time := 0
        type := XA_STRING
        data := (scrapBytes m' scrap length.toInt).map (toHost h.noClipConversion) } :=
  trapPutScrap_text (doGetScrap_mark hmark hrun) m' scrap hlength

/-- No text is imported as it is. -/
theorem Offered.not_imported (ho : Offered h s windows event text) :
    ¬Imported h s m windows event text := by
  rintro ⟨s', hrun, hscraps, -⟩
  by_cases hsize : text.length + 1 < 2 ^ 31
  · rw [ho.doGetScrap_eq hsize] at hrun
    obtain rfl := Except.ok.inj hrun
    simp only at hscraps
    split_ifs at hscraps with hgot
    · rw [execute68k_storeProc _ _ _ (by simpa using hsize)] at hscraps
      have hlength := congrArg (fun xs => xs.map (List.length ∘ Prod.snd)) hscraps
      simp [length_scrapBytes] at hlength
    · exact absurd hscraps (by simp)
  · rw [ho.doGetScrap_overflow (by omega)] at hrun
    cases hrun

/-- A host that hands out one block for the data and one for the procedure. -/
theorem least_enough : 4096 ≤ 4096 := le_rfl

theorem least_card16 : 4096 < 65536 := by decide

def exampleHost : Host where
  display := { maxRequestSize := 4096, enough := least_enough, card16 := least_card16 }
  clipWin := 1
  noClipConversion := false
  newPtrSysClear := fun m size => if size = 28 then (0x2000, m) else (0x1000, m)

def exampleScrap : Scrap where
  wePutThisData := false
  clipData := { time := 0, type := None, data := [] }
  selectionOwner := 2
  scraps := []

/-- The window of the emulator, on which the owner of the selection has put a text. -/
def textWindow (text : List Byte) : Window where
  interned := fun a => a ≠ None
  property := fun a => if a = 100 then some (textProperty text) else none
  error := false

theorem offered_textWindow (text : List Byte) :
    Offered exampleHost exampleScrap (fun _ => textWindow text) ⟨1, 100, XA_STRING, 100, 0⟩ text where
  owner := by decide
  property := by decide
  error := rfl
  known := rfl
  text := rfl

/-- The text `hi` is passed as three bytes. -/
theorem not_imported_hi :
    ¬Imported exampleHost exampleScrap (fun _ => 0) (fun _ => textWindow [0x68, 0x69])
      ⟨1, 100, XA_STRING, 100, 0⟩ [0x68, 0x69] := by
  rintro ⟨s', hrun, hscraps, -⟩
  have hpassed := @Offered.passed exampleHost exampleScrap (fun _ => 0) (fun _ => textWindow [0x68, 0x69])
    ⟨1, 100, XA_STRING, 100, 0⟩ [0x68, 0x69] (offered_textWindow _) (by decide) 0x1000 0x2000
    (fun _ => 0) _ rfl (by decide) rfl (fun _ _ => rfl) (by decide)
  obtain rfl := Except.ok.inj (hpassed.symm.trans hrun)
  exact absurd hscraps (by decide)

theorem not_imported_empty :
    ¬Imported exampleHost exampleScrap (fun _ => 0) (fun _ => textWindow [])
      ⟨1, 100, XA_STRING, 100, 0⟩ [] :=
  Offered.not_imported (offered_textWindow [])

end SheepShear.Clip
