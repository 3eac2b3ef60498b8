import SheepShear.Lib.CString
import SheepShear.Lib.Except
import SheepShear.Cd.Bincue

/-!
# Cue sheets

The cue sheet loader of `bincue_unix.cpp`, the search for a track and the table of
contents. Frames are unsigned, and an `int` has 32 bits. The text of the sheet and the
sizes of the files on the host are given; a null pointer that is followed and an index
outside `tracks` end the load.
-/

namespace SheepShear.Cd

def maxTrack : Nat := 100

def maxLine : Nat := 512

def cdFrames : Word := 75

def dataTrack : Byte := 4

def audioTrack : Byte := 0

/-- Minute, second and frame, each an `int`. -/
structure MSF where
  m : Word
  s : Word
  f : Word
deriving DecidableEq, Repr

def framesToMSF (frames : Word) : MSF where
  m := frames / (60 * cdFrames)
  s := frames % (60 * cdFrames) / cdFrames
  f := frames % (60 * cdFrames) % cdFrames

def msfToFrames (msf : MSF) : Word := msf.m * 60 * cdFrames + msf.s * cdFrames + msf.f

/-- `fileoffset` is a `loff_t`, but only an unsigned product is stored in it. -/
structure Track where
  number : Word
  start : Word
  length : Word
  fileoffset : Word
  pregap : Word
  tcf : Byte

/-- After `bzero`. -/
def Track.zero : Track := ⟨0, 0, 0, 0, 0, 0⟩

/-- `tracks` has room for `maxTrack` tracks. -/
structure CueSheet where
  binfile : Option (List Byte)
  length : Word
  tcnt : Nat
  tracks : Nat → Track

def CueSheet.zero : CueSheet := ⟨none, 0, 0, fun _ => Track.zero⟩

inductive CueFault where
  | rejected
  | nullPointer
  | outOfBounds
deriving DecidableEq, Repr

/-- The parser's variables; `totalPregap` and `prestart` are static. -/
structure CueParser where
  totalPregap : Word
  prestart : Word
  seen1st : Bool
  iLine : Word
  cs : CueSheet

-- ---------------------------------------------------------------------------
-- The C library
-- ---------------------------------------------------------------------------

/-- The next token and what is left of the string, or `none` for the null pointer. -/
def strtok (delims s : List Byte) : Option (List Byte × List Byte) :=
  match s.dropWhile (delims.contains ·) with
  | [] => none
  | c :: cs =>
    some ((c :: cs).takeWhile (!delims.contains ·), ((c :: cs).dropWhile (!delims.contains ·)).drop 1)

/-- The digits of `%d`; the `long` that is read is stored as an `int`. -/
def scanDigitsD (negative : Bool) (s : List Byte) : Option (Word × List Byte) :=
  match s with
  | [] => none
  | c :: _ =>
    if isdigit c then
      let value : Int := scanDigits s 0
      some (BitVec.ofInt 32 (clampLong (if negative then -value else value)), s.dropWhile isdigit)
    else none

/-- The conversion `%d` of `sscanf`. -/
def scanD (s : List Byte) : Option (Word × List Byte) :=
  match s.dropWhile isspace with
  | [] => none
  | c :: cs =>
    if c = 0x2d#8 then scanDigitsD true cs
    else if c = 0x2b#8 then scanDigitsD false cs
    else scanDigitsD false (c :: cs)

def scanColon : List Byte → Option (List Byte)
  | [] => none
  | c :: cs => if c = 0x3a#8 then some cs else none

/-- `sscanf` with `%d:%d:%d`, if it converts all three. -/
def scanMSF (s : List Byte) : Option MSF := do
  let (m, s) ← scanD s
  let s ← scanColon s
  let (sec, s) ← scanD s
  let s ← scanColon s
  let (f, _) ← scanD s
  return ⟨m, sec, f⟩

-- ---------------------------------------------------------------------------
-- The parser
-- ---------------------------------------------------------------------------

/-- `cs->tracks[cs->tcnt]`. -/
def CueSheet.curr (cs : CueSheet) : Except CueFault Track :=
  if cs.tcnt < maxTrack then .ok (cs.tracks cs.tcnt) else .error .outOfBounds

def CueSheet.setCurr (cs : CueSheet) (track : Track) : CueSheet :=
  { cs with tracks := Function.update cs.tracks cs.tcnt track }

/-- `AddTrack`, with what it returns. -/
def addTrack (p : CueParser) : Except CueFault (Bool × CueParser) := do
  let skip := p.prestart
  let curr ← p.cs.curr
  let p := { p with prestart := 0 }
  if 0 < skip.toInt ∧ curr.start < skip then
    return (false, p)
  let curr := { curr with
    fileoffset := curr.start * BitVec.ofNat 32 rawSectorSize
    start := curr.start + p.totalPregap }
  let p := { p with
    totalPregap := p.totalPregap + curr.pregap
    cs := p.cs.setCurr curr }
  if p.cs.tcnt = 0 then
    if curr.number ≠ 1 then
      return (false, p)
    return (true, { p with cs := { p.cs with tcnt := p.cs.tcnt + 1 } })
  let prev := p.cs.tracks (p.cs.tcnt - 1)
  let prev := { prev with
    length :=
      if prev.start < skip then skip - prev.start - curr.pregap
      else curr.start - prev.start - curr.pregap }
  let p := { p with
    cs := { p.cs with tracks := Function.update p.cs.tracks (p.cs.tcnt - 1) prev } }
  if curr.number.toInt ≤ 1 then
    return (false, p)
  if prev.number + 1 ≠ curr.number ∧ curr.number ≠ 0xAA then
    return (false, p)
  if curr.start < prev.start + prev.length then
    return (false, p)
  return (true, { p with cs := { p.cs with tcnt := p.cs.tcnt + 1 } })

def fieldDelims : List Byte := ascii " \t\n\r"

/-- The next field of a line, which is not checked for the null pointer. -/
def nextField (delims rest : List Byte) : Except CueFault (List Byte × List Byte) :=
  match strtok delims rest with
  | some field => .ok field
  | none => .error .nullPointer

def orReject {α : Type} : Option α → Except CueFault α
  | some a => .ok a
  | none => .error .rejected

/-- `dir` is the directory of the cue file. -/
def parseFile (dir rest : List Byte) (p : CueParser) : Except CueFault CueParser := do
  if 1 < p.iLine then
    throw .rejected
  let (filename, rest) ← nextField (ascii "\"\t\n\r") rest
  let (filetype, _) ← nextField (ascii " \"\t\n\r") rest
  if filetype ≠ ascii "BINARY" then
    throw .rejected
  return { p with cs := { p.cs with binfile := some (dir ++ ascii "/" ++ filename) } }

def parseTrack (rest : List Byte) (p : CueParser) : Except CueFault CueParser := do
  let p ←
    if p.seen1st then do
      let (added, p) ← addTrack p
      if added then pure p else throw .rejected
    else pure p
  let (field, rest) ← nextField fieldDelims rest
  let (iTrack, _) ← orReject (scanD field)
  let curr ← p.cs.curr
  let (field, _) ← nextField fieldDelims rest
  let tcf ←
    if field = ascii "MODE1/2352" then pure dataTrack
    else if field = ascii "AUDIO" then pure audioTrack
    else throw .rejected
  return { p with
    seen1st := true
    cs := p.cs.setCurr { curr with number := iTrack, tcf } }

def parseIndex (rest : List Byte) (p : CueParser) : Except CueFault CueParser := do
  let (field, rest) ← nextField fieldDelims rest
  let (iIndex, _) ← orReject (scanD field)
  let (field, _) ← nextField fieldDelims rest
  let msf ← orReject (scanMSF field)
  if iIndex = 1 then
    let curr ← p.cs.curr
    return { p with cs := p.cs.setCurr { curr with start := msfToFrames msf } }
  else if iIndex = 0 then
    return { p with prestart := msfToFrames msf }
  else
    return p

def parsePregap (rest : List Byte) (p : CueParser) : Except CueFault CueParser := do
  let (field, _) ← nextField fieldDelims rest
  let msf ← orReject (scanMSF field)
  let curr ← p.cs.curr
  return { p with cs := p.cs.setCurr { curr with pregap := msfToFrames msf } }

def ignoredKeywords : List (List Byte) :=
  [ascii "TITLE", ascii "PERFORMER", ascii "REM", ascii "ISRC", ascii "SONGWRITER"]

/-- The body of the loop of `ParseCueSheet`; `chunk` is what `fgets` read. -/
def parseLine (dir : List Byte) (p : CueParser) (chunk : List Byte) : Except CueFault CueParser := do
  let line := (CString.ofBuffer chunk).val
  if p.iLine = 0 ∧ line.take 4 ≠ ascii "FILE" then
    throw .rejected
  let p := { p with iLine := p.iLine + 1 }
  match strtok (ascii " \t\n\t") line with
  | none => return p
  | some (keyword, rest) =>
    if keyword = ascii "FILE" then parseFile dir rest p
    else if keyword = ascii "TRACK" then parseTrack rest p
    else if keyword = ascii "INDEX" then parseIndex rest p
    else if keyword = ascii "PREGAP" then parsePregap rest p
    else if keyword ∈ ignoredKeywords then return p
    else throw .rejected

/-- What the calls of `fgets` read, at most one for each byte. -/
def cueLines : Nat → List Byte → List (List Byte)
  | 0, _ => []
  | _ + 1, [] => []
  | fuel + 1, c :: text =>
    let (chunk, rest) := fgetsChunk (maxLine - 1) (c :: text)
    chunk :: cueLines fuel rest

/-- The final track's `AddTrack` is not checked. -/
def parseCueSheet (dir text : List Byte) : Except CueFault CueParser := do
  let p ← (cueLines text.length text).foldlM (parseLine dir) ⟨0, 0, false, 0, CueSheet.zero⟩
  let (_, p) ← addTrack p
  return p

/-- `LoadCueSheet`; `binSize` has the sizes of the files that `open` finds. -/
def loadCueSheet (dir text : List Byte) (binSize : List Byte → Option Nat) :
    Except CueFault CueSheet := do
  let p ← parseCueSheet dir text
  let size ← orReject (p.cs.binfile.bind binSize)
  if p.cs.tcnt = 0 then
    -- `tracks[-1]`
    throw .outOfBounds
  let last := p.cs.tracks (p.cs.tcnt - 1)
  let length : Int := (size / rawSectorSize : Nat) - last.start.toNat + p.totalPregap.toNat
  -- the length is unsigned, so that the test for a negative one is never true
  return { p.cs with
    length := BitVec.ofNat 32 (size / rawSectorSize)
    tracks := Function.update p.cs.tracks (p.cs.tcnt - 1)
      { last with length := BitVec.ofInt 32 length } }

-- ---------------------------------------------------------------------------
-- Lookup
-- ---------------------------------------------------------------------------

/-- The first track whose range has the position, the end of the range included. -/
def positionToTrack (cs : CueSheet) (position : Word) : Nat :=
  ((List.range cs.tcnt).find? fun i =>
    (cs.tracks i).start ≤ position ∧ position ≤ (cs.tracks i).start + (cs.tracks i).length).getD cs.tcnt

/-- Eight bytes of the table of contents. -/
def tocEntry (control number : Byte) (msf : MSF) : List Byte :=
  [0, control, number, 0, 0, msf.m.setWidth 8, msf.s.setWidth 8, msf.f.setWidth 8]

def leadOutEntry (msf : MSF) : List Byte := tocEntry 0x14 0xAA msf

def readtocBincue (cs : CueSheet) : List Byte :=
  let numbers := [(cs.tracks 0).number.setWidth 8, (cs.tracks (cs.tcnt - 1)).number.setWidth 8]
  let entries := (List.range cs.tcnt).flatMap fun i =>
    let track := cs.tracks i
    tocEntry (0x10 ||| track.tcf) (track.number.setWidth 8) (framesToMSF track.start)
  let body := numbers ++ entries ++ leadOutEntry (framesToMSF cs.length)
  let tocSize := BitVec.ofNat 16 (2 + body.length)
  [(tocSize >>> 8).setWidth 8, tocSize.setWidth 8] ++ body

/-- Either no track has the position, or the first that has it is found. -/
theorem positionToTrack_cases (cs : CueSheet) (position : Word) :
    positionToTrack cs position = cs.tcnt ∨
      positionToTrack cs position < cs.tcnt ∧
        (cs.tracks (positionToTrack cs position)).start ≤ position ∧
        position ≤ (cs.tracks (positionToTrack cs position)).start +
          (cs.tracks (positionToTrack cs position)).length := by
  unfold positionToTrack
  cases hfind : (List.range cs.tcnt).find? fun i =>
      (cs.tracks i).start ≤ position ∧ position ≤ (cs.tracks i).start + (cs.tracks i).length with
  | none => exact .inl rfl
  | some i =>
    have hmem := List.mem_of_find?_eq_some hfind
    have hhas := List.find?_some hfind
    exact .inr ⟨List.mem_range.mp hmem, of_decide_eq_true hhas⟩

theorem positionToTrack_le {cs : CueSheet} {position : Word} {i : Nat} (hi : i < cs.tcnt)
    (hstart : (cs.tracks i).start ≤ position)
    (hend : position ≤ (cs.tracks i).start + (cs.tracks i).length) :
    positionToTrack cs position ≤ i := by
  unfold positionToTrack
  cases hfind : (List.range cs.tcnt).find? fun i =>
      (cs.tracks i).start ≤ position ∧ position ≤ (cs.tracks i).start + (cs.tracks i).length with
  | none =>
    have hnone := List.find?_eq_none.mp hfind i (List.mem_range.mpr hi)
    exact absurd (decide_eq_true ⟨hstart, hend⟩) hnone
  | some k =>
    rw [List.find?_range_eq_some] at hfind
    obtain ⟨-, -, hbefore⟩ := hfind
    by_contra hlt
    have hnot := hbefore i (Nat.lt_of_not_le hlt)
    rw [Bool.not_eq_true', decide_eq_false_iff_not] at hnot
    exact hnot ⟨hstart, hend⟩

-- ---------------------------------------------------------------------------
-- The end of the disc
-- ---------------------------------------------------------------------------

/-- The start and the length of the last track. -/
def CueSheet.discEnd (cs : CueSheet) : Nat :=
  (cs.tracks (cs.tcnt - 1)).start.toNat + (cs.tracks (cs.tcnt - 1)).length.toNat

def CueSheet.Increasing (cs : CueSheet) : Prop :=
  ∀ i j, i < j → j < cs.tcnt → (cs.tracks i).start < (cs.tracks j).start

/-- The lookup and the table of contents agree with the layout. -/
structure TocAgrees (cs : CueSheet) : Prop where
  lookup : ∀ p : Word, (cs.tracks 0).start ≤ p → p.toNat < cs.discEnd →
    positionToTrack cs p < cs.tcnt ∧ (cs.tracks (positionToTrack cs p)).start ≤ p ∧
      ∀ j, positionToTrack cs p < j → j < cs.tcnt → p < (cs.tracks j).start
  beyond : ∀ p : Word, cs.discEnd ≤ p.toNat → positionToTrack cs p = cs.tcnt
  leadOut : ∃ entries,
    readtocBincue cs = entries ++ leadOutEntry (framesToMSF (BitVec.ofNat 32 cs.discEnd))
  after : ∀ i < cs.tcnt, (cs.tracks i).start.toNat ≤ cs.discEnd

/-- A sheet without a track is not accepted, the lead-out is the length of the file, and the end of
the disc has the generated pregaps besides. -/
theorem loadCueSheet_spec {dir text : List Byte} {binSize : List Byte → Option Nat} {cs : CueSheet}
    (hload : loadCueSheet dir text binSize = .ok cs) :
    ∃ p, parseCueSheet dir text = .ok p ∧ cs.tcnt = p.cs.tcnt ∧ 0 < cs.tcnt ∧
      cs.length + p.totalPregap = BitVec.ofNat 32 cs.discEnd := by
  obtain ⟨p, hparse, hload⟩ := Except.bind_eq_ok.mp hload
  obtain ⟨size, -, hload⟩ := Except.bind_eq_ok.mp hload
  refine ⟨p, hparse, ?_⟩
  by_cases htcnt : p.cs.tcnt = 0
  · simp [htcnt] at hload
    cases hload
  · simp only [htcnt, if_false] at hload
    cases hload
    refine ⟨rfl, Nat.pos_of_ne_zero htcnt, ?_⟩
    simp only [CueSheet.discEnd, Function.update_self]
    apply BitVec.eq_of_toNat_eq
    simp only [BitVec.toNat_add, BitVec.toNat_ofNat, BitVec.toNat_ofInt]
    omega

/-- The end of the disc itself is found in the last track; where it has no position, the start of
the last track is not found there. -/
theorem toc_disagrees {dir text : List Byte} {binSize : List Byte → Option Nat} {cs : CueSheet}
    (hload : loadCueSheet dir text binSize = .ok cs) (hinc : cs.Increasing) : ¬TocAgrees cs := by
  obtain ⟨p, -, -, hpos, -⟩ := loadCueSheet_spec hload
  have hlast : cs.tcnt - 1 < cs.tcnt := Nat.sub_one_lt_of_lt hpos
  have hsum : ((cs.tracks (cs.tcnt - 1)).start + (cs.tracks (cs.tcnt - 1)).length).toNat =
      cs.discEnd % 2 ^ 32 := BitVec.toNat_add ..
  intro hagrees
  by_cases hend : cs.discEnd < 2 ^ 32
  · rw [Nat.mod_eq_of_lt hend] at hsum
    have hbeyond := hagrees.beyond _ hsum.ge
    have hstart : (cs.tracks (cs.tcnt - 1)).start ≤
        (cs.tracks (cs.tcnt - 1)).start + (cs.tracks (cs.tcnt - 1)).length := by
      rw [BitVec.le_def, hsum]
      exact Nat.le_add_right ..
    have hfound := positionToTrack_le hlast hstart (BitVec.le_refl _)
    omega
  · have hfirst : (cs.tracks 0).start ≤ (cs.tracks (cs.tcnt - 1)).start := by
      rcases Nat.eq_zero_or_pos (cs.tcnt - 1) with hone | hmore
      · rw [hone]
        exact BitVec.le_refl _
      · exact BitVec.le_of_lt (hinc 0 (cs.tcnt - 1) hmore hlast)
    obtain ⟨hlt, -, hnext⟩ := hagrees.lookup (cs.tracks (cs.tcnt - 1)).start hfirst (by omega)
    rcases positionToTrack_cases cs (cs.tracks (cs.tcnt - 1)).start with hnone | ⟨-, -, hin⟩
    · omega
    · have hfound : positionToTrack cs (cs.tracks (cs.tcnt - 1)).start = cs.tcnt - 1 := by
        by_contra hne
        exact BitVec.lt_irrefl _ (hnext (cs.tcnt - 1) (by omega) hlast)
      rw [hfound, BitVec.le_def, hsum] at hin
      unfold CueSheet.discEnd at hend hin
      omega

def oneTrack : List Byte := ascii "FILE \"a\" BINARY\nTRACK 01 AUDIO\nINDEX 01 00:00:00\n"

theorem oneTrack_loads :
    ∃ cs, loadCueSheet (ascii ".") oneTrack (fun _ => some 23520) = .ok cs ∧ cs.tcnt = 1 ∧
      cs.discEnd = 10 ∧ positionToTrack cs 10 = 0 := by
  have hrun : (loadCueSheet (ascii ".") oneTrack fun _ => some 23520).map
      (fun cs => (cs.tcnt, cs.discEnd, positionToTrack cs 10)) = .ok (1, 10, 0) := by
    decide +kernel
  cases hload : loadCueSheet (ascii ".") oneTrack fun _ => some 23520 with
  | error e =>
    rw [hload] at hrun
    cases hrun
  | ok cs =>
    rw [hload] at hrun
    obtain ⟨htcnt, hend, htrack⟩ := Prod.mk.inj (Except.ok.inj hrun) |>.imp_right Prod.mk.inj
    exact ⟨cs, rfl, htcnt, hend, htrack⟩

theorem CueSheet.increasing_of_one {cs : CueSheet} (htcnt : cs.tcnt = 1) : cs.Increasing := by
  intro i j hij hj
  omega

/-- Of a disc of ten frames, frame 10 is in the track. -/
theorem oneTrack_end :
    ∃ cs, loadCueSheet (ascii ".") oneTrack (fun _ => some 23520) = .ok cs ∧ cs.Increasing ∧
      cs.tcnt = 1 ∧ cs.discEnd = 10 ∧ positionToTrack cs 10 = 0 ∧ ¬TocAgrees cs := by
  obtain ⟨cs, hload, htcnt, hend, htrack⟩ := oneTrack_loads
  refine ⟨cs, hload, CueSheet.increasing_of_one htcnt, htcnt, hend, htrack, fun hagrees => ?_⟩
  have hbeyond := hagrees.beyond 10 hend.le
  omega

theorem oneTrack_disagrees :
    ∃ cs, loadCueSheet (ascii ".") oneTrack (fun _ => some 23520) = .ok cs ∧ cs.Increasing ∧
      ¬TocAgrees cs := by
  obtain ⟨cs, hload, htcnt, -⟩ := oneTrack_loads
  have hinc := CueSheet.increasing_of_one htcnt
  exact ⟨cs, hload, hinc, toc_disagrees hload hinc⟩

end SheepShear.Cd
