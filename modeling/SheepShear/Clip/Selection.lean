import SheepShear.Clip.ReadProperty

/-!
# Selection requests

`ClipboardSelectionRequest` of `clip_unix.cpp` and what it calls. A request is
about the properties of the window of its requestor, and a request for several
conversions at once reads there which ones it asks for.
-/

namespace SheepShear.Clip

-- ---------------------------------------------------------------------------
-- Requests and answers
-- ---------------------------------------------------------------------------

abbrev WindowId := BitVec 32

structure XSelectionRequestEvent where
  requestor : WindowId
  selection : Atom
  target : Atom
  property : Atom
  time : BitVec 32
  deriving DecidableEq

structure XSelectionEvent where
  requestor : WindowId
  selection : Atom
  target : Atom
  property : Atom
  time : BitVec 32
  deriving DecidableEq

structure ClipboardData where
  time : BitVec 32
  type : Atom
  data : List Byte

/-- The X11 variables of the program. Atoms of different names are different. -/
structure Client where
  display : Display
  clipWin : WindowId
  xaClipboard : Atom
  xaTargets : Atom
  xaMultiple : Atom
  xaTimestamp : Atom
  clipData : ClipboardData
  distinct : [xaTimestamp, xaTargets, XA_STRING, xaMultiple].Nodup

/-- The window of the requestor and the events that were sent to it. -/
structure World where
  window : Window
  sent : List XSelectionEvent

def World.change (s : World) (property : Atom) (prop : Property) : World :=
  { s with window := xChangeProperty s.window property prop }

structure AtomPair where
  target : Atom
  property : Atom
  deriving DecidableEq

/-- A `long` of the buffer as an atom, of which the upper bits are not sent. -/
def atomAt (data : List Byte) (i : Nat) : Atom :=
  Word.ofBytes (data.getD (i + 3) 0) (data.getD (i + 2) 0) (data.getD (i + 1) 0) (data.getD i 0)

def atomPairs (data : List Byte) : List AtomPair :=
  (List.range (data.length / 16)).map fun i =>
    { target := atomAt data (16 * i), property := atomAt data (16 * i + 8) }

-- ---------------------------------------------------------------------------
-- The handlers
-- ---------------------------------------------------------------------------

variable (c : Client)

def timestampProperty : Property where
  type := XA_INTEGER
  format := .bits32
  items := [c.clipData.time]

def targetsProperty : Property where
  type := c.xaTargets
  format := .bits32
  items := [c.xaTargets, c.xaMultiple, c.xaTimestamp] ++
    if c.clipData.type ≠ None then [c.clipData.type] else []

def stringProperty : Property where
  type := XA_STRING
  format := .bits8
  items := c.clipData.data.map fun b => b.setWidth 32

def handleSelectionTIMESTAMP (s : World) (req : XSelectionRequestEvent) : Bool × World :=
  (true, s.change req.property (timestampProperty c))

def handleSelectionTARGETS (s : World) (req : XSelectionRequestEvent) : Bool × World :=
  (true, s.change req.property (targetsProperty c))

def handleSelectionSTRING (s : World) (req : XSelectionRequestEvent) : Bool × World :=
  if c.clipData.type ≠ XA_STRING then (false, s)
  else (true, s.change req.property (stringProperty c))

/-- What handles a request that is part of another one. -/
abbrev Handler := World → XSelectionRequestEvent → Except Stop (Bool × World)

def servicePairs (handle : Handler) (req : XSelectionRequestEvent) :
    List AtomPair → Bool → World → Except Stop (Bool × World)
  | [], handled, s => .ok (handled, s)
  | pair :: pairs, handled, s =>
    -- None is not a valid property
    if pair.property = None then servicePairs handle req pairs handled s
    else do
      let (ok, s) ← handle s { req with target := pair.target, property := pair.property }
      servicePairs handle req pairs (handled && ok) s

def handleSelectionMULTIPLE (handle : Handler) (s : World) (req : XSelectionRequestEvent) :
    Except Stop (Bool × World) := do
  match ← readProperty c.display s.window req.property false false with
  | none => return (false, s)
  | some read =>
    if read.format ≠ some .bits32 then return (false, s)
    else servicePairs handle req (atomPairs read.buffer) true { s with window := read.window }

def dispatch (handle : Handler) (s : World) (req : XSelectionRequestEvent) :
    Except Stop (Bool × World) :=
  if req.target = c.xaTimestamp then .ok (handleSelectionTIMESTAMP c s req)
  else if req.target = c.xaTargets then .ok (handleSelectionTARGETS c s req)
  else if req.target = XA_STRING then .ok (handleSelectionSTRING c s req)
  else if req.target = c.xaMultiple then handleSelectionMULTIPLE c handle s req
  else .ok (false, s)

/-- The answer to a request, by whether it was handled. -/
def answer (req : XSelectionRequestEvent) (handled : Bool) : XSelectionEvent where
  requestor := req.requestor
  selection := req.selection
  target := req.target
  property := if handled then req.property else None
  time := req.time

/-- A handler calls this function again, to a depth of `fuel`. -/
def handleSelection : (fuel : Nat) → World → XSelectionRequestEvent → (isMultiple : Bool) →
    Except Stop (Bool × World)
  | 0, _, _, _ => .error .fuel
  | fuel + 1, s, req, isMultiple => do
    let (handled, s) ← dispatch c (fun s req => handleSelection fuel s req true) s req
    -- Notify requestor only when we are done with his request
    if handled && !isMultiple then
      return (handled, { s with sent := s.sent ++ [answer req handled] })
    else return (handled, s)

def clipboardSelectionRequest (fuel : Nat) (s : World) (req : XSelectionRequestEvent) :
    Except Stop World :=
  if req.requestor = c.clipWin ∨ req.selection ≠ c.xaClipboard then .ok s
  else (handleSelection c fuel s req false).map Prod.snd

-- ---------------------------------------------------------------------------
-- Depth
-- ---------------------------------------------------------------------------

variable {c}

theorem servicePairs_mono {f g : Handler} (hfg : ∀ s req r, f s req = .ok r → g s req = .ok r)
    {req : XSelectionRequestEvent} {pairs : List AtomPair} {handled : Bool} {s : World}
    {r : Bool × World} (h : servicePairs f req pairs handled s = .ok r) :
    servicePairs g req pairs handled s = .ok r := by
  induction pairs generalizing handled s with
  | nil => exact h
  | cons pair pairs ih =>
    rw [servicePairs] at h ⊢
    split_ifs at h ⊢ with hnone
    · exact ih h
    · obtain ⟨⟨ok, s'⟩, hpair, hrest⟩ := Except.bind_eq_ok.mp h
      rw [hfg _ _ _ hpair]
      exact ih hrest

theorem dispatch_mono {f g : Handler} (hfg : ∀ s req r, f s req = .ok r → g s req = .ok r)
    {s : World} {req : XSelectionRequestEvent} {r : Bool × World} (h : dispatch c f s req = .ok r) :
    dispatch c g s req = .ok r := by
  rw [dispatch] at h ⊢
  split_ifs at h ⊢ with htimestamp htargets hstring hmultiple
  · exact h
  · exact h
  · exact h
  · obtain ⟨read, hread, h⟩ := Except.bind_eq_ok.mp h
    rw [handleSelectionMULTIPLE, hread, Except.ok_bind]
    cases read with
    | none => exact h
    | some read =>
      simp only at h ⊢
      split_ifs at h ⊢ with hformat
      · exact h
      · exact servicePairs_mono hfg h
  · exact h

/-- What a depth is enough for, a greater one is enough for. -/
theorem handleSelection_mono {n k : Nat} (hle : n ≤ k) {s : World} {req : XSelectionRequestEvent}
    {isMultiple : Bool} {r : Bool × World} (h : handleSelection c n s req isMultiple = .ok r) :
    handleSelection c k s req isMultiple = .ok r := by
  induction n generalizing k s req isMultiple r with
  | zero => cases h
  | succ n ih =>
    obtain ⟨k, rfl⟩ : ∃ m, k = m + 1 := ⟨k - 1, by omega⟩
    obtain ⟨⟨handled, s'⟩, hdispatch, h⟩ := Except.bind_eq_ok.mp h
    rw [handleSelection, dispatch_mono (fun s req r => ih (by omega)) hdispatch]
    exact h

end SheepShear.Clip
