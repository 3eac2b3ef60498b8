import SheepShear.Lib.Bytes
import SheepShear.Lib.Ring
import SheepShear.Lib.Steps

/-!
# ADB keyboard events

`ADBInput::KeyDown`, `KeyUp` and the keyboard half of `ADBInput::Interrupt`. The
event thread posts key codes into a ring of 16 bytes while the emulator thread
takes them out; the steps of the two are single statements. The mouse half of
`Interrupt` and the interrupt flag do not touch the ring and are left out.
-/

namespace SheepShear.Adb

open Steps

/-- A Mac key code; `fKeyStates` has a bit for each. -/
abbrev KeyCode := BitVec 7

inductive KeyEvent where
  | down (code : KeyCode)
  | up (code : KeyCode)
deriving DecidableEq, Repr

/-- What `KeyDown` and `KeyUp` put into the buffer. -/
def KeyEvent.byte : KeyEvent → Byte
  | .down code => code.setWidth 8
  | .up code => code.setWidth 8 ||| 0x80#8

/-- The three bytes of `tmp_data` that the keyboard handler is called with. -/
structure KeyPacket where
  length : Byte
  code : Byte
  second : Byte
deriving DecidableEq, Repr

def keyPacket (macCode : Byte) : KeyPacket :=
  ⟨2, macCode, if macCode = 0x7f#8 then 0x7f#8 else 0xff#8⟩

/-- `KeyDown` or `KeyUp` between its two statements on the buffer. -/
inductive Poster where
  | idle
  | stored (e : KeyEvent)
deriving DecidableEq, Repr

/-- The places in the loop of `Interrupt`. -/
inductive Interrupt where
  | outside
  | testing
  | reading
  | advancing (macCode : Byte)
  | calling (macCode : Byte)
deriving DecidableEq, Repr

/-- The ring is `fKeyBuffer` with `fKeyReadPtr` and `fKeyWritePtr`. What was posted and what was
handed to the handler are recorded. -/
structure ADBInput where
  ring : Ring 16 Byte
  keyStates : Fin 16 → Byte
  poster : Poster
  interrupt : Interrupt
  posted : List KeyEvent
  handed : List KeyPacket

def ADBInput.initial (slots : Fin 16 → Byte) (keyStates : Fin 16 → Byte) : ADBInput :=
  ⟨⟨slots, 0, 0⟩, keyStates, .idle, .outside, [], []⟩

/-- The bit of a key in the matrix. -/
def setKey (keyStates : Fin 16 → Byte) (e : KeyEvent) : Fin 16 → Byte :=
  let at_ (code : KeyCode) : Fin 16 := Fin.ofNat 16 (code >>> 3).toNat
  let mask (code : KeyCode) : Byte := 1#8 <<< (~~~code &&& 7#7).toNat
  match e with
  | .down code => Function.update keyStates (at_ code) (keyStates (at_ code) ||| mask code)
  | .up code => Function.update keyStates (at_ code) (keyStates (at_ code) &&& ~~~mask code)

inductive Act where
  | store (e : KeyEvent)
  | publish
  | begin
  | test
  | read
  | advance
  | call
deriving DecidableEq, Repr

def step (s : ADBInput) : Act → Option ADBInput
  | .store e =>
    match s.poster with
    | .idle => some { s with ring := s.ring.store e.byte, poster := .stored e }
    | .stored _ => none
  | .publish =>
    match s.poster with
    | .idle => none
    | .stored e => some { s with
        ring := s.ring.publish
        keyStates := setKey s.keyStates e
        poster := .idle
        posted := s.posted ++ [e] }
  | .begin =>
    match s.interrupt with
    | .outside => some { s with interrupt := .testing }
    | _ => none
  | .test =>
    match s.interrupt with
    | .testing => some { s with interrupt := if s.ring.isEmpty then .outside else .reading }
    | _ => none
  | .read =>
    match s.interrupt with
    | .reading => some { s with interrupt := .advancing s.ring.front }
    | _ => none
  | .advance =>
    match s.interrupt with
    | .advancing macCode => some { s with ring := s.ring.advance, interrupt := .calling macCode }
    | _ => none
  | .call =>
    match s.interrupt with
    | .calling macCode =>
      some { s with handed := s.handed ++ [keyPacket macCode], interrupt := .testing }
    | _ => none

-- ---------------------------------------------------------------------------
-- Events that fit
-- ---------------------------------------------------------------------------

/-- A run of `Interrupt` ends here, with every code that was posted handed over once, in order. -/
def DeliveredAtEnd (s : ADBInput) : Prop :=
  ∀ s', step s .test = some s' → s'.interrupt = .outside →
    s'.handed.map KeyPacket.code = s'.posted.map KeyEvent.byte

/-- No key event comes while 15 codes wait. -/
def Fits (s : ADBInput) : Act → Prop
  | .store _ => s.ring.isFull = false
  | _ => True

/-- The code that was taken out of the ring and not handed over yet. -/
def Interrupt.taken : Interrupt → List Byte
  | .calling macCode => [macCode]
  | _ => []

structure Inv (s : ADBInput) : Prop where
  codes : s.posted.map KeyEvent.byte =
    s.handed.map KeyPacket.code ++ s.interrupt.taken ++ s.ring.contents
  stored : ∀ e, s.poster = .stored e → s.ring.isFull = false ∧ s.ring.slots s.ring.write = e.byte
  reading : s.interrupt = .reading → s.ring.isEmpty = false
  advancing : ∀ macCode, s.interrupt = .advancing macCode →
    s.ring.isEmpty = false ∧ s.ring.front = macCode

theorem initial_inv (slots keyStates : Fin 16 → Byte) : Inv (.initial slots keyStates) where
  codes := rfl
  stored := nofun
  reading := nofun
  advancing := nofun

theorem step_inv {s s' : ADBInput} {a : Act} (h : Inv s) (hfits : Fits s a)
    (hstep : step s a = some s') : Inv s' := by
  obtain ⟨hcodes, hstored, hreading, hadvancing⟩ := h
  cases a with
  | store e =>
    cases hp : s.poster with
    | stored _ => simp [step, hp] at hstep
    | idle =>
      simp only [step, hp, Option.some.injEq] at hstep
      subst hstep
      refine ⟨?_, ?_, hreading, ?_⟩
      · rw [Ring.contents_store]
        exact hcodes
      · rintro e' ⟨rfl⟩
        exact ⟨hfits, Function.update_self ..⟩
      · intro macCode hmac
        obtain ⟨hne, hfront⟩ := hadvancing macCode hmac
        exact ⟨hne, (Ring.front_store hne _).trans hfront⟩
  | publish =>
    cases hp : s.poster with
    | idle => simp [step, hp] at hstep
    | stored e =>
      simp only [step, hp, Option.some.injEq] at hstep
      subst hstep
      obtain ⟨hfull, hslot⟩ := hstored e hp
      refine ⟨?_, nofun, fun _ => Ring.isEmpty_publish hfull, ?_⟩
      · simp only [Ring.contents_publish _ hfull, hslot, List.map_append, hcodes,
          List.append_assoc, List.map_cons, List.map_nil]
      · intro macCode hmac
        exact ⟨Ring.isEmpty_publish hfull, (hadvancing macCode hmac).2⟩
  | begin =>
    cases hi : s.interrupt with
    | outside =>
      simp only [step, hi, Option.some.injEq] at hstep
      subst hstep
      rw [hi] at hcodes
      exact ⟨hcodes, hstored, nofun, nofun⟩
    | testing | reading | advancing | calling => simp [step, hi] at hstep
  | test =>
    cases hi : s.interrupt with
    | testing =>
      simp only [step, hi, Option.some.injEq] at hstep
      subst hstep
      rw [hi] at hcodes
      cases he : s.ring.isEmpty with
      | true => exact ⟨hcodes, hstored, nofun, nofun⟩
      | false => exact ⟨hcodes, hstored, fun _ => he, nofun⟩
    | outside | reading | advancing | calling => simp [step, hi] at hstep
  | read =>
    cases hi : s.interrupt with
    | reading =>
      simp only [step, hi, Option.some.injEq] at hstep
      subst hstep
      rw [hi] at hcodes
      refine ⟨hcodes, hstored, nofun, ?_⟩
      rintro macCode ⟨rfl⟩
      exact ⟨hreading hi, rfl⟩
    | outside | testing | advancing | calling => simp [step, hi] at hstep
  | advance =>
    cases hi : s.interrupt with
    | advancing macCode =>
      simp only [step, hi, Option.some.injEq] at hstep
      subst hstep
      obtain ⟨hne, rfl⟩ := hadvancing macCode hi
      refine ⟨?_, ?_, nofun, nofun⟩
      · rw [hi, Ring.contents_advance _ hne] at hcodes
        simpa [Interrupt.taken] using hcodes
      · intro e he
        exact ⟨Ring.isFull_advance hne, (hstored e he).2⟩
    | outside | testing | reading | calling => simp [step, hi] at hstep
  | call =>
    cases hi : s.interrupt with
    | calling macCode =>
      simp only [step, hi, Option.some.injEq] at hstep
      subst hstep
      rw [hi] at hcodes
      refine ⟨?_, hstored, nofun, nofun⟩
      simpa [Interrupt.taken, keyPacket] using hcodes
    | outside | testing | reading | advancing => simp [step, hi] at hstep

theorem Inv.deliveredAtEnd {s : ADBInput} (h : Inv s) : DeliveredAtEnd s := by
  intro s' hstep hend
  cases hi : s.interrupt with
  | testing =>
    simp only [step, hi, Option.some.injEq] at hstep
    subst hstep
    cases he : s.ring.isEmpty with
    | true =>
      have hnil : s.ring.contents = [] := s.ring.contents_eq_nil_iff.mpr he
      have hcodes := h.codes
      rw [hi, hnil] at hcodes
      simpa [Interrupt.taken] using hcodes.symm
    | false => simp [he] at hend
  | outside | reading | advancing | calling => simp [step, hi] at hstep

/-- In every run in which a key event never comes while the buffer holds 15 codes, each run of
`Interrupt` ends with exactly the posted codes handed over. -/
theorem keys_delivered (slots keyStates : Fin 16 → Byte) {s : ADBInput}
    (h : Reaches step Fits (.initial slots keyStates) s) : DeliveredAtEnd s :=
  (h.invariant (initial_inv slots keyStates) fun hinv hfits => step_inv hinv hfits).deliveredAtEnd

-- ---------------------------------------------------------------------------
-- Events that do not fit
-- ---------------------------------------------------------------------------

/-- Eight keys are pressed and released before the next interrupt. -/
def burst : List Act :=
  (List.range 8).flatMap fun i =>
    [.store (.down (BitVec.ofNat 7 i)), .publish, .store (.up (BitVec.ofNat 7 i)), .publish]

def burstEnd : ADBInput :=
  let s := ADBInput.initial (fun _ => 0) fun _ => 0
  (run step s (burst ++ [.begin])).getD s

/-- The sixteenth code makes the full ring look empty, and none is handed over. -/
theorem burst_lost :
    Reaches step (fun _ _ => True) (.initial (fun _ => 0) fun _ => 0) burstEnd ∧
      ¬DeliveredAtEnd burstEnd := by
  refine ⟨reaches_of_run (show run step _ (burst ++ [.begin]) = some burstEnd from rfl), ?_⟩
  intro h
  have hcodes := h _ rfl rfl
  exact absurd hcodes (by decide)

/-- One key press, and the interrupt that delivers it. -/
def keyPress : List Act := [.store (.down 5), .publish, .begin, .test, .read, .advance, .call]

def keyPressEnd : ADBInput :=
  let s := ADBInput.initial (fun _ => 0) fun _ => 0
  (run step s keyPress).getD s

theorem keyPress_delivered :
    Reaches step Fits (.initial (fun _ => 0) fun _ => 0) keyPressEnd ∧
      DeliveredAtEnd keyPressEnd :=
  have h : Reaches step Fits (.initial (fun _ => 0) fun _ => 0) keyPressEnd :=
    Reaches.start.run_append (show run step _ keyPress = some keyPressEnd from rfl)
      ⟨rfl, trivial, trivial, trivial, trivial, trivial, trivial, trivial⟩
  ⟨h, keys_delivered _ _ h⟩

end SheepShear.Adb
