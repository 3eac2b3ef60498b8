import SheepShear.Lib.Memory
import SheepShear.Lib.Steps

/-!
# The sound output component

`audio.cpp`: the selectors of `MacAudio::Dispatch`, with the device of
`audio_oss_esd.cpp`. What runs in the guest during a call, the Apple Mixer above
all, is a parameter of the call. The calls of `audio_enter_stream` and
`audio_exit_stream` and the blocks of memory that the component holds are
recorded.
-/

namespace SheepShear.Audio

/-- The vectors of supported formats, and `audio_frames_per_block`. -/
structure Formats where
  sampleRates : List Word
  sampleSizes : List (BitVec 16)
  channelCounts : List (BitVec 16)
  framesPerBlock : Word

structure AudioStatus where
  sampleRate : Word
  sampleSize : Word
  channels : Word
  mixer : Word
  numSources : Int

inductive StreamCall where
  | enter
  | exit
deriving DecidableEq, Repr

structure State where
  mem : Mem
  audioData : Word
  openCount : Int
  audioOpen : Bool
  status : AudioStatus
  sampleRateIndex : Nat
  sampleSizeIndex : Nat
  channelCountIndex : Nat
  /-- Oldest call first. -/
  stream : List StreamCall
  /-- Blocks of `NewPtrClear` that were not disposed of. -/
  held : List Word

/-- The 68k registers that the component passes on or looks at. -/
structure Registers where
  d0 : Word := 0
  a0 : Word := 0
  a1 : Word := 0
  a2 : Word := 0

/-- The guest during one call: what its code and its traps return and do to the memory. -/
structure Guest where
  execute68k : Word → Registers → Mem → Registers × Mem
  execute68kTrap : BitVec 16 → Registers → Mem → Registers × Mem

/-- The host's device during one call. -/
structure Device where
  opens : Bool
  speakerMute : Bool
  speakerVolume : Word
  mainMute : Bool
  mainVolume : Word

def noErr : Word := 0
def memFullErr : Word := BitVec.ofInt 32 (-108)
def badComponentSelector : Word := 0x80008002
def noHardwareErr : Word := BitVec.ofInt 32 (-200)
def badChannel : Word := BitVec.ofInt 32 (-205)
def siInvalidSampleRate : Word := BitVec.ofInt 32 (-225)
def siInvalidSampleSize : Word := BitVec.ofInt 32 (-226)
def siDeviceBusyErr : Word := BitVec.ofInt 32 (-227)

def fourcc (a b c d : Char) : Word :=
  BitVec.ofNat 32 (a.toNat * 2 ^ 24 + b.toNat * 2 ^ 16 + c.toNat * 2 ^ 8 + d.toNat)

/-- The sound information selectors that the component answers itself. -/
inductive InfoSelector where
  | sampleSize
  | sampleSizeAvailable
  | numberChannels
  | channelAvailable
  | sampleRate
  | sampleRateAvailable
  | speakerMute
  | speakerVolume
  | hardwareMute
  | hardwareVolume
  | hardwareVolumeSteps
  | hardwareBusy
  | hardwareFormat
deriving DecidableEq, Repr

def InfoSelector.ofCode (code : Word) : Option InfoSelector :=
  if code = fourcc 's' 's' 'i' 'z' then some .sampleSize
  else if code = fourcc 's' 's' 'a' 'v' then some .sampleSizeAvailable
  else if code = fourcc 'c' 'h' 'a' 'n' then some .numberChannels
  else if code = fourcc 'c' 'h' 'a' 'v' then some .channelAvailable
  else if code = fourcc 's' 'r' 'a' 't' then some .sampleRate
  else if code = fourcc 's' 'r' 'a' 'v' then some .sampleRateAvailable
  else if code = fourcc 's' 'm' 'u' 't' then some .speakerMute
  else if code = fourcc 's' 'v' 'o' 'l' then some .speakerVolume
  else if code = fourcc 'h' 'm' 'u' 't' then some .hardwareMute
  else if code = fourcc 'h' 'v' 'o' 'l' then some .hardwareVolume
  else if code = fourcc 'h' 's' 't' 'p' then some .hardwareVolumeSteps
  else if code = fourcc 'h' 'w' 'b' 's' then some .hardwareBusy
  else if code = fourcc 'h' 'w' 'f' 'm' then some .hardwareFormat
  else none

-- ---------------------------------------------------------------------------
-- The global data area
-- ---------------------------------------------------------------------------

def adatDelegateCall : Word := 0
def adatOpenMixer : Word := 14
def adatCloseMixer : Word := 36
def adatGetInfo : Word := 54
def adatSetInfo : Word := 78
def adatPlaySourceBuffer : Word := 102
def adatGetSourceData : Word := 126
def adatStartSource : Word := 146
def adatData : Word := 168
def adatMixer : Word := 196
def adatStreamInfo : Word := 200
def sizeofAdat : Word := 204

def m68kRts : BitVec 16 := 0x4e75

/-- The 68k routines of the data area in their order, each with the offset that the next one has to
be at. -/
def routines : List (List (BitVec 16) × Word) :=
  [([0x598f, 0x2f09, 0x2f08, 0x7024, 0xa82a, 0x201f, m68kRts], adatOpenMixer),
    ([0x558f, 0x2f09, 0x2f00, 0x2f08, 0x203c, 0x0614, 0x0018, 0xa800, 0x301f, 0x48c0, m68kRts],
      adatCloseMixer),
    ([0x558f, 0x2f08, 0x203c, 0x0218, 0x0018, 0xa800, 0x301f, 0x48c0, m68kRts], adatGetInfo),
    ([0x598f, 0x2f0a, 0x2f09, 0x2f00, 0x2f08, 0x2f3c, 0x000c, 0x0103, 0x7000, 0xa82a, 0x201f,
      m68kRts], adatSetInfo),
    ([0x598f, 0x2f0a, 0x2f09, 0x2f00, 0x2f08, 0x2f3c, 0x000c, 0x0104, 0x7000, 0xa82a, 0x201f,
      m68kRts], adatPlaySourceBuffer),
    ([0x598f, 0x2f0a, 0x2f09, 0x2f08, 0x2f00, 0x2f3c, 0x000c, 0x0108, 0x7000, 0xa82a, 0x201f,
      m68kRts], adatGetSourceData),
    ([0x598f, 0x2f09, 0x2f08, 0x2f3c, 0x0004, 0x0004, 0x7000, 0xa82a, 0x201f, m68kRts],
      adatStartSource),
    ([0x598f, 0x2f09, 0x3f00, 0x2f08, 0x2f3c, 0x0006, 0x0105, 0x7000, 0xa82a, 0x201f, m68kRts],
      adatData)]

def writeWords (m : Mem) (p : Word) : List (BitVec 16) → Mem × Word
  | [] => (m, p)
  | w :: ws => writeWords (m.writeInt16 p w) (p + 2) ws

/-- The routines are put in one after the other; none when one is not where it has to be, and the
emulator quits. -/
def putRoutines (audioData : Word) (m : Mem) (p : Word) :
    List (List (BitVec 16) × Word) → Option Mem
  | [] => some m
  | (ws, offset) :: rest =>
    let (m, p) := writeWords m p ws
    if p - audioData ≠ offset then none else putRoutines audioData m p rest

-- ---------------------------------------------------------------------------
-- Getting and setting information
-- ---------------------------------------------------------------------------

/-- A list of `count` values in a new handle, which `fill` stores. -/
def newList (g : Guest) (m : Mem) (infoPtr : Word) (count width : Nat) (fill : Word → Mem → Mem) :
    Word × Mem :=
  let (r, m) := g.execute68kTrap 0xa122 { d0 := BitVec.ofNat 32 (count * width) } m
  if r.a0 = 0 then (memFullErr, m)
  else
    let m := m.writeInt16 infoPtr (BitVec.ofNat 16 count)
    let m := m.writeInt32 (infoPtr + 2) r.a0
    (noErr, fill (m.readInt32 r.a0) m)

def fillInt16 (values : List (BitVec 16)) (sp : Word) (m : Mem) : Mem := (writeWords m sp values).1

def fillInt32 : List Word → Word → Mem → Mem
  | [], _, m => m
  | v :: vs, lp, m => fillInt32 vs (lp + 4) (m.writeInt32 lp v)

def hardwareFormat (status : AudioStatus) : Word :=
  if status.sampleSize = 16 then fourcc 't' 'w' 'o' 's' else fourcc 'r' 'a' 'w' ' '

/-- The `SoundComponentData` at `p`. -/
def writeFormat (f : Formats) (status : AudioStatus) (p : Word) (m : Mem) : Mem :=
  let m := m.writeInt32 p 0
  let m := m.writeInt32 (p + 4) (hardwareFormat status)
  let m := m.writeInt16 (p + 8) (status.channels.setWidth 16)
  let m := m.writeInt16 (p + 10) (status.sampleSize.setWidth 16)
  let m := m.writeInt32 (p + 12) status.sampleRate
  let m := m.writeInt32 (p + 16) f.framesPerBlock
  let m := m.writeInt32 (p + 20) 0
  m.writeInt32 (p + 24) 0

def ofBool16 (b : Bool) : BitVec 16 := if b then 1 else 0

def getInfo (f : Formats) (g : Guest) (dev : Device) (s : State)
    (infoPtr selector sourceID : Word) : Word × State :=
  let info (m : Mem) : Word × State := (noErr, { s with mem := m })
  let list (r : Word × Mem) : Word × State := (r.1, { s with mem := r.2 })
  match InfoSelector.ofCode selector with
  | some .sampleSize => info (s.mem.writeInt16 infoPtr (s.status.sampleSize.setWidth 16))
  | some .sampleSizeAvailable =>
    list (newList g s.mem infoPtr f.sampleSizes.length 2 (fillInt16 f.sampleSizes))
  | some .numberChannels => info (s.mem.writeInt16 infoPtr (s.status.channels.setWidth 16))
  | some .channelAvailable =>
    list (newList g s.mem infoPtr f.channelCounts.length 2 (fillInt16 f.channelCounts))
  | some .sampleRate => info (s.mem.writeInt32 infoPtr s.status.sampleRate)
  | some .sampleRateAvailable =>
    list (newList g s.mem infoPtr f.sampleRates.length 4 (fillInt32 f.sampleRates))
  | some .speakerMute => info (s.mem.writeInt16 infoPtr (ofBool16 dev.speakerMute))
  | some .speakerVolume => info (s.mem.writeInt32 infoPtr dev.speakerVolume)
  | some .hardwareMute => info (s.mem.writeInt16 infoPtr (ofBool16 dev.mainMute))
  | some .hardwareVolume => info (s.mem.writeInt32 infoPtr dev.mainVolume)
  | some .hardwareVolumeSteps => info (s.mem.writeInt16 infoPtr 7)
  | some .hardwareBusy => info (s.mem.writeInt16 infoPtr (ofBool16 (s.status.numSources != 0)))
  | some .hardwareFormat => info (writeFormat f s.status infoPtr s.mem)
  | none =>
    if s.status.mixer = 0 then (badComponentSelector, s)
    else
      let (r, m) := g.execute68k (s.audioData + adatGetInfo)
        { a0 := infoPtr, d0 := selector, a1 := sourceID, a2 := s.status.mixer } s.mem
      (r.d0, { s with mem := m })

def deviceClose (s : State) : State := { s with audioOpen := false }

def deviceOpen (f : Formats) (dev : Device) (s : State) : Bool × State :=
  if dev.opens then
    (true, { s with
      audioOpen := true
      status := { s.status with
        sampleRate := f.sampleRates.getD s.sampleRateIndex 0
        sampleSize := (f.sampleSizes.getD s.sampleSizeIndex 0).setWidth 32
        channels := (f.channelCounts.getD s.channelCountIndex 0).setWidth 32 } })
  else (false, s)

def setSampleRate (f : Formats) (dev : Device) (s : State) (index : Nat) : Bool × State :=
  deviceOpen f dev { deviceClose s with sampleRateIndex := index }

def setSampleSize (f : Formats) (dev : Device) (s : State) (index : Nat) : Bool × State :=
  deviceOpen f dev { deviceClose s with sampleSizeIndex := index }

def setChannels (f : Formats) (dev : Device) (s : State) (index : Nat) : Bool × State :=
  deviceOpen f dev { deviceClose s with channelCountIndex := index }

/-- One of the three parameters that need a device without sources. -/
def setParameter (s : State) (current infoPtr invalid : Word) (values : List Word)
    (set : State → Nat → Bool × State) : Word × State :=
  if s.status.numSources ≠ 0 then (siDeviceBusyErr, s)
  else if infoPtr = current then (noErr, s)
  else
    match values.findIdx? (· = infoPtr) with
    | none => (invalid, s)
    | some i =>
      let (ok, s) := set s i
      (if ok then noErr else invalid, s)

/-- The device's mutes and volumes are set on the host. -/
def setInfo (f : Formats) (g : Guest) (dev : Device) (s : State)
    (infoPtr selector sourceID : Word) : Word × State :=
  match InfoSelector.ofCode selector with
  | some .sampleSize =>
    setParameter s s.status.sampleSize infoPtr siInvalidSampleSize
      (f.sampleSizes.map (·.setWidth 32)) (setSampleSize f dev)
  | some .sampleRate =>
    setParameter s s.status.sampleRate infoPtr siInvalidSampleRate f.sampleRates
      (setSampleRate f dev)
  | some .numberChannels =>
    setParameter s s.status.channels infoPtr badChannel (f.channelCounts.map (·.setWidth 32))
      (setChannels f dev)
  | some .speakerMute | some .speakerVolume | some .hardwareMute | some .hardwareVolume => (noErr, s)
  | _ =>
    if s.status.mixer = 0 then (badComponentSelector, s)
    else
      let (r, m) := g.execute68k (s.audioData + adatSetInfo)
        { a0 := infoPtr, d0 := selector, a1 := sourceID, a2 := s.status.mixer } s.mem
      (r.d0, { s with mem := m })

-- ---------------------------------------------------------------------------
-- Dispatch
-- ---------------------------------------------------------------------------

inductive Selector where
  | open
  | close
  | canDo
  | version
  | register
  | initOutputDevice
  | getSource
  | addSource
  | removeSource
  | getInfo
  | setInfo
  | startSource
  | stopSource
  | pauseSource
  | playSourceBuffer
  /-- Any other selector that is delegated. -/
  | delegated
  | bad
deriving DecidableEq, Repr

def Selector.ofCode (code : Int) : Selector :=
  if code = -1 then .open
  else if code = -2 then .close
  else if code = -3 then .canDo
  else if code = -4 then .version
  else if code = -5 then .register
  else if code = 1 then .initOutputDevice
  else if code = 3 then .getSource
  else if code = 0x101 then .addSource
  else if code = 0x102 then .removeSource
  else if code = 0x103 then .getInfo
  else if code = 0x104 then .setInfo
  else if code = 0x105 then .startSource
  else if code = 0x106 then .stopSource
  else if code = 0x107 then .pauseSource
  else if code = 0x108 then .playSourceBuffer
  else if 0x100 ≤ code then .delegated
  else .bad

/-- `kComponentCanDoSelect`. -/
def canDo (code : Int) : Word :=
  match Selector.ofCode code with
  | .open | .close | .canDo | .version | .register | .initOutputDevice | .getSource | .getInfo
  | .setInfo | .startSource => 1
  | _ => 0

/-- The part of `kComponentOpenSelect` after the data area is there. -/
def enterComponent (s : State) : State :=
  { s with
    stream := if s.openCount = 0 then s.stream ++ [.enter] else s.stream
    openCount := s.openCount + 1 }

def openComponent (g : Guest) (s : State) : Option (Word × State) :=
  if s.audioData = 0 then
    let (_, m) := g.execute68kTrap 0xa040 { d0 := sizeofAdat } s.mem
    let (r, m) := g.execute68kTrap 0xa31e { d0 := sizeofAdat } m
    if r.a0 = 0 then some (memFullErr, { s with mem := m })
    else
      match putRoutines r.a0 m (r.a0 + adatDelegateCall) routines with
      | none => none
      | some m =>
        some (noErr, enterComponent { s with mem := m, audioData := r.a0, held := r.a0 :: s.held })
  else some (noErr, enterComponent s)

def closeComponent (g : Guest) (s : State) : Word × State :=
  let s : State := { s with openCount := s.openCount - 1 }
  if s.openCount = 0 then
    if s.audioData ≠ 0 ∧ s.status.mixer ≠ 0 then
      let (r, m) := g.execute68k (s.audioData + adatCloseMixer) { a0 := s.status.mixer } s.mem
      (r.d0, { s with mem := m, status := { s.status with mixer := 0 } })
    else
      let s : State :=
        if s.audioData ≠ 0 then
          let (_, m) := g.execute68kTrap 0xa01f { a0 := s.audioData } s.mem
          { s with mem := m, held := s.held.erase s.audioData, audioData := 0 }
        else s
      (noErr, { s with status := { s.status with numSources := 0 }, stream := s.stream ++ [.exit] })
  else (noErr, s)

def initOutputDevice (f : Formats) (g : Guest) (s : State) : Word × State :=
  if !s.audioOpen then (noHardwareErr, s)
  else if s.status.mixer ≠ 0 then (noErr, s)
  else
    let m := writeFormat f s.status (s.audioData + adatData) s.mem
    let m := m.writeInt32 (s.audioData + adatStreamInfo) 0
    let (r, m) := g.execute68k (s.audioData + adatOpenMixer)
      { a0 := s.audioData + adatMixer, d0 := 0, a1 := s.audioData + adatData } m
    (r.d0, { s with
      mem := m, status := { s.status with mixer := m.readInt32 (s.audioData + adatMixer) } })

/-- The label `delegate`. -/
def delegate (g : Guest) (params : Word) (s : State) : Word × State :=
  let (r, m) := g.execute68k (s.audioData + adatDelegateCall)
    { a0 := s.status.mixer, a1 := params } s.mem
  (r.d0, { s with mem := m })

def addSources (n : Int) (s : State) : State :=
  { s with status := { s.status with numSources := s.status.numSources + n } }

/-- The selector of a call, `cp_what` of its parameters. -/
def selectorOf (s : State) (params : Word) : Selector :=
  .ofCode (s.mem.readInt16 (params + 2)).toInt

/-- `MacAudio::Dispatch`. -/
def dispatch (f : Formats) (g : Guest) (dev : Device) (params : Word) (s : State) :
    Option (Word × State) :=
  let p := params + 4
  match selectorOf s params with
  | .open => openComponent g s
  | .close => some (closeComponent g s)
  | .canDo => some (canDo (s.mem.readInt16 p).toInt, s)
  | .version => some (0x00010003, s)
  | .register => some (noErr, s)
  | .initOutputDevice => some (initOutputDevice f g s)
  | .getSource => some (noErr, { s with mem := s.mem.writeInt32 (s.mem.readInt32 p) s.status.mixer })
  | .addSource => some (delegate g params (addSources 1 s))
  | .removeSource => some (delegate g params (addSources (-1) s))
  | .getInfo =>
    some (getInfo f g dev s (s.mem.readInt32 p) (s.mem.readInt32 (p + 4)) (s.mem.readInt32 (p + 8)))
  | .setInfo =>
    some (setInfo f g dev s (s.mem.readInt32 p) (s.mem.readInt32 (p + 4)) (s.mem.readInt32 (p + 8)))
  | .startSource =>
    let (_, m) := g.execute68k (s.audioData + adatStartSource)
      { d0 := (s.mem.readInt16 (p + 4)).setWidth 32, a0 := s.mem.readInt32 p,
        a1 := s.status.mixer } s.mem
    some (noErr, { s with mem := m })
  | .stopSource | .pauseSource | .delegated => some (delegate g params s)
  | .playSourceBuffer =>
    let (r, m) := g.execute68k (s.audioData + adatPlaySourceBuffer)
      { d0 := s.mem.readInt32 p, a0 := s.mem.readInt32 (p + 4), a1 := s.mem.readInt32 (p + 8),
        a2 := s.status.mixer } s.mem
    some (r.d0, { s with mem := m })
  | .bad => some (badComponentSelector, s)

end SheepShear.Audio
