import SheepShear.Cd.CueSheet
import SheepShear.Lib.Steps

/-!
# Audio playback

`CDPlay_bincue`, the pause and the resume, and `fill_buffer` of `bincue_unix.cpp`.
Positions are unsigned, and what is left of the silence and of the range is an `int`.
The file can be read, and memory for the buffer is there.
-/

namespace SheepShear.Cd

open Steps

def rawSize : Word := 2352

/-- Minute, second and frame, each a byte. -/
structure DiscTime where
  m : Byte
  s : Byte
  f : Byte
deriving DecidableEq, Repr

def DiscTime.frames (t : DiscTime) : Word :=
  t.m.setWidth 32 * 60 * cdFrames + t.s.setWidth 32 * cdFrames + t.f.setWidth 32

inductive AudioStatus where
  | invalid
  | play
  | paused
  | completed
  | noStatus
deriving DecidableEq, Repr

structure CDPlayer where
  audioposition : Word
  audiostart : Word
  audioend : Word
  silence : Word
  audiostatus : AudioStatus
  fileoffset : Nat

/-- The bytes of the track's pregap from a frame on. -/
def Track.silentBytes (track : Track) (frame : Word) : Word :=
  if track.pregap < frame - track.start then 0
  else (track.pregap - frame + track.start) * rawSize

/-- The offset in the file of a frame behind the pregap, else of the track. -/
def Track.playOffset (track : Track) (frame : Word) : Nat :=
  if track.silentBytes frame = 0 then
    track.fileoffset.toNat + ((frame - track.start - track.pregap) * rawSize).toNat
  else track.fileoffset.toNat

def cdPlay (audioEnabled : Bool) (cs : CueSheet) (start stop : DiscTime) (player : CDPlayer) :
    CDPlayer :=
  let player := { player with
    audiostatus := .noStatus
    audiostart := start.frames
    audioend := stop.frames }
  let track := positionToTrack cs player.audiostart
  let player :=
    if track < cs.tcnt then { player with
      audioposition := 0
      silence := (cs.tracks track).silentBytes player.audiostart
      fileoffset := (cs.tracks track).playOffset player.audiostart }
    else player
  if audioEnabled then { player with audiostatus := .play } else player

def cdPause (player : CDPlayer) : CDPlayer :=
  if player.audiostatus = .play then { player with audiostatus := .paused } else player

def cdResume (player : CDPlayer) : CDPlayer :=
  if player.audiostatus = .paused then { player with audiostatus := .play } else player

/-- The part of `fill_buffer` after the silence, of which the buffer has `offset` bytes. -/
def fillData (f : BinFile) (silenceByte : Byte) (streamLen offset : Nat) (player : CDPlayer) :
    Option (List Byte) × CDPlayer :=
  let available : Int :=
    ((player.audioend - player.audiostart) * rawSize - player.audioposition).toInt
  let available := if streamLen - offset < available then (streamLen - offset : Int) else available
  let at? := BinFile.lseek
    (player.fileoffset + player.audioposition.toNat - player.silence.toNat : Int)
  match at? with
  | none => (none, player)
  | some position =>
    let audioposition :=
      if available < 0 then player.audioposition + BitVec.ofInt 32 available
      else player.audioposition
    let data := f.read position available.toNat
    -- bytes that the file does not have are silent, and the position counts them
    let missing := min (streamLen - offset - data.length) (available.toNat - data.length)
    (some (List.replicate offset silenceByte ++ data ++
        List.replicate (streamLen - offset - data.length) silenceByte),
      { player with audioposition := audioposition + BitVec.ofNat 32 (data.length + missing) })

def fillBuffer (f : BinFile) (silenceByte : Byte) (streamLen : Nat) (player : CDPlayer) :
    Option (List Byte) × CDPlayer :=
  if player.audiostatus = .play then
    let remaining := (player.silence - player.audioposition).toInt
    if player.audioend ≤ player.audiostart + player.audioposition / rawSize then
      (some (List.replicate streamLen silenceByte), { player with audiostatus := .completed })
    else if streamLen ≤ remaining then
      (some (List.replicate streamLen silenceByte),
        { player with audioposition := player.audioposition + BitVec.ofNat 32 streamLen })
    else if 0 < remaining then
      fillData f silenceByte streamLen remaining.toNat
        { player with audioposition := player.audioposition + BitVec.ofInt 32 remaining }
    else fillData f silenceByte streamLen 0 player
  else (some (List.replicate streamLen silenceByte), player)

-- ---------------------------------------------------------------------------
-- Playing a range
-- ---------------------------------------------------------------------------

/-- `heard` has the buffers that were returned while playing, and `completedAt` how much had been
heard when the status became completed. -/
structure Playback where
  player : CDPlayer
  heard : List Byte
  completedAt : Option Nat

inductive PlayAct where
  | fill (streamLen : Nat)
  | pause
  | resume

def playStep (f : BinFile) (silenceByte : Byte) (s : Playback) : PlayAct → Option Playback
  | .fill streamLen =>
    if 0 < streamLen ∧ streamLen < 2 ^ 31 then
      let (buffer, player) := fillBuffer f silenceByte streamLen s.player
      if s.player.audiostatus = .play then some {
        player
        heard := s.heard ++ buffer.getD []
        completedAt := if player.audiostatus = .completed then some s.heard.length else s.completedAt }
      else some { s with player }
    else none
  | .pause => some { s with player := cdPause s.player }
  | .resume => some { s with player := cdResume s.player }

/-- The range is in a track. -/
structure Inside (cs : CueSheet) (i : Nat) (start stop : DiscTime) : Prop where
  track : i < cs.tcnt
  first : (cs.tracks i).start.toNat ≤ start.frames.toNat
  order : start.frames.toNat ≤ stop.frames.toNat
  last : stop.frames.toNat ≤ (cs.tracks i).start.toNat + (cs.tracks i).length.toNat

def rangeBytes (start stop : DiscTime) : Nat :=
  (stop.frames.toNat - start.frames.toNat) * rawSectorSize

/-- The bytes of the pregap that are behind a frame of the track. -/
def Track.pregapLeft (track : Track) (frame : Nat) : Nat :=
  (track.pregap.toNat - (frame - track.start.toNat)) * rawSectorSize

/-- Where the data behind a frame of the track begin. -/
def Track.dataStart (track : Track) (frame : Nat) : Nat :=
  track.fileoffset.toNat + (frame - track.start.toNat - track.pregap.toNat) * rawSectorSize

/-- Byte `k` of the range from a frame on: the rest of the pregap, then the file, then silence. -/
def Track.rangeByte (track : Track) (f : BinFile) (silenceByte : Byte) (frame size k : Nat) : Byte :=
  if k < track.pregapLeft frame ∨ size ≤ k then silenceByte
  else f.bytes.getD (track.dataStart frame + (k - track.pregapLeft frame)) silenceByte

structure HeardExactly (track : Track) (f : BinFile) (silenceByte : Byte) (start stop : DiscTime)
    (s : Playback) : Prop where
  heard : s.heard = (List.range s.heard.length).map
    (track.rangeByte f silenceByte start.frames.toNat (rangeBytes start stop))
  position : s.player.audioposition.toNat ≤ rangeBytes start stop
  completed : ∀ n, s.completedAt = some n → rangeBytes start stop ≤ n

/-- Whatever the player did before, and whatever the file has, the range is heard exactly. -/
def PlaysExactly (silenceByte : Byte) (cs : CueSheet) (i : Nat) (start stop : DiscTime) : Prop :=
  ∀ (player : CDPlayer) (f : BinFile) (acts : List PlayAct) (s : Playback),
    run (playStep f silenceByte) ⟨cdPlay true cs start stop player, [], none⟩ acts = some s →
      HeardExactly (cs.tracks i) f silenceByte start stop s

end SheepShear.Cd
