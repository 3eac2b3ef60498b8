import SheepShear.Lib.Memory
import SheepShear.Lib.SinglyLinked
import SheepShear.Timer.HostTime

/-!
# The Time Manager

`timer.cpp` with a timer thread: a list of descriptors in host memory, one for
each installed task, and the tasks themselves in guest memory. A pointer to a
descriptor is a number, and the null pointer is `none`. The queue of the Mac is
not maintained (`TM_QUEUE` is 0).
-/

namespace SheepShear.Timer

open IntrusiveList

abbrev DescPtr := Nat

structure TMDesc where
  task : Word
  wakeup : TmTime
deriving DecidableEq, Repr

structure TimerState where
  mem : Mem
  tmDescList : Option DescPtr
  next : DescPtr → Option DescPtr
  desc : DescPtr → TMDesc
  live : Finset DescPtr
  wakeupTime : TmTime

def wakeupTimeMax : TmTime := ⟨0x7fffffff, 999999999⟩

-- ---------------------------------------------------------------------------
-- The fields of a task
-- ---------------------------------------------------------------------------

def qType (tm : Word) : Word := tm + 4
def tmCount (tm : Word) : Word := tm + 10
def tmWakeUp (tm : Word) : Word := tm + 14

/-- Bit 15 of `qType`: the task is scheduled. -/
def Active (m : Mem) (tm : Word) : Prop := m.readInt16 (qType tm) &&& 0x8000#16 ≠ 0

/-- Bit 14 of `qType`: installed by `InsXTime`. -/
def Extended (m : Mem) (tm : Word) : Prop := m.readInt16 (qType tm) &&& 0x4000#16 ≠ 0

instance (m : Mem) (tm : Word) : Decidable (Active m tm) := by unfold Active; infer_instance

instance (m : Mem) (tm : Word) : Decidable (Extended m tm) := by unfold Extended; infer_instance

/-- The `qType` that `InsTime` stores. -/
def insType (m : Mem) (tm : Word) (trap : BitVec 16) : BitVec 16 :=
  (m.readInt16 (qType tm) &&& 0x1fff#16) ||| ((trap <<< 4) &&& 0x6000#16)

namespace TimerState

def fuel (s : TimerState) : Nat := s.live.card

/-- `TimerReset`; the contents of memory are arbitrary. -/
def reset (mem : Mem) (desc : DescPtr → TMDesc) : TimerState :=
  ⟨mem, none, fun _ => none, desc, ∅, wakeupTimeMax⟩

-- ---------------------------------------------------------------------------
-- Descriptors
-- ---------------------------------------------------------------------------

def findDesc (s : TimerState) (tm : Word) : Option (Option DescPtr) :=
  searchNodes s.next (fun d => (s.desc d).task = tm) s.fuel s.tmDescList

/-- A new descriptor at the front of the list. -/
def push (s : TimerState) (p : DescPtr) (desc : TMDesc) : TimerState :=
  { s with
    desc := Function.update s.desc p desc
    next := Function.update s.next p s.tmDescList
    tmDescList := some p
    live := insert p s.live }

def freeDesc (s : TimerState) (desc : DescPtr) : Option TimerState := do
  let s ←
    if s.tmDescList = some desc then
      some { s with tmDescList := s.next desc }
    else
      match ← searchNodes s.next (fun d => s.next d = some desc) s.fuel s.tmDescList with
      | some d => some { s with next := Function.update s.next d (s.next desc) }
      | none => some s
  return { s with live := s.live.erase desc }

/-- The earliest wake-up of an active task, or the greatest time. -/
def setWakeupTime (s : TimerState) : Option TimerState := do
  let earlier (wakeupTime : TmTime) (d : DescPtr) : TmTime :=
    if Active s.mem (s.desc d).task ∧ timerCmpTime (s.desc d).wakeup wakeupTime < 0 then
      (s.desc d).wakeup
    else
      wakeupTime
  let wakeupTime ← foldNodes s.next earlier s.fuel s.tmDescList wakeupTimeMax
  return { s with wakeupTime }

-- ---------------------------------------------------------------------------
-- The calls
-- ---------------------------------------------------------------------------

/-- `new` returns the block `p`, which holds `junk` as its wake-up time; nothing is stored there. -/
def insTime (s : TimerState) (p : DescPtr) (junk : TmTime) (tm : Word) (trap : BitVec 16) :
    Option TimerState := do
  let s := { s with mem := s.mem.writeInt16 (qType tm) (insType s.mem tm trap) }
  match ← s.findDesc tm with
  | some _ => return s
  | none => return s.push p ⟨tm, junk⟩

def rmvTime (s : TimerState) (current : TmTime) (tm : Word) : Option TimerState := do
  match ← s.findDesc tm with
  | none => return s
  | some desc =>
    if Active s.mem tm then
      let type := s.mem.readInt16 (qType tm) &&& 0x7fff#16
      let s ← setWakeupTime { s with mem := s.mem.writeInt16 (qType tm) type }
      let remaining := timerSubTime (s.desc desc).wakeup current
      let s := { s with mem := s.mem.writeInt32 (tmCount tm) (timerHost2MacTime remaining) }
      s.freeDesc desc
    else
      let s := { s with mem := s.mem.writeInt32 (tmCount tm) 0 }
      s.freeDesc desc

def setWakeup (s : TimerState) (desc : DescPtr) (wakeup : TmTime) : TimerState :=
  { s with desc := Function.update s.desc desc { s.desc desc with wakeup := wakeup } }

/-- The time that `PrimeTime` gives to a task. -/
def primedWakeup (now : TmTime) (tm : Word) (time : Word) (desc : TMDesc) (m : Mem) : TmTime :=
  let delay := timerMac2HostTime time
  if Extended m tm ∧ m.readInt32 (tmWakeUp tm) ≠ 0 then
    let delay :=
      if time = 0 then timerMac2HostTime ((m.readInt16 (tmCount tm)).setWidth 32) else delay
    timerAddTime desc.wakeup delay
  else
    timerAddTime now delay

def primeTime (s : TimerState) (now : TmTime) (tm : Word) (time : Word) : Option TimerState := do
  match ← s.findDesc tm with
  | none => return s
  | some desc =>
    let wakeup := primedWakeup now tm time (s.desc desc) s.mem
    let mem := if Extended s.mem tm then s.mem.writeInt32 (tmWakeUp tm) 0x12345678 else s.mem
    let type := mem.readInt16 (qType tm) ||| 0x8000#16
    setWakeupTime { s.setWakeup desc wakeup with mem := mem.writeInt16 (qType tm) type }

end TimerState

-- ---------------------------------------------------------------------------
-- Runs
-- ---------------------------------------------------------------------------

inductive TimerCall where
  | insTime (p : DescPtr) (junk : TmTime) (tm : Word) (trap : BitVec 16)
  | rmvTime (current : TmTime) (tm : Word)
  | primeTime (now : TmTime) (tm : Word) (time : Word)
  /-- The Mac changes its memory. -/
  | mac (mem : Mem)

/-- `new` returns no block that is in use. -/
def TimerCall.Possible (s : TimerState) : TimerCall → Prop
  | .insTime p .. => p ∉ s.live
  | _ => True

def TimerCall.exec (s : TimerState) : TimerCall → Option TimerState
  | .insTime p junk tm trap => s.insTime p junk tm trap
  | .rmvTime current tm => s.rmvTime current tm
  | .primeTime now tm time => s.primeTime now tm time
  | .mac mem => some { s with mem := mem }

/-- What calls lead to from a reset on. -/
inductive TimerRun : TimerState → Prop where
  | reset (mem : Mem) (desc : DescPtr → TMDesc) : TimerRun (.reset mem desc)
  | call {s s' : TimerState} (c : TimerCall) : TimerRun s → c.Possible s → c.exec s = some s' →
    TimerRun s'

end SheepShear.Timer
