import SheepShear.Lib.Steps
import SheepShear.Timer.Descriptors

/-!
# The timer interrupt

`TimerInterrupt` goes through the list and calls the procedures of the tasks
that have expired. A procedure is guest code that calls the Time Manager and
changes memory as it likes, while the interrupt keeps the pointer to the
descriptor that came next before the call. A run is a sequence of steps of both.
-/

namespace SheepShear.Timer

open IntrusiveList Steps

/-- Where the address of a task's procedure is. -/
def tmAddr (tm : Word) : Word := tm + 6

/-- The task is scheduled, for a time that has come. -/
def Expired (s : TimerState) (now : TmTime) (d : DescPtr) : Prop :=
  Active s.mem (s.desc d).task ∧ timerCmpTime (s.desc d).wakeup now ≤ 0

instance (s : TimerState) (now : TmTime) (d : DescPtr) : Decidable (Expired s now d) :=
  inferInstanceAs (Decidable (_ ∧ _))

namespace Interrupt

/-- Where the interrupt is. -/
inductive Point where
  /-- At the test of the loop. -/
  | loop (desc : Option DescPtr)
  /-- In the procedure of a task, with the pointer to go on with. -/
  | procedure (tm : Word) (next : Option DescPtr)
  | done
deriving DecidableEq

inductive Event where
  | visit (desc : DescPtr)
  /-- The task is made inactive, and its procedure is called if it has one. -/
  | call (tm : Word)
  /-- A procedure removes the task or primes it again. -/
  | touch (tm : Word)
deriving DecidableEq

def Event.isVisit : Event → Bool
  | .visit _ => true
  | _ => false

structure State where
  timer : TimerState
  point : Point
  trace : List Event

def start (s : TimerState) : State := ⟨s, .loop s.tmDescList, []⟩

inductive Act where
  /-- The interrupt goes on to its next test or into a procedure. -/
  | go
  /-- The procedure calls the Time Manager or changes memory. -/
  | call (c : TimerCall)
  /-- The procedure returns. -/
  | ret

/-- The task that a call removes or primes. -/
def touched : TimerCall → Option Word
  | .rmvTime _ tm => some tm
  | .primeTime _ tm _ => some tm
  | _ => none

/-- One turn of the loop. What a block holds after it was freed is not followed any further. -/
def visit (now : TmTime) (i : State) (d : DescPtr) : Option State :=
  let s := i.timer
  if d ∈ s.live then
    let next := s.next d
    let tm := (s.desc d).task
    if Expired s now d then
      let type := s.mem.readInt16 (qType tm) &&& 0x7fff#16
      let s := { s with mem := s.mem.writeInt16 (qType tm) type }
      let addr := s.mem.readInt32 (tmAddr tm)
      let point := if addr = 0 then .loop next else .procedure tm next
      some ⟨s, point, i.trace ++ [.visit d, .call tm]⟩
    else
      some ⟨s, .loop next, i.trace ++ [.visit d]⟩
  else
    none

def step (now : TmTime) (i : State) : Act → Option State
  | .go =>
    match i.point with
    | .loop (some d) => visit now i d
    | .loop none => i.timer.setWakeupTime.map fun s => ⟨s, .done, i.trace⟩
    | _ => none
  | .call c =>
    match i.point with
    | .procedure _ _ =>
      (c.exec i.timer).map fun s => ⟨s, i.point, i.trace ++ ((touched c).map .touch).toList⟩
    | _ => none
  | .ret =>
    match i.point with
    | .procedure _ next => some { i with point := .loop next }
    | _ => none

-- ---------------------------------------------------------------------------
-- What is asked of a run
-- ---------------------------------------------------------------------------

/-- Installed, scheduled and expired when the interrupt begins. -/
def Due (s₀ : TimerState) (now : TmTime) (tm : Word) : Prop :=
  ∃ d, s₀.findDesc tm = some (some d) ∧ Expired s₀ now d

/-- A procedure touched the task before its own procedure was called. -/
def Excused (trace : List Event) (tm : Word) : Prop :=
  ∃ before after, trace = before ++ .touch tm :: after ∧ .call tm ∉ before

/-- Neither called nor touched so far. -/
def Untouched (trace : List Event) (tm : Word) : Prop :=
  .call tm ∉ trace ∧ .touch tm ∉ trace

/-- The descriptors that the list leads to at this moment. -/
def OnList (s : TimerState) (d : DescPtr) : Prop := ∃ ds, Walk s.next s.tmDescList ds ∧ d ∈ ds

structure Good (s₀ : TimerState) (now : TmTime) (i : State) : Prop where
  /-- Every descriptor that is visited is on the list. -/
  listed : ∀ d, i.point = .loop (some d) → OnList i.timer d
  /-- The loop goes on, and no longer than the list was. -/
  goes_on : ∀ desc, i.point = .loop desc → (step now i .go).isSome
  visits : i.trace.countP Event.isVisit ≤ s₀.live.card
  /-- No due task is called twice, and none is left out in the end. -/
  at_most_once : ∀ tm, Due s₀ now tm → i.trace.count (.call tm) ≤ 1 ∨ Excused i.trace tm
  once : i.point = .done → ∀ tm, Due s₀ now tm → i.trace.count (.call tm) = 1 ∨ Excused i.trace tm

/-- What procedures can do. -/
def Possible (i : State) : Act → Prop
  | .call c => c.Possible i.timer
  | _ => True

/-- The call frees the descriptor. -/
def Frees (s : TimerState) (d : DescPtr) : TimerCall → Prop
  | .rmvTime _ tm => s.findDesc tm = some (some d)
  | _ => False

/-- The call leaves the task scheduled. -/
def Keeps (s : TimerState) (tm : Word) (c : TimerCall) : Prop :=
  ∀ s', c.exec s = some s' → Active s'.mem tm

/-- No procedure removes the task whose descriptor is visited next, and none takes the schedule of
a due task that is still to be called away without removing or priming it: by installing it once
more, or by a store. -/
def Spares (s₀ : TimerState) (now : TmTime) (i : State) : Act → Prop
  | .call c =>
    (∀ tm d, i.point = .procedure tm (some d) → ¬ Frees i.timer d c) ∧
    ∀ tm, Due s₀ now tm → Untouched i.trace tm → touched c ≠ some tm → Keeps i.timer tm c
  | _ => True

def Guard (s₀ : TimerState) (now : TmTime) (i : State) (a : Act) : Prop :=
  Possible i a ∧ Spares s₀ now i a

end Interrupt

end SheepShear.Timer
