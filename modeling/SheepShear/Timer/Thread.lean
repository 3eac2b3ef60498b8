import SheepShear.Lib.Steps
import SheepShear.Timer.Interrupt

/-!
# The timer thread

`timer_func` of the POSIX timer and the functions of the emulator that stop it:
`RmvTime`, `PrimeTime` and `TimerInterrupt` suspend it by a signal, wait for its
acknowledgement and hold `wakeup_time_lock` while they compute `wakeup_time`. A
step is a statement of either thread, or a signal that is delivered.
-/

namespace SheepShear.Timer.Thread

-- ---------------------------------------------------------------------------
-- The statements
-- ---------------------------------------------------------------------------

inductive Party where
  | emulator
  | timerThread
deriving DecidableEq, Repr

/-- Where `timer_func` is. -/
inductive ThreadPoint where
  | sleep
  | clock
  | test (systemTime : TmTime)
  | lock
  | store
  | unlock
  | setFlag
  | trigger
deriving DecidableEq, Repr

/-- Where `sigsuspend_handler` is: before `sem_post`, or in `sigsuspend`. -/
inductive HandlerPoint where
  | post
  | wait
deriving DecidableEq, Repr

/-- What is done while the thread is suspended. -/
inductive Job where
  | rmvTime (tm : Word) (desc : DescPtr) (current : TmTime)
  | primeTime (tm : Word)
  | timerInterrupt
deriving DecidableEq, Repr

/-- The statements from `timer_thread_suspend` to the return of the function. -/
inductive Stage where
  | suspendLock
  | suspendTest
  | suspendKill
  | suspendWait
  | suspendUnlock
  | wakeupLock
  | enter
  | store
  | scan (d : Option DescPtr)
  | leave (scanned : Bool)
  | wakeupUnlock
  | resumeLock
  | resumeTest
  | resumeKill
  | resumeUnlock
  | finish
deriving DecidableEq, Repr

/-- Where the emulator is; `idle` is outside of the functions, or in the procedure of a task. -/
inductive Point where
  | idle
  | loop (desc : Option DescPtr) (now : TmTime)
  | locked (job : Job) (stage : Stage)
deriving DecidableEq, Repr

/-- Both threads. Of each timer interrupt in whose procedure the emulator is, `frames` has the
pointer that comes next and the time. -/
structure Machine where
  timer : TimerState
  timerFlag : Bool
  point : Point
  frames : List (Option DescPtr × TmTime)
  suspendCount : Nat
  suspendCountLock : Bool
  wakeupTimeLock : Option Party
  suspendAckSem : Nat
  suspendSignals : Nat
  resumeSignals : Nat
  thread : ThreadPoint
  handler : Option HandlerPoint

/-- After `TimerInit`. -/
def initial (mem : Mem) (desc : DescPtr → TMDesc) : Machine where
  timer := .reset mem desc
  timerFlag := false
  point := .idle
  frames := []
  suspendCount := 0
  suspendCountLock := false
  wakeupTimeLock := none
  suspendAckSem := 0
  suspendSignals := 0
  resumeSignals := 0
  thread := .sleep
  handler := none

-- ---------------------------------------------------------------------------
-- The emulator
-- ---------------------------------------------------------------------------

/-- The start of the body, and whether it looks for the next task. -/
def Job.enter (s : TimerState) : Job → TimerState × Bool
  | .rmvTime tm _ _ =>
    if Active s.mem tm then
      ({ s with mem := s.mem.writeInt16 (qType tm) (s.mem.readInt16 (qType tm) &&& 0x7fff#16) }, true)
    else (s, false)
  | .primeTime tm =>
    ({ s with mem := s.mem.writeInt16 (qType tm) (s.mem.readInt16 (qType tm) ||| 0x8000#16) }, true)
  | .timerInterrupt => (s, true)

/-- The end of the body. -/
def Job.leave (s : TimerState) (scanned : Bool) : Job → TimerState
  | .rmvTime tm desc current =>
    let count := if scanned then timerHost2MacTime (timerSubTime (s.desc desc).wakeup current) else 0
    { s with mem := s.mem.writeInt32 (tmCount tm) count }
  | .primeTime _ => s
  | .timerInterrupt => s

/-- After the thread has been resumed. -/
def Job.finish (s : TimerState) : Job → Option TimerState
  | .rmvTime _ desc _ => s.freeDesc desc
  | .primeTime _ => some s
  | .timerInterrupt => some s

/-- One turn of the search for the next task. -/
def scanOne (s : TimerState) (d : DescPtr) : TimerState :=
  if Active s.mem (s.desc d).task ∧ timerCmpTime (s.desc d).wakeup s.wakeupTime < 0 then
    { s with wakeupTime := (s.desc d).wakeup }
  else s

def Machine.at (m : Machine) (job : Job) (stage : Stage) : Machine := { m with point := .locked job stage }

/-- The next statement; the thread of a lock that is held waits, and an assertion ends the run. -/
def stageStep (m : Machine) (job : Job) : Stage → Option Machine
  | .suspendLock =>
    if m.suspendCountLock then none else some { m.at job .suspendTest with suspendCountLock := true }
  | .suspendTest =>
    if m.suspendCount = 0 then some { m.at job .suspendKill with suspendCount := m.suspendCount + 1 }
    else some (m.at job .suspendUnlock)
  | .suspendKill => some { m.at job .suspendWait with suspendSignals := m.suspendSignals + 1 }
  | .suspendWait =>
    if 0 < m.suspendAckSem then
      some { m.at job .suspendUnlock with suspendAckSem := m.suspendAckSem - 1 }
    else none
  | .suspendUnlock => some { m.at job .wakeupLock with suspendCountLock := false }
  | .wakeupLock =>
    if m.wakeupTimeLock = none then some { m.at job .enter with wakeupTimeLock := some .emulator }
    else none
  | .enter =>
    let (timer, scans) := job.enter m.timer
    some { m.at job (if scans then .store else .leave false) with timer := timer }
  | .store =>
    some { m.at job (.scan m.timer.tmDescList) with timer := { m.timer with wakeupTime := wakeupTimeMax } }
  | .scan (some d) =>
    if d ∈ m.timer.live then
      some { m.at job (.scan (m.timer.next d)) with timer := scanOne m.timer d }
    else none
  | .scan none => some (m.at job (.leave true))
  | .leave scanned => some { m.at job .wakeupUnlock with timer := job.leave m.timer scanned }
  | .wakeupUnlock => some { m.at job .resumeLock with wakeupTimeLock := none }
  | .resumeLock =>
    if m.suspendCountLock then none else some { m.at job .resumeTest with suspendCountLock := true }
  | .resumeTest =>
    if m.suspendCount = 0 then none
    else if m.suspendCount = 1 then some { m.at job .resumeKill with suspendCount := 0 }
    else some (m.at job .resumeUnlock)
  | .resumeKill => some { m.at job .resumeUnlock with resumeSignals := m.resumeSignals + 1 }
  | .resumeUnlock =>
    if m.suspendCount = 0 then some { m.at job .finish with suspendCountLock := false } else none
  | .finish => (job.finish m.timer).map fun timer => { m with timer := timer, point := .idle }

/-- One turn of the loop of `TimerInterrupt`. -/
def visit (m : Machine) (d : DescPtr) (now : TmTime) : Option Machine :=
  let s := m.timer
  if d ∈ s.live then
    let next := s.next d
    let tm := (s.desc d).task
    if Expired s now d then
      let s := { s with mem := s.mem.writeInt16 (qType tm) (s.mem.readInt16 (qType tm) &&& 0x7fff#16) }
      if s.mem.readInt32 (tmAddr tm) = 0 then some { m with timer := s, point := .loop next now }
      else some { m with timer := s, point := .idle, frames := (next, now) :: m.frames }
    else some { m with point := .loop next now }
  else none

def emulatorStep (m : Machine) : Option Machine :=
  match m.point with
  | .idle => none
  | .loop (some d) now => visit m d now
  | .loop none _ => some (m.at .timerInterrupt .suspendLock)
  | .locked job stage => stageStep m job stage

/-- What `PrimeTime` does before it suspends the thread. -/
def prime (s : TimerState) (d : DescPtr) (now : TmTime) (tm time : Word) : TimerState :=
  { s.setWakeup d (TimerState.primedWakeup now tm time (s.desc d) s.mem) with
    mem := if Extended s.mem tm then s.mem.writeInt32 (tmWakeUp tm) 0x12345678 else s.mem }

/-- A call from outside, or from the procedure of a task. -/
def callStep (m : Machine) : TimerCall → Option Machine
  | .insTime p junk tm trap =>
    if p ∈ m.timer.live then none
    else (m.timer.insTime p junk tm trap).map fun timer => { m with timer := timer }
  | .rmvTime current tm =>
    (m.timer.findDesc tm).map fun found =>
      match found with
      | none => m
      | some d => m.at (.rmvTime tm d current) .suspendLock
  | .primeTime now tm time =>
    (m.timer.findDesc tm).map fun found =>
      match found with
      | none => m
      | some d => { m.at (.primeTime tm) .suspendLock with timer := prime m.timer d now tm time }
  | .mac _ => none

-- ---------------------------------------------------------------------------
-- The timer thread
-- ---------------------------------------------------------------------------

/-- The next statement of `timer_func`, which reads the time `now` when it asks for it. -/
def threadStep (m : Machine) (now : TmTime) : Option Machine :=
  match m.thread with
  | .sleep => some { m with thread := .clock }
  | .clock => some { m with thread := .test now }
  | .test systemTime =>
    some { m with thread := if timerCmpTime m.timer.wakeupTime systemTime < 0 then .lock else .sleep }
  | .lock =>
    if m.wakeupTimeLock = none then some { m with wakeupTimeLock := some .timerThread, thread := .store }
    else none
  | .store => some { m with timer := { m.timer with wakeupTime := wakeupTimeMax }, thread := .unlock }
  | .unlock => some { m with wakeupTimeLock := none, thread := .setFlag }
  | .setFlag => some { m with timerFlag := true, thread := .trigger }
  | .trigger => some { m with thread := .sleep }

/-- The next statement of the handler, in which only the resume signal is not blocked. -/
def handlerStep (m : Machine) : HandlerPoint → Option Machine
  | .post => some { m with suspendAckSem := m.suspendAckSem + 1, handler := some .wait }
  | .wait =>
    if 0 < m.resumeSignals then some { m with resumeSignals := m.resumeSignals - 1, handler := none }
    else none

-- ---------------------------------------------------------------------------
-- Steps
-- ---------------------------------------------------------------------------

inductive Event where
  | call (c : TimerCall)
  /-- `OP_IRQ` finds the flag set, clears it and calls `TimerInterrupt`. -/
  | irq (now : TmTime)
  /-- The procedure of a task returns. -/
  | ret
  | emulator
  | thread (now : TmTime)
  /-- The thread is interrupted by the signal that suspends it. -/
  | deliverSuspend
  | deliverResume
  | handler

def step (m : Machine) : Event → Option Machine
  | .call c => if m.point = .idle then callStep m c else none
  | .irq now =>
    if m.point = .idle ∧ m.timerFlag then
      some { m with timerFlag := false, point := .loop m.timer.tmDescList now }
    else none
  | .ret =>
    match m.point, m.frames with
    | .idle, (next, now) :: frames => some { m with point := .loop next now, frames := frames }
    | _, _ => none
  | .emulator => emulatorStep m
  | .thread now => if m.handler = none then threadStep m now else none
  | .deliverSuspend =>
    if m.handler = none ∧ 0 < m.suspendSignals then
      some { m with suspendSignals := m.suspendSignals - 1, handler := some .post }
    else none
  | .deliverResume =>
    if m.handler = none ∧ 0 < m.resumeSignals then some { m with resumeSignals := m.resumeSignals - 1 }
    else none
  | .handler =>
    match m.handler with
    | some point => handlerStep m point
    | none => none

/-- The emulator is in none of the functions. -/
def Outside (m : Machine) : Prop := m.point = .idle ∧ m.frames = []

end SheepShear.Timer.Thread
