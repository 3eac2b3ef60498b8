import SheepShear.Timer.Thread

/-!
# Suspending the timer thread

What the locks, the semaphore and the signals are at each statement of the two
threads. The thread is suspended exactly while the emulator counts on it; where it
is suspended while it holds `wakeup_time_lock`, the emulator waits for it forever.
-/

namespace SheepShear.Timer.Thread

-- ---------------------------------------------------------------------------
-- What holds at a statement
-- ---------------------------------------------------------------------------

/-- What the emulator has asked of the thread. -/
inductive Phase where
  | running
  | asked
  | stopped
deriving DecidableEq, Repr

/-- The count and the locks of the emulator. -/
structure Held where
  suspendCount : Nat
  countLock : Bool
  wakeupLock : Bool
  phase : Phase

def Stage.held : Stage → Held
  | .suspendLock => ⟨0, false, false, .running⟩
  | .suspendTest => ⟨0, true, false, .running⟩
  | .suspendKill => ⟨1, true, false, .running⟩
  | .suspendWait => ⟨1, true, false, .asked⟩
  | .suspendUnlock => ⟨1, true, false, .stopped⟩
  | .wakeupLock => ⟨1, false, false, .stopped⟩
  | .enter => ⟨1, false, true, .stopped⟩
  | .store => ⟨1, false, true, .stopped⟩
  | .scan _ => ⟨1, false, true, .stopped⟩
  | .leave _ => ⟨1, false, true, .stopped⟩
  | .wakeupUnlock => ⟨1, false, true, .stopped⟩
  | .resumeLock => ⟨1, false, false, .stopped⟩
  | .resumeTest => ⟨1, true, false, .stopped⟩
  | .resumeKill => ⟨0, true, false, .stopped⟩
  | .resumeUnlock => ⟨0, true, false, .running⟩
  | .finish => ⟨0, false, false, .running⟩

def Point.held : Point → Held
  | .idle => ⟨0, false, false, .running⟩
  | .loop _ _ => ⟨0, false, false, .running⟩
  | .locked _ stage => stage.held

def ThreadPoint.holds : ThreadPoint → Bool
  | .store => true
  | .unlock => true
  | _ => false

/-- The thread runs, or is about to be resumed. -/
def Resumed (m : Machine) : Prop :=
  m.handler = none ∧ m.resumeSignals = 0 ∨ m.handler = some .wait ∧ m.resumeSignals = 1

/-- The signals, the handler and the semaphore in each phase. -/
def Signals (m : Machine) : Phase → Prop
  | .running => m.suspendSignals = 0 ∧ m.suspendAckSem = 0 ∧ Resumed m
  | .asked =>
    m.suspendSignals = 1 ∧ m.suspendAckSem = 0 ∧ Resumed m ∨
      m.suspendSignals = 0 ∧ m.resumeSignals = 0 ∧
        (m.handler = some .post ∧ m.suspendAckSem = 0 ∨ m.handler = some .wait ∧ m.suspendAckSem = 1)
  | .stopped =>
    m.suspendSignals = 0 ∧ m.suspendAckSem = 0 ∧ m.handler = some .wait ∧ m.resumeSignals = 0

structure Control (m : Machine) : Prop where
  suspendCount : m.suspendCount = m.point.held.suspendCount
  countLock : m.suspendCountLock = m.point.held.countLock
  emulatorLock : m.wakeupTimeLock = some .emulator ↔ m.point.held.wakeupLock = true
  threadLock : m.wakeupTimeLock = some .timerThread ↔ m.thread.holds = true
  signals : Signals m m.point.held.phase

theorem control_initial (mem : Mem) (desc : DescPtr → TMDesc) : Control (initial mem desc) :=
  ⟨rfl, rfl, by simp [initial, Point.held], by simp [initial, ThreadPoint.holds],
    rfl, rfl, .inl ⟨rfl, rfl⟩⟩

variable {m m' : Machine} {job : Job} {stage : Stage} {e : Event}

/-- Nothing but the point and the Time Manager changes, and the point holds the same. -/
theorem Control.move (h : Control m) (timer : TimerState) (point : Point)
    (frames : List (Option DescPtr × TmTime)) (hheld : point.held = m.point.held) :
    Control { m with timer := timer, point := point, frames := frames } := by
  refine ⟨?_, ?_, ?_, h.threadLock, ?_⟩
  · rw [hheld]
    exact h.suspendCount
  · rw [hheld]
    exact h.countLock
  · rw [hheld]
    exact h.emulatorLock
  · rw [hheld]
    exact h.signals

theorem held_after_enter (scans : Bool) :
    (if scans then Stage.store else .leave false).held = Stage.enter.held := by
  cases scans <;> rfl

theorem Control.stageStep (h : Control m) (hpoint : m.point = .locked job stage)
    (hstep : stageStep m job stage = some m') : Control m' := by
  have hmove : ∀ timer next, Stage.held next = stage.held →
      Control { m with timer := timer, point := .locked job next } := fun timer next hheld =>
    h.move timer (.locked job next) m.frames (by rw [hpoint]; exact hheld)
  obtain ⟨hcount, hlock, hemulator, hthread, hsignals⟩ := h
  rw [hpoint] at hcount hlock hemulator hsignals
  cases stage with
  | suspendLock =>
    rw [Thread.stageStep] at hstep
    split_ifs at hstep
    obtain rfl := Option.some.inj hstep
    exact ⟨hcount, rfl, hemulator, hthread, hsignals⟩
  | suspendTest =>
    rw [Thread.stageStep, if_pos (show m.suspendCount = 0 from hcount)] at hstep
    obtain rfl := Option.some.inj hstep
    exact ⟨congrArg (· + 1) hcount, hlock, hemulator, hthread, hsignals⟩
  | suspendKill =>
    obtain rfl := Option.some.inj hstep
    obtain ⟨hsignal, hack, hresumed⟩ := hsignals
    exact ⟨hcount, hlock, hemulator, hthread, .inl ⟨congrArg (· + 1) hsignal, hack, hresumed⟩⟩
  | suspendWait =>
    rw [Thread.stageStep] at hstep
    split_ifs at hstep with hposted
    obtain rfl := Option.some.inj hstep
    obtain ⟨-, hack, -⟩ | ⟨hsignal, hresume, ⟨-, hack⟩ | ⟨hhandler, hack⟩⟩ := hsignals
    · omega
    · omega
    · exact ⟨hcount, hlock, hemulator, hthread, hsignal, by rw [hack], hhandler, hresume⟩
  | suspendUnlock =>
    obtain rfl := Option.some.inj hstep
    exact ⟨hcount, rfl, hemulator, hthread, hsignals⟩
  | wakeupLock =>
    rw [Thread.stageStep] at hstep
    split_ifs at hstep with hfree
    obtain rfl := Option.some.inj hstep
    rw [hfree] at hthread
    refine ⟨hcount, hlock, iff_of_true rfl rfl, ?_, hsignals⟩
    exact iff_of_false (by simp) fun hholds => by cases hthread.mpr hholds
  | enter =>
    obtain rfl := Option.some.inj hstep
    exact hmove _ _ (held_after_enter _)
  | store =>
    obtain rfl := Option.some.inj hstep
    exact ⟨hcount, hlock, hemulator, hthread, hsignals⟩
  | scan d =>
    cases d with
    | none =>
      obtain rfl := Option.some.inj hstep
      exact hmove m.timer _ rfl
    | some d =>
      rw [Thread.stageStep] at hstep
      split_ifs at hstep
      obtain rfl := Option.some.inj hstep
      exact hmove _ _ rfl
  | leave scanned =>
    obtain rfl := Option.some.inj hstep
    exact ⟨hcount, hlock, hemulator, hthread, hsignals⟩
  | wakeupUnlock =>
    obtain rfl := Option.some.inj hstep
    have hheld : m.wakeupTimeLock = some .emulator := hemulator.mpr rfl
    rw [hheld] at hthread
    refine ⟨hcount, hlock, by simp [Machine.at, Point.held, Stage.held], ?_, hsignals⟩
    exact iff_of_false (by simp) fun hholds => by cases hthread.mpr hholds
  | resumeLock =>
    rw [Thread.stageStep] at hstep
    split_ifs at hstep
    obtain rfl := Option.some.inj hstep
    exact ⟨hcount, rfl, hemulator, hthread, hsignals⟩
  | resumeTest =>
    have hone : m.suspendCount = 1 := hcount
    rw [Thread.stageStep, if_neg (by rw [hone]; decide), if_pos hone] at hstep
    obtain rfl := Option.some.inj hstep
    exact ⟨rfl, hlock, hemulator, hthread, hsignals⟩
  | resumeKill =>
    obtain rfl := Option.some.inj hstep
    obtain ⟨hsignal, hack, hhandler, hresume⟩ := hsignals
    exact ⟨hcount, hlock, hemulator, hthread, hsignal, hack, .inr ⟨hhandler, congrArg (· + 1) hresume⟩⟩
  | resumeUnlock =>
    rw [Thread.stageStep, if_pos (show m.suspendCount = 0 from hcount)] at hstep
    obtain rfl := Option.some.inj hstep
    exact ⟨hcount, rfl, hemulator, hthread, hsignals⟩
  | finish =>
    obtain ⟨timer, -, rfl⟩ := Option.map_eq_some_iff.mp hstep
    exact ⟨hcount, hlock, hemulator, hthread, hsignals⟩

theorem Control.visit (h : Control m) {d : DescPtr} {now : TmTime} (hpoint : m.point = .loop (some d) now)
    (hstep : visit m d now = some m') : Control m' := by
  simp only [Thread.visit] at hstep
  split_ifs at hstep
  · obtain rfl := Option.some.inj hstep
    exact h.move _ _ m.frames (by rw [hpoint]; rfl)
  · obtain rfl := Option.some.inj hstep
    exact h.move _ _ _ (by rw [hpoint]; rfl)
  · obtain rfl := Option.some.inj hstep
    exact h.move m.timer _ m.frames (by rw [hpoint]; rfl)

theorem Control.emulatorStep (h : Control m) (hstep : emulatorStep m = some m') : Control m' := by
  rw [Thread.emulatorStep] at hstep
  cases hpoint : m.point with
  | idle =>
    rw [hpoint] at hstep
    cases hstep
  | loop desc now =>
    rw [hpoint] at hstep
    cases desc with
    | some d => exact h.visit hpoint hstep
    | none =>
      obtain rfl := Option.some.inj hstep
      exact h.move m.timer _ m.frames (by rw [hpoint]; rfl)
  | locked job stage =>
    rw [hpoint] at hstep
    exact h.stageStep hpoint hstep

theorem Control.callStep (h : Control m) (hpoint : m.point = .idle) {c : TimerCall}
    (hstep : callStep m c = some m') : Control m' := by
  cases c with
  | insTime p junk tm trap =>
    rw [Thread.callStep] at hstep
    split_ifs at hstep
    obtain ⟨timer, -, rfl⟩ := Option.map_eq_some_iff.mp hstep
    exact h.move timer m.point m.frames rfl
  | rmvTime current tm =>
    obtain ⟨found, -, rfl⟩ := Option.map_eq_some_iff.mp hstep
    cases found with
    | none => exact h
    | some d => exact h.move m.timer _ m.frames (by rw [hpoint]; rfl)
  | primeTime now tm time =>
    obtain ⟨found, -, rfl⟩ := Option.map_eq_some_iff.mp hstep
    cases found with
    | none => exact h
    | some d => exact h.move _ _ m.frames (by rw [hpoint]; rfl)
  | mac mem => cases hstep

/-- The thread leaves what belongs to the emulator alone. -/
theorem Control.threadStep (h : Control m) {now : TmTime} (hstep : threadStep m now = some m') :
    Control m' := by
  obtain ⟨hcount, hlock, hemulator, hthread, hsignals⟩ := h
  rw [Thread.threadStep] at hstep
  cases hpoint : m.thread with
  | sleep =>
    rw [hpoint] at hstep hthread
    obtain rfl := Option.some.inj hstep
    exact ⟨hcount, hlock, hemulator, hthread, hsignals⟩
  | clock =>
    rw [hpoint] at hstep hthread
    obtain rfl := Option.some.inj hstep
    exact ⟨hcount, hlock, hemulator, hthread, hsignals⟩
  | test systemTime =>
    rw [hpoint] at hstep hthread
    obtain rfl := Option.some.inj hstep
    refine ⟨hcount, hlock, hemulator, ?_, hsignals⟩
    split
    · exact hthread
    · exact hthread
  | lock =>
    rw [hpoint] at hstep
    simp only at hstep
    split_ifs at hstep with hfree
    obtain rfl := Option.some.inj hstep
    rw [hfree] at hemulator
    refine ⟨hcount, hlock, ?_, iff_of_true rfl rfl, hsignals⟩
    exact iff_of_false (by simp) fun hholds => by cases hemulator.mpr hholds
  | store =>
    rw [hpoint] at hstep hthread
    obtain rfl := Option.some.inj hstep
    exact ⟨hcount, hlock, hemulator, hthread, hsignals⟩
  | unlock =>
    rw [hpoint] at hstep hthread
    obtain rfl := Option.some.inj hstep
    have hheld : m.wakeupTimeLock = some .timerThread := hthread.mpr rfl
    rw [hheld] at hemulator
    refine ⟨hcount, hlock, ?_, iff_of_false (by simp) (by simp [ThreadPoint.holds]), hsignals⟩
    exact iff_of_false (by simp) fun hholds => by cases hemulator.mpr hholds
  | setFlag =>
    rw [hpoint] at hstep hthread
    obtain rfl := Option.some.inj hstep
    exact ⟨hcount, hlock, hemulator, hthread, hsignals⟩
  | trigger =>
    rw [hpoint] at hstep hthread
    obtain rfl := Option.some.inj hstep
    exact ⟨hcount, hlock, hemulator, hthread, hsignals⟩

/-- The signal is delivered only after the emulator has sent it. -/
theorem Control.deliverSuspend (h : Control m) (hhandler : m.handler = none) (hsent : 0 < m.suspendSignals) :
    Control { m with suspendSignals := m.suspendSignals - 1, handler := some .post } := by
  refine ⟨h.suspendCount, h.countLock, h.emulatorLock, h.threadLock, ?_⟩
  have hsignals := h.signals
  show Signals _ m.point.held.phase
  cases hphase : m.point.held.phase with
  | running =>
    rw [hphase] at hsignals
    exact absurd hsignals.1 (by omega)
  | asked =>
    rw [hphase] at hsignals
    obtain ⟨hsignal, hack, ⟨-, hresume⟩ | ⟨hwait, -⟩⟩ | ⟨hsignal, -⟩ := hsignals
    · exact .inr ⟨by simp only [hsignal], hresume, .inl ⟨rfl, hack⟩⟩
    · rw [hhandler] at hwait
      cases hwait
    · omega
  | stopped =>
    rw [hphase] at hsignals
    exact absurd hsignals.1 (by omega)

theorem Control.resumed_of_none (h : Control m) (hhandler : m.handler = none) : m.resumeSignals = 0 := by
  have hsignals := h.signals
  have hresumed : Resumed m → m.resumeSignals = 0 := by
    rintro (⟨-, hresume⟩ | ⟨hwait, -⟩)
    · exact hresume
    · rw [hhandler] at hwait
      cases hwait
  cases hphase : m.point.held.phase with
  | running =>
    rw [hphase] at hsignals
    exact hresumed hsignals.2.2
  | asked =>
    rw [hphase] at hsignals
    obtain ⟨-, -, hrunning⟩ | ⟨-, hresume, -⟩ := hsignals
    · exact hresumed hrunning
    · exact hresume
  | stopped =>
    rw [hphase] at hsignals
    exact hsignals.2.2.2

theorem Control.handlerStep (h : Control m) {point : HandlerPoint} (hhandler : m.handler = some point)
    (hstep : handlerStep m point = some m') : Control m' := by
  have hsignals := h.signals
  cases point with
  | post =>
    obtain rfl := Option.some.inj hstep
    refine ⟨h.suspendCount, h.countLock, h.emulatorLock, h.threadLock, ?_⟩
    show Signals _ m.point.held.phase
    cases hphase : m.point.held.phase with
    | running =>
      rw [hphase] at hsignals
      obtain ⟨-, -, ⟨hnone, -⟩ | ⟨hwait, -⟩⟩ := hsignals
      · rw [hhandler] at hnone
        cases hnone
      · rw [hhandler] at hwait
        cases hwait
    | asked =>
      rw [hphase] at hsignals
      obtain ⟨-, -, ⟨hnone, -⟩ | ⟨hwait, -⟩⟩ | ⟨hsignal, hresume, ⟨-, hack⟩ | ⟨hwait, -⟩⟩ := hsignals
      · rw [hhandler] at hnone
        cases hnone
      · rw [hhandler] at hwait
        cases hwait
      · exact .inr ⟨hsignal, hresume, .inr ⟨rfl, congrArg (· + 1) hack⟩⟩
      · rw [hhandler] at hwait
        cases hwait
    | stopped =>
      rw [hphase] at hsignals
      obtain ⟨-, -, hwait, -⟩ := hsignals
      rw [hhandler] at hwait
      cases hwait
  | wait =>
    rw [Thread.handlerStep] at hstep
    split_ifs at hstep with hsent
    obtain rfl := Option.some.inj hstep
    refine ⟨h.suspendCount, h.countLock, h.emulatorLock, h.threadLock, ?_⟩
    have hresumed : Resumed m →
        Resumed { m with resumeSignals := m.resumeSignals - 1, handler := none } := by
      rintro (⟨hnone, -⟩ | ⟨-, hresume⟩)
      · rw [hhandler] at hnone
        cases hnone
      · exact .inl ⟨rfl, by simp only [hresume]⟩
    show Signals _ m.point.held.phase
    cases hphase : m.point.held.phase with
    | running =>
      rw [hphase] at hsignals
      exact ⟨hsignals.1, hsignals.2.1, hresumed hsignals.2.2⟩
    | asked =>
      rw [hphase] at hsignals
      obtain ⟨hsignal, hack, hrunning⟩ | ⟨-, hresume, -⟩ := hsignals
      · exact .inl ⟨hsignal, hack, hresumed hrunning⟩
      · omega
    | stopped =>
      rw [hphase] at hsignals
      obtain ⟨-, -, -, hresume⟩ := hsignals
      omega

theorem Control.step (h : Control m) (hstep : step m e = some m') : Control m' := by
  cases e with
  | call c =>
    rw [Thread.step] at hstep
    split_ifs at hstep with hpoint
    exact h.callStep hpoint hstep
  | irq now =>
    rw [Thread.step] at hstep
    split_ifs at hstep with hcond
    obtain rfl := Option.some.inj hstep
    have hmoved := h.move m.timer (.loop m.timer.tmDescList now) m.frames (by rw [hcond.1]; rfl)
    exact ⟨hmoved.suspendCount, hmoved.countLock, hmoved.emulatorLock, hmoved.threadLock, hmoved.signals⟩
  | ret =>
    rw [Thread.step] at hstep
    split at hstep
    · next hpoint hframes =>
      obtain rfl := Option.some.inj hstep
      exact h.move m.timer _ _ (by rw [hpoint]; rfl)
    · cases hstep
  | emulator => exact h.emulatorStep hstep
  | thread now =>
    rw [Thread.step] at hstep
    split_ifs at hstep
    exact h.threadStep hstep
  | deliverSuspend =>
    rw [Thread.step] at hstep
    split_ifs at hstep with hcond
    obtain rfl := Option.some.inj hstep
    exact h.deliverSuspend hcond.1 hcond.2
  | deliverResume =>
    rw [Thread.step] at hstep
    split_ifs at hstep with hcond
    have hresume := h.resumed_of_none hcond.1
    omega
  | handler =>
    rw [Thread.step] at hstep
    cases hhandler : m.handler with
    | none =>
      rw [hhandler] at hstep
      cases hstep
    | some point =>
      rw [hhandler] at hstep
      exact h.handlerStep hhandler hstep

-- ---------------------------------------------------------------------------
-- The emulator leaves the thread alone
-- ---------------------------------------------------------------------------

/-- Steps of the emulator. -/
def Event.ofEmulator : Event → Bool
  | .call _ => true
  | .irq _ => true
  | .ret => true
  | .emulator => true
  | _ => false

theorem stageStep_thread (hstep : stageStep m job stage = some m') :
    m'.thread = m.thread ∧ m'.handler = m.handler := by
  cases stage with
  | scan d =>
    cases d with
    | none =>
      obtain rfl := Option.some.inj hstep
      exact ⟨rfl, rfl⟩
    | some d =>
      rw [stageStep] at hstep
      split_ifs at hstep
      obtain rfl := Option.some.inj hstep
      exact ⟨rfl, rfl⟩
  | finish =>
    obtain ⟨timer, -, rfl⟩ := Option.map_eq_some_iff.mp hstep
    exact ⟨rfl, rfl⟩
  | _ =>
    simp only [stageStep] at hstep
    repeat' split at hstep
    all_goals
      cases hstep
      try exact ⟨rfl, rfl⟩

theorem step_thread (he : e.ofEmulator = true) (hstep : step m e = some m') :
    m'.thread = m.thread ∧ m'.handler = m.handler := by
  cases e with
  | call c =>
    rw [step] at hstep
    split_ifs at hstep
    cases c with
    | insTime p junk tm trap =>
      rw [callStep] at hstep
      split_ifs at hstep
      obtain ⟨timer, -, rfl⟩ := Option.map_eq_some_iff.mp hstep
      exact ⟨rfl, rfl⟩
    | rmvTime current tm =>
      obtain ⟨found, -, rfl⟩ := Option.map_eq_some_iff.mp hstep
      cases found <;> exact ⟨rfl, rfl⟩
    | primeTime now tm time =>
      obtain ⟨found, -, rfl⟩ := Option.map_eq_some_iff.mp hstep
      cases found <;> exact ⟨rfl, rfl⟩
    | mac mem => cases hstep
  | irq now =>
    rw [step] at hstep
    split_ifs at hstep
    obtain rfl := Option.some.inj hstep
    exact ⟨rfl, rfl⟩
  | ret =>
    rw [step] at hstep
    split at hstep
    · obtain rfl := Option.some.inj hstep
      exact ⟨rfl, rfl⟩
    · cases hstep
  | emulator =>
    rw [step, emulatorStep] at hstep
    split at hstep
    · cases hstep
    · simp only [visit] at hstep
      split_ifs at hstep
      all_goals
        obtain rfl := Option.some.inj hstep
        exact ⟨rfl, rfl⟩
    · obtain rfl := Option.some.inj hstep
      exact ⟨rfl, rfl⟩
    · exact stageStep_thread hstep
  | _ => cases he

-- ---------------------------------------------------------------------------
-- The stall
-- ---------------------------------------------------------------------------

/-- The emulator waits for a lock of the thread, which is suspended. -/
def Stalled (m : Machine) : Prop :=
  (∃ job, m.point = .locked job .wakeupLock) ∧ m.wakeupTimeLock = some .timerThread ∧ m.handler ≠ none

/-- Neither thread gets out of it. -/
theorem Stalled.step (hstalled : Stalled m) (h : Control m) (hstep : step m e = some m') : Stalled m' := by
  obtain ⟨⟨job, hpoint⟩, hlock, hhandler⟩ := hstalled
  have hstopped := h.signals
  rw [hpoint] at hstopped
  obtain ⟨-, -, hwait, hresume⟩ := hstopped
  cases e with
  | call c => rw [Thread.step, hpoint, if_neg (by simp)] at hstep; cases hstep
  | irq now => rw [Thread.step, hpoint, if_neg (by simp)] at hstep; cases hstep
  | ret => rw [Thread.step, hpoint] at hstep; cases hstep
  | emulator =>
    rw [Thread.step, emulatorStep, hpoint] at hstep
    simp only [stageStep] at hstep
    rw [if_neg (by rw [hlock]; simp)] at hstep
    cases hstep
  | thread now => rw [Thread.step, if_neg hhandler] at hstep; cases hstep
  | deliverSuspend => rw [Thread.step, if_neg fun hcond => hhandler hcond.1] at hstep; cases hstep
  | deliverResume => rw [Thread.step, if_neg fun hcond => hhandler hcond.1] at hstep; cases hstep
  | handler =>
    rw [Thread.step, hwait] at hstep
    simp only [handlerStep] at hstep
    rw [if_neg (by omega)] at hstep
    cases hstep

/-- The signal that suspends the thread is not delivered while the thread holds the lock. -/
def Guard (m : Machine) (e : Event) : Prop := e = .deliverSuspend → m.wakeupTimeLock ≠ some .timerThread

structure Inv (m : Machine) : Prop where
  control : Control m
  free : m.handler ≠ none → m.wakeupTimeLock ≠ some .timerThread

theorem Inv.step (h : Inv m) (hguard : Guard m e) (hstep : step m e = some m') : Inv m' := by
  have hcontrol := h.control.step hstep
  refine ⟨hcontrol, fun hhandler => ?_⟩
  by_cases he : e.ofEmulator = true
  · obtain ⟨hthread, hsame⟩ := step_thread he hstep
    rw [hsame] at hhandler
    rw [Ne, hcontrol.threadLock, hthread, ← h.control.threadLock]
    exact h.free hhandler
  · cases e with
    | thread now =>
      rw [Thread.step] at hstep
      split_ifs at hstep with hnone
      refine absurd ?_ hhandler
      rw [threadStep] at hstep
      repeat' split at hstep
      all_goals
        cases hstep
        try exact hnone
    | deliverSuspend =>
      have hlock := hguard rfl
      rw [Thread.step] at hstep
      split_ifs at hstep
      obtain rfl := Option.some.inj hstep
      exact hlock
    | deliverResume =>
      rw [Thread.step] at hstep
      split_ifs at hstep with hcond
      obtain rfl := Option.some.inj hstep
      exact absurd hcond.1 hhandler
    | handler =>
      rw [Thread.step] at hstep
      cases hbefore : m.handler with
      | none =>
        rw [hbefore] at hstep
        cases hstep
      | some point =>
        have hlock := h.free (by rw [hbefore]; simp)
        rw [hbefore] at hstep
        cases point with
        | post =>
          obtain rfl := Option.some.inj hstep
          exact hlock
        | wait =>
          simp only [handlerStep] at hstep
          split_ifs at hstep
          obtain rfl := Option.some.inj hstep
          exact hlock
    | _ => exact absurd rfl he

variable {mem : Mem} {desc : DescPtr → TMDesc}

/-- As long as the thread is not suspended with the lock in its hands, the emulator never waits in
vain, and the count is 0 outside. -/
theorem never_stalled (hreach : Steps.Reaches step Guard (initial mem desc) m) :
    ¬Stalled m ∧ (Outside m → m.suspendCount = 0) := by
  have hinv : Inv m := hreach.invariant ⟨control_initial mem desc, fun h => absurd rfl h⟩
    fun hinv hguard hstep => hinv.step hguard hstep
  refine ⟨fun hstalled => hinv.free hstalled.2.2 hstalled.2.1, fun houtside => ?_⟩
  rw [hinv.control.suspendCount, houtside.1]
  rfl

/-- The thread is suspended while it sleeps. -/
theorem never_stalled_asleep :
    ∃ m, Steps.Reaches step Guard (initial (fun _ => 0) fun _ => ⟨0, ⟨0, 0⟩⟩) m ∧ m.handler = some .post ∧
      ¬Stalled m ∧ (Outside m → m.suspendCount = 0) := by
  have hreach : ∃ m, Steps.Reaches step Guard (initial (fun _ => 0) fun _ => ⟨0, ⟨0, 0⟩⟩) m ∧
      m.handler = some .post := by
    refine ⟨_, .next (a := .deliverSuspend) (.next (a := .emulator) (.next (a := .emulator)
      (.next (a := .emulator) (.next (a := .call (.rmvTime ⟨0, 0⟩ 0x1000))
      (.next (a := .call (.insTime 1 ⟨0, 0⟩ 0x1000 0)) .start ?_ rfl) ?_ rfl) ?_ rfl) ?_ rfl) ?_ rfl) ?_ rfl,
      rfl⟩
    · rintro ⟨⟩
    · rintro ⟨⟩
    · rintro ⟨⟩
    · rintro ⟨⟩
    · rintro ⟨⟩
    · exact fun _ => (by decide : (none : Option Party) ≠ some .timerThread)
  obtain ⟨m, hreach, hhandler⟩ := hreach
  exact ⟨m, hreach, hhandler, never_stalled hreach⟩

/-- The thread is suspended: the signal, and the acknowledgement. -/
def suspended : List Event :=
  [.emulator, .emulator, .emulator, .deliverSuspend, .handler, .emulator, .emulator]

/-- A task is primed, and its time comes; the thread has taken the lock when the task is removed. -/
def stallRun : List Event :=
  [.call (.insTime 1 ⟨0, 0⟩ 0x1000 0), .call (.primeTime ⟨100, 0⟩ 0x1000 0)] ++ suspended ++
    List.replicate 9 .emulator ++ [.emulator, .handler, .emulator, .emulator] ++
    List.replicate 4 (.thread ⟨200, 0⟩) ++ [.call (.rmvTime ⟨200, 0⟩ 0x1000)] ++ suspended

theorem stall_reached :
    ∃ m, Steps.Reaches step (fun _ _ => True) (initial (fun _ => 0) fun _ => ⟨0, ⟨0, 0⟩⟩) m ∧ Stalled m ∧
      ∀ e m', step m e = some m' → Stalled m' := by
  have hvalue : (Steps.run step (initial (fun _ => 0) fun _ => ⟨0, ⟨0, 0⟩⟩) stallRun).map
      (fun m => (m.point, m.wakeupTimeLock, m.handler)) =
      some (.locked (.rmvTime 0x1000 1 ⟨200, 0⟩) .wakeupLock, some .timerThread, some .wait) := by
    decide +kernel
  obtain ⟨m, hm, hval⟩ := Option.map_eq_some_iff.mp hvalue
  simp only [Prod.mk.injEq] at hval
  obtain ⟨hpoint, hlock, hhandler⟩ := hval
  have hreach := Steps.reaches_of_run hm
  have hcontrol : Control m := hreach.invariant (control_initial _ _) fun h _ hstep => h.step hstep
  have hstalled : Stalled m := ⟨⟨_, hpoint⟩, hlock, by rw [hhandler]; simp⟩
  exact ⟨m, hreach, hstalled, fun e m' hstep => hstalled.step hcontrol hstep⟩

end SheepShear.Timer.Thread
