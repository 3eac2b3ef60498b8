import SheepShear.Timer.InterruptRuns
import SheepShear.Timer.ThreadRuns

/-!
# No missed wake-up

Outside of the Time Manager `wakeup_time` is not later than the wake-up of any
active task, or the interrupt is on its way. The emulator goes through the whole
list while the thread is stopped, and what it does to memory after that makes no
task active, unless the `tmCount` that `RmvTime` stores lies in another task.
-/

namespace SheepShear.Timer.Thread

open IntrusiveList Interrupt

-- ---------------------------------------------------------------------------
-- What is asked
-- ---------------------------------------------------------------------------

/-- A time of the clock of the host, below `wakeup_time_max`. -/
def HostTime (t : TmTime) : Prop :=
  t.Normalised ∧ 0 ≤ t.tvSec ∧ t.nanoseconds < wakeupTimeMax.nanoseconds

/-- `wakeup_time` is not later than the wake-up of any active task. -/
def Covered (s : TimerState) : Prop :=
  ∀ d, OnList s d → Active s.mem (s.desc d).task → s.wakeupTime.nanoseconds ≤ (s.desc d).wakeup.nanoseconds

/-- The thread is past its test, before it sets the flag. -/
def ThreadPoint.signals : ThreadPoint → Bool
  | .lock => true
  | .store => true
  | .unlock => true
  | .setFlag => true
  | _ => false

def NoMissed (m : Machine) : Prop := Covered m.timer ∨ m.timerFlag = true ∨ m.thread.signals = true

/-- The flag of no other installed task lies in the `tmCount` of this one. -/
def CountApart (s : TimerState) (tm : Word) : Prop :=
  ∀ d, OnList s d → (s.desc d).task ≠ tm → 4 ≤ (qType (s.desc d).task - tmCount tm).toNat

/-- What `PrimeTime` computes for an installed task. -/
def Primes (P : TmTime → Prop) (m : Machine) : Event → Prop
  | .call (.primeTime now tm time) => ∀ d, m.timer.findDesc tm = some (some d) →
    P (TimerState.primedWakeup now tm time (m.timer.desc d) m.timer.mem)
  | _ => True

def RemovesApart (m : Machine) : Event → Prop
  | .call (.rmvTime _ tm) => CountApart m.timer tm
  | _ => True

def Timely (m : Machine) (e : Event) : Prop := Primes HostTime m e ∧ RemovesApart m e

-- ---------------------------------------------------------------------------
-- Times
-- ---------------------------------------------------------------------------

/-- What `wakeup_time` can be. -/
def Wakeup (t : TmTime) : Prop := HostTime t ∨ t = wakeupTimeMax

theorem Wakeup.range {t : TmTime} (h : Wakeup t) :
    0 ≤ t.tvNsec ∧ t.tvNsec < 1000000000 ∧ 0 ≤ t.tvSec ∧ t.tvSec ≤ 0x7fffffff := by
  obtain ⟨⟨hlow, hhigh⟩, hsec, hmax⟩ | rfl := h
  · simp only [TmTime.nanoseconds, wakeupTimeMax] at hmax
    omega
  · decide

theorem toInt_ofInt_of_range {x : Int} (hlow : -2147483648 ≤ x) (hhigh : x ≤ 2147483647) :
    (BitVec.ofInt 32 x).toInt = x := by
  rw [BitVec.toInt_ofInt]
  exact Int.bmod_eq_of_le (by omega) (by omega)

/-- Neither difference is cut. -/
theorem timerCmpTime_neg_iff {a b : TmTime} (ha : Wakeup a) (hb : Wakeup b) :
    timerCmpTime a b < 0 ↔ a.nanoseconds < b.nanoseconds := by
  obtain ⟨hansec, hansec', hasec, hasec'⟩ := ha.range
  obtain ⟨hbnsec, hbnsec', hbsec, hbsec'⟩ := hb.range
  rw [timerCmpTime, toInt_ofInt_of_range (by omega) (by omega),
    toInt_ofInt_of_range (by omega) (by omega)]
  simp only [TmTime.nanoseconds]
  split <;> omega

-- ---------------------------------------------------------------------------
-- Stores to a task
-- ---------------------------------------------------------------------------

variable {m : Mem} {tm tm' : Word}

/-- The flag of a task that is made active. -/
theorem active_of_primed
    (h : Active (m.writeInt16 (qType tm) (m.readInt16 (qType tm) ||| 0x8000#16)) tm') :
    tm' = tm ∨ Active m tm' := by
  by_cases hne : tm' = tm
  · exact .inl hne
  · refine .inr ((active_writeType hne ?_).mp h)
    rw [Mem.readInt16, BitVec.getLsbD_or, BitVec.getLsbD_append]
    simp

theorem active_of_cleared
    (h : Active (m.writeInt16 (qType tm) (m.readInt16 (qType tm) &&& 0x7fff#16)) tm') :
    Active m tm' := by
  by_cases hne : tm' = tm
  · subst hne
    rw [active_iff, Mem.writeInt16, if_pos rfl] at h
    simp at h
  · exact (active_cleared m hne).mp h

theorem active_of_insType {trap : BitVec 16}
    (h : Active (m.writeInt16 (qType tm) (insType m tm trap)) tm') : Active m tm' := by
  by_cases hne : tm' = tm
  · subst hne
    exact absurd h (not_active_insType m tm' trap)
  · refine (active_writeType hne ?_).mp h
    rw [insType, Mem.readInt16, BitVec.getLsbD_or, BitVec.getLsbD_and, BitVec.getLsbD_append]
    simp

/-- No byte of the value has its highest bit set. -/
theorem active_of_wakeUp (h : Active (m.writeInt32 (tmWakeUp tm) 0x12345678) tm') : Active m tm' := by
  rw [active_iff, Mem.writeInt32] at h
  rw [active_iff]
  split_ifs at h
  · exact absurd h (by decide)
  · exact absurd h (by decide)
  · exact absurd h (by decide)
  · exact absurd h (by decide)
  · exact h

theorem active_of_count {v : Word} (hapart : 4 ≤ (qType tm' - tmCount tm).toNat)
    (h : Active (m.writeInt32 (tmCount tm) v) tm') : Active m tm' := by
  rw [active_iff, Mem.writeInt32_of_far m v hapart] at h
  rwa [active_iff]

/-- The `tmCount` of a task is behind its flag. -/
theorem count_apart_self (tm : Word) : 4 ≤ (qType tm - tmCount tm).toNat := by
  simp only [qType, tmCount]
  have hdiff : tm + 4 - (tm + 10) = -6 := by abel
  rw [hdiff]
  decide

-- ---------------------------------------------------------------------------
-- What the list keeps
-- ---------------------------------------------------------------------------

variable {s s' : TimerState} {ds as bs : List DescPtr} {d : DescPtr} {job : Job} {stage : Stage}

theorem onList_iff (h : Listed s ds) : OnList s d ↔ d ∈ ds := by
  constructor
  · rintro ⟨ds', hwalk, hd⟩
    rwa [h.walk.unique hwalk]
  · exact fun hd => ⟨ds, h.walk, hd⟩

/-- `wakeup_time` is not later than what a part of the list asks for. -/
def CoveredOn (s : TimerState) (ds : List DescPtr) : Prop :=
  ∀ d ∈ ds, Active s.mem (s.desc d).task → s.wakeupTime.nanoseconds ≤ (s.desc d).wakeup.nanoseconds

/-- The times that the scan compares are times of the host. -/
structure Sched (s : TimerState) (ds : List DescPtr) : Prop where
  listed : Listed s ds
  scheduled : ∀ d ∈ ds, Active s.mem (s.desc d).task → HostTime (s.desc d).wakeup
  wakeup : Wakeup s.wakeupTime

theorem Sched.withMem (h : Sched s ds) {mem : Mem}
    (hactive : ∀ d ∈ ds, Active mem (s.desc d).task → Active s.mem (s.desc d).task) :
    Sched { s with mem := mem } ds :=
  ⟨h.listed.withMem mem, fun d hd hact => h.scheduled d hd (hactive d hd hact), h.wakeup⟩

theorem CoveredOn.withMem (h : CoveredOn s ds) {mem : Mem}
    (hactive : ∀ d ∈ ds, Active mem (s.desc d).task → Active s.mem (s.desc d).task) :
    CoveredOn { s with mem := mem } ds := fun d hd hact => h d hd (hactive d hd hact)

theorem Sched.withWakeupTime (h : Sched s ds) {w : TmTime} (hw : Wakeup w) :
    Sched { s with wakeupTime := w } ds :=
  ⟨⟨h.listed.walk, h.listed.live, h.listed.tasks⟩, h.scheduled, hw⟩

/-- What the body of a function relies on. -/
def JobOk (desc : DescPtr → TMDesc) (ds : List DescPtr) : Job → Prop
  | .rmvTime tm d _ => d ∈ ds ∧
    ∀ x ∈ ds, (desc x).task ≠ tm → 4 ≤ (qType (desc x).task - tmCount tm).toNat
  | .primeTime tm => ∀ d ∈ ds, (desc d).task = tm → HostTime (desc d).wakeup
  | .timerInterrupt => True

@[simp] theorem Job.enter_desc (s : TimerState) (job : Job) : (job.enter s).1.desc = s.desc := by
  cases job with
  | rmvTime tm d current =>
    rw [Job.enter]
    split <;> rfl
  | primeTime tm => rfl
  | timerInterrupt => rfl

@[simp] theorem Job.leave_desc (s : TimerState) (scanned : Bool) (job : Job) :
    (job.leave s scanned).desc = s.desc := by
  cases job <;> rfl

@[simp] theorem scanOne_desc (s : TimerState) (d : DescPtr) : (scanOne s d).desc = s.desc := by
  rw [scanOne]
  split <;> rfl

theorem Sched.enter (h : Sched s ds) (hjob : JobOk s.desc ds job) : Sched (job.enter s).1 ds := by
  cases job with
  | rmvTime tm d current =>
    rw [Job.enter]
    split
    · exact h.withMem fun x _ => active_of_cleared
    · exact h
  | primeTime tm =>
    refine ⟨h.listed.withMem _, fun d hd hact => ?_, h.wakeup⟩
    rcases active_of_primed hact with htask | hbefore
    · exact hjob d hd htask
    · exact h.scheduled d hd hbefore
  | timerInterrupt => exact h

/-- `tmCount` does not reach the flag of an installed task. -/
theorem JobOk.count {tm : Word} {current : TmTime} (hjob : JobOk s.desc ds (.rmvTime tm d current))
    (v : Word) : ∀ x ∈ ds, Active (s.mem.writeInt32 (tmCount tm) v) (s.desc x).task →
      Active s.mem (s.desc x).task := by
  intro x hx
  by_cases htask : (s.desc x).task = tm
  · rw [htask]
    exact active_of_count (count_apart_self tm)
  · exact active_of_count (hjob.2 x hx htask)

theorem Sched.leave (h : Sched s ds) (hjob : JobOk s.desc ds job) (scanned : Bool) :
    Sched (job.leave s scanned) ds ∧ (CoveredOn s ds → CoveredOn (job.leave s scanned) ds) := by
  cases job with
  | rmvTime tm d current => exact ⟨h.withMem (hjob.count _), fun hcov => hcov.withMem (hjob.count _)⟩
  | primeTime tm => exact ⟨h, id⟩
  | timerInterrupt => exact ⟨h, id⟩

theorem Sched.freeDesc (h : Sched s ds) (hd : d ∈ ds) (hs' : s.freeDesc d = some s')
    (hwakeup : s'.wakeupTime = s.wakeupTime) :
    Sched s' (ds.erase d) ∧ (CoveredOn s ds → CoveredOn s' (ds.erase d)) := by
  obtain ⟨s₁, hs₁, hlisted, hmem, hdesc, -⟩ := h.listed.freeDesc hd
  obtain rfl := Option.some.inj (hs₁.symm.trans hs')
  refine ⟨⟨hlisted, fun x hx => ?_, ?_⟩, fun hcov x hx => ?_⟩
  · rw [hmem, hdesc]
    exact h.scheduled x (List.mem_of_mem_erase hx)
  · rw [hwakeup]
    exact h.wakeup
  · rw [hmem, hdesc, hwakeup]
    exact hcov x (List.mem_of_mem_erase hx)

theorem freeDesc_wakeupTime (hs' : s.freeDesc d = some s') : s'.wakeupTime = s.wakeupTime := by
  unfold TimerState.freeDesc at hs'
  by_cases hfirst : s.tmDescList = some d
  · rw [if_pos hfirst] at hs'
    obtain rfl := Option.some.inj hs'
    rfl
  · rw [if_neg hfirst] at hs'
    obtain ⟨found, -, hfound⟩ := Option.bind_eq_some_iff.mp hs'
    cases found with
    | some x =>
      obtain rfl := Option.some.inj hfound
      rfl
    | none =>
      obtain rfl := Option.some.inj hfound
      rfl

theorem Sched.finish (h : Sched s ds) (hjob : JobOk s.desc ds job) (hs' : job.finish s = some s') :
    ∃ ds', Sched s' ds' ∧ (CoveredOn s ds → CoveredOn s' ds') := by
  cases job with
  | rmvTime tm d current =>
    exact ⟨ds.erase d, h.freeDesc hjob.1 hs' (freeDesc_wakeupTime hs')⟩
  | primeTime tm =>
    obtain rfl := Option.some.inj hs'
    exact ⟨ds, h, id⟩
  | timerInterrupt =>
    obtain rfl := Option.some.inj hs'
    exact ⟨ds, h, id⟩

/-- One turn of the search: the tasks before are still covered, and this one is. -/
theorem Sched.scanOne (h : Sched s ds) (hd : d ∈ ds) (hcov : CoveredOn s as) :
    Sched (scanOne s d) ds ∧ CoveredOn (scanOne s d) (as ++ [d]) := by
  rw [Thread.scanOne]
  split_ifs with hearlier
  · obtain ⟨hact, hcmp⟩ := hearlier
    have hhost := h.scheduled d hd hact
    rw [timerCmpTime_neg_iff (.inl hhost) h.wakeup] at hcmp
    refine ⟨h.withWakeupTime (.inl hhost), fun x hx hxact => ?_⟩
    rcases List.mem_append.mp hx with hx | hx
    · exact (hcov x hx hxact).trans' hcmp.le
    · rw [List.mem_singleton.mp hx]
  · refine ⟨h, fun x hx hxact => ?_⟩
    rcases List.mem_append.mp hx with hx | hx
    · exact hcov x hx hxact
    · rw [List.mem_singleton.mp hx] at hxact ⊢
      by_contra hlater
      refine hearlier ⟨hxact, (timerCmpTime_neg_iff (.inl (h.scheduled d hd hxact)) h.wakeup).mpr ?_⟩
      omega

theorem CoveredOn.iff (h : Listed s ds) : CoveredOn s ds ↔ Covered s :=
  forall_congr' fun _ => imp_congr_left (onList_iff h).symm

/-- The new task, or the one that is installed once more, is not active. -/
theorem Sched.insTime (h : Sched s ds) {p : DescPtr} (hp : p ∉ s.live) {junk : TmTime} {tm : Word}
    {trap : BitVec 16} (hs' : s.insTime p junk tm trap = some s') :
    ∃ ds', Sched s' ds' ∧ (CoveredOn s ds → CoveredOn s' ds') := by
  have hstored : Sched { s with mem := s.mem.writeInt16 (qType tm) (insType s.mem tm trap) } ds :=
    h.withMem fun x _ => active_of_insType
  cases hfind : s.findDesc tm with
  | none =>
    rw [h.listed.findDesc_eq] at hfind
    cases hfind
  | some found =>
    cases found with
    | some d =>
      obtain rfl := Option.some.inj ((Listed.insTime_again hfind p junk trap).symm.trans hs')
      exact ⟨ds, hstored, fun hcov => hcov.withMem fun x _ => active_of_insType⟩
    | none =>
      obtain ⟨s₁, hs₁, hlisted, -⟩ := h.listed.insTime_new hp hfind junk trap
      obtain rfl := Option.some.inj (hs₁.symm.trans hs')
      have hnew : s₁ = { s with mem := s.mem.writeInt16 (qType tm) (insType s.mem tm trap) }.push p
          ⟨tm, junk⟩ := by
        have hfind' : ({ s with mem := s.mem.writeInt16 (qType tm) (insType s.mem tm trap) } :
            TimerState).findDesc tm = some none := hfind
        rw [TimerState.insTime, hfind'] at hs₁
        exact (Option.some.inj hs₁).symm
      have hpds : p ∉ ds := by rwa [h.listed.live, List.mem_toFinset] at hp
      have hold : ∀ x ∈ ds, s₁.desc x = s.desc x := by
        intro x hx
        rw [hnew]
        exact Function.update_of_ne (ne_of_mem_of_not_mem hx hpds) ..
      have hinactive : ¬Active s₁.mem (s₁.desc p).task := by
        have htask : (s₁.desc p).task = tm := by
          rw [hnew]
          simp only [TimerState.push, Function.update_self]
        rw [htask, hnew]
        exact not_active_insType s.mem tm trap
      have hmem : s₁.mem = s.mem.writeInt16 (qType tm) (insType s.mem tm trap) := by
        rw [hnew]
        rfl
      have hwakeup : s₁.wakeupTime = s.wakeupTime := by
        rw [hnew]
        rfl
      refine ⟨p :: ds, ⟨hlisted, fun x hx hact => ?_, hwakeup ▸ h.wakeup⟩, fun hcov x hx hact => ?_⟩
      · rcases List.mem_cons.mp hx with rfl | hx
        · exact absurd hact hinactive
        · rw [hold x hx] at hact ⊢
          rw [hmem] at hact
          exact hstored.scheduled x hx hact
      · rcases List.mem_cons.mp hx with rfl | hx
        · exact absurd hact hinactive
        · rw [hold x hx] at hact ⊢
          rw [hmem] at hact
          rw [hwakeup]
          exact hcov x hx (active_of_insType hact)

/-- Before the task is made active. -/
theorem Sched.prime (h : Sched s ds) {now : TmTime} {tm time : Word}
    (hfind : s.findDesc tm = some (some d))
    (htimely : HostTime (TimerState.primedWakeup now tm time (s.desc d) s.mem)) :
    Sched (prime s d now tm time) ds ∧ JobOk (prime s d now tm time).desc ds (.primeTime tm) := by
  obtain ⟨hd, htask⟩ := h.listed.mem_of_findDesc hfind
  have hactive : ∀ tm', Active (Thread.prime s d now tm time).mem tm' → Active s.mem tm' := by
    intro tm' hact
    simp only [Thread.prime] at hact
    split at hact
    · exact active_of_wakeUp hact
    · exact hact
  have hself : ((Thread.prime s d now tm time).desc d).wakeup =
      TimerState.primedWakeup now tm time (s.desc d) s.mem := by
    simp only [Thread.prime, TimerState.setWakeup, Function.update_self]
  have hother : ∀ x, x ≠ d → (Thread.prime s d now tm time).desc x = s.desc x :=
    fun x hx => Function.update_of_ne hx ..
  have hlisted : Listed (Thread.prime s d now tm time) ds := (h.listed.setWakeup d _).withMem _
  refine ⟨⟨hlisted, fun x hx hact => ?_, h.wakeup⟩, fun x hx hxtask => ?_⟩
  · by_cases hxd : x = d
    · rw [hxd, hself]
      exact htimely
    · rw [hother x hxd] at hact ⊢
      exact h.scheduled x hx (hactive _ hact)
  · by_cases hxd : x = d
    · rw [hxd, hself]
      exact htimely
    · rw [hother x hxd] at hxtask
      exact absurd (h.listed.task_inj hx hd (hxtask.trans htask.symm)) hxd

-- ---------------------------------------------------------------------------
-- What holds at a statement
-- ---------------------------------------------------------------------------

section Runs

variable {m m' : Machine} {e : Event}

/-- Nothing is missed when the emulator leaves the outermost function. -/
def NoneMissed (m : Machine) (ds : List DescPtr) : Prop :=
  m.frames = [] → CoveredOn m.timer ds ∨ m.timerFlag = true ∨ m.thread.signals = true

/-- The search for the next task is always made. -/
def Job.searches : Job → Bool
  | .rmvTime .. => false
  | _ => true

/-- The body has not begun. -/
def Stage.before : Stage → Bool
  | .suspendLock => true
  | .suspendTest => true
  | .suspendKill => true
  | .suspendWait => true
  | .suspendUnlock => true
  | .wakeupLock => true
  | .enter => true
  | _ => false

def StageOk (m : Machine) (ds : List DescPtr) (job : Job) : Stage → Prop
  | .store => True
  | .scan p => ∃ as bs, ds = as ++ bs ∧ p = bs.head? ∧ CoveredOn m.timer as
  | stage => (job.searches = true ∧ stage.before = true) ∨ NoneMissed m ds

def PointOk (m : Machine) (ds : List DescPtr) : Point → Prop
  | .idle => NoneMissed m ds
  | .loop _ _ => True
  | .locked job stage => JobOk m.timer.desc ds job ∧ StageOk m ds job stage

structure Tracked (m : Machine) (ds : List DescPtr) : Prop where
  sched : Sched m.timer ds
  point : PointOk m ds m.point

theorem tracked_initial (mem : Mem) (desc : DescPtr → TMDesc) : Tracked (initial mem desc) [] :=
  ⟨⟨.reset mem desc, fun _ hd => absurd hd List.not_mem_nil, .inr rfl⟩,
    fun _ => .inl fun _ hd => absurd hd List.not_mem_nil⟩

theorem NoneMissed.imp {ds' : List DescPtr} (h : NoneMissed m ds) (hframes : m'.frames = m.frames)
    (hflag : m'.timerFlag = m.timerFlag) (hthread : m'.thread = m.thread)
    (hcov : CoveredOn m.timer ds → CoveredOn m'.timer ds') : NoneMissed m' ds' := by
  intro hnil
  rw [hflag, hthread]
  exact (h (hframes ▸ hnil)).imp_left hcov

theorem Tracked.stageStep (h : Tracked m ds) (hpoint : m.point = .locked job stage)
    (hstep : stageStep m job stage = some m') : ∃ ds', Tracked m' ds' := by
  obtain ⟨hsched, hok⟩ := h
  rw [hpoint] at hok
  obtain ⟨hjob, hstage⟩ := hok
  cases stage with
  | suspendLock =>
    rw [Thread.stageStep] at hstep
    split_ifs at hstep
    obtain rfl := Option.some.inj hstep
    exact ⟨ds, hsched, hjob, hstage⟩
  | suspendTest =>
    rw [Thread.stageStep] at hstep
    split_ifs at hstep
    · obtain rfl := Option.some.inj hstep
      exact ⟨ds, hsched, hjob, hstage⟩
    · obtain rfl := Option.some.inj hstep
      exact ⟨ds, hsched, hjob, hstage⟩
  | suspendKill =>
    obtain rfl := Option.some.inj hstep
    exact ⟨ds, hsched, hjob, hstage⟩
  | suspendWait =>
    rw [Thread.stageStep] at hstep
    split_ifs at hstep
    obtain rfl := Option.some.inj hstep
    exact ⟨ds, hsched, hjob, hstage⟩
  | suspendUnlock =>
    obtain rfl := Option.some.inj hstep
    exact ⟨ds, hsched, hjob, hstage⟩
  | wakeupLock =>
    rw [Thread.stageStep] at hstep
    split_ifs at hstep
    obtain rfl := Option.some.inj hstep
    exact ⟨ds, hsched, hjob, hstage⟩
  | enter =>
    obtain rfl := Option.some.inj hstep
    refine ⟨ds, hsched.enter hjob, ?_, ?_⟩
    · exact (Job.enter_desc m.timer job).symm ▸ hjob
    · cases job with
      | rmvTime tm d current =>
        obtain ⟨hsearches, -⟩ | hmissed := hstage
        · cases hsearches
        · by_cases hactive : Active m.timer.mem tm
          · simp only [if_pos hactive]
            trivial
          · simp only [if_neg hactive]
            exact .inr hmissed
      | primeTime tm => trivial
      | timerInterrupt => trivial
  | store =>
    obtain rfl := Option.some.inj hstep
    refine ⟨ds, hsched.withWakeupTime (.inr rfl), hjob, [], ds, rfl, hsched.listed.walk.head_eq, ?_⟩
    exact fun _ hd => absurd hd List.not_mem_nil
  | scan p =>
    obtain ⟨as, bs, rfl, rfl, hcov⟩ := hstage
    cases bs with
    | nil =>
      obtain rfl := Option.some.inj hstep
      refine ⟨_, hsched, hjob, .inr fun _ => .inl ?_⟩
      rwa [List.append_nil]
    | cons d bs =>
      simp only [List.head?_cons, Thread.stageStep] at hstep
      split_ifs at hstep
      obtain rfl := Option.some.inj hstep
      obtain ⟨hsched', hcov'⟩ := hsched.scanOne (List.mem_append_right as (List.mem_cons_self ..)) hcov
      refine ⟨_, hsched', ?_, as ++ [d], bs, List.append_cons as d bs, hsched.listed.walk.next_eq, hcov'⟩
      exact (scanOne_desc m.timer d).symm ▸ hjob
  | leave scanned =>
    obtain rfl := Option.some.inj hstep
    obtain ⟨hsched', hcov⟩ := hsched.leave hjob scanned
    obtain ⟨-, hbefore⟩ | hmissed := hstage
    · cases hbefore
    · refine ⟨ds, hsched', ?_, .inr (hmissed.imp rfl rfl rfl hcov)⟩
      exact (Job.leave_desc m.timer scanned job).symm ▸ hjob
  | wakeupUnlock =>
    obtain rfl := Option.some.inj hstep
    exact ⟨ds, hsched, hjob, hstage⟩
  | resumeLock =>
    rw [Thread.stageStep] at hstep
    split_ifs at hstep
    obtain rfl := Option.some.inj hstep
    exact ⟨ds, hsched, hjob, hstage⟩
  | resumeTest =>
    rw [Thread.stageStep] at hstep
    split_ifs at hstep
    · obtain rfl := Option.some.inj hstep
      exact ⟨ds, hsched, hjob, hstage⟩
    · obtain rfl := Option.some.inj hstep
      exact ⟨ds, hsched, hjob, hstage⟩
  | resumeKill =>
    obtain rfl := Option.some.inj hstep
    exact ⟨ds, hsched, hjob, hstage⟩
  | resumeUnlock =>
    rw [Thread.stageStep] at hstep
    split_ifs at hstep
    obtain rfl := Option.some.inj hstep
    exact ⟨ds, hsched, hjob, hstage⟩
  | finish =>
    obtain ⟨timer, htimer, rfl⟩ := Option.map_eq_some_iff.mp hstep
    obtain ⟨ds', hsched', hcov⟩ := hsched.finish hjob htimer
    obtain ⟨-, hbefore⟩ | hmissed := hstage
    · cases hbefore
    · exact ⟨ds', hsched', hmissed.imp rfl rfl rfl hcov⟩

theorem Tracked.visit (h : Tracked m ds) {d : DescPtr} {now : TmTime} (hstep : visit m d now = some m') :
    Tracked m' ds := by
  have hcleared (tm : Word) : Sched { m.timer with
      mem := m.timer.mem.writeInt16 (qType tm) (m.timer.mem.readInt16 (qType tm) &&& 0x7fff#16) } ds :=
    h.sched.withMem fun x _ => active_of_cleared
  simp only [Thread.visit] at hstep
  split_ifs at hstep
  · obtain rfl := Option.some.inj hstep
    exact ⟨hcleared _, trivial⟩
  · obtain rfl := Option.some.inj hstep
    exact ⟨hcleared _, fun hnil => absurd hnil (List.cons_ne_nil _ _)⟩
  · obtain rfl := Option.some.inj hstep
    exact ⟨h.sched, trivial⟩

theorem Tracked.emulatorStep (h : Tracked m ds) (hstep : emulatorStep m = some m') :
    ∃ ds', Tracked m' ds' := by
  rw [Thread.emulatorStep] at hstep
  cases hpoint : m.point with
  | idle =>
    rw [hpoint] at hstep
    cases hstep
  | loop desc now =>
    rw [hpoint] at hstep
    cases desc with
    | some d => exact ⟨ds, h.visit hstep⟩
    | none =>
      obtain rfl := Option.some.inj hstep
      exact ⟨ds, h.sched, trivial, .inl ⟨rfl, rfl⟩⟩
  | locked job stage =>
    rw [hpoint] at hstep
    exact h.stageStep hpoint hstep

theorem Tracked.callStep (h : Tracked m ds) (hpoint : m.point = .idle) {c : TimerCall}
    (htimely : Timely m (.call c)) (hstep : callStep m c = some m') : ∃ ds', Tracked m' ds' := by
  have hmissed : NoneMissed m ds := by
    have hok := h.point
    rwa [hpoint] at hok
  cases c with
  | insTime p junk tm trap =>
    rw [Thread.callStep] at hstep
    split_ifs at hstep with hp
    obtain ⟨timer, htimer, rfl⟩ := Option.map_eq_some_iff.mp hstep
    obtain ⟨ds', hsched, hcov⟩ := h.sched.insTime hp htimer
    refine ⟨ds', hsched, ?_⟩
    rw [hpoint]
    exact hmissed.imp rfl rfl rfl hcov
  | rmvTime current tm =>
    obtain ⟨found, hfind, rfl⟩ := Option.map_eq_some_iff.mp hstep
    cases found with
    | none => exact ⟨ds, h⟩
    | some d =>
      obtain ⟨hd, -⟩ := h.sched.listed.mem_of_findDesc hfind
      refine ⟨ds, h.sched, ⟨hd, fun x hx => ?_⟩, .inr hmissed⟩
      exact htimely.2 x ((onList_iff h.sched.listed).mpr hx)
  | primeTime now tm time =>
    obtain ⟨found, hfind, rfl⟩ := Option.map_eq_some_iff.mp hstep
    cases found with
    | none => exact ⟨ds, h⟩
    | some d =>
      obtain ⟨hsched, hjob⟩ := h.sched.prime hfind (htimely.1 d hfind)
      exact ⟨ds, hsched, hjob, .inl ⟨rfl, rfl⟩⟩
  | mac mem => cases hstep

/-- The thread resets `wakeup_time` only when it is about to set the flag. -/
theorem threadStep_spec (ds : List DescPtr) {now : TmTime} (hstep : threadStep m now = some m') :
    m'.point = m.point ∧ m'.timer.desc = m.timer.desc ∧ (Sched m.timer ds → Sched m'.timer ds) ∧
      (NoneMissed m ds → NoneMissed m' ds) := by
  rw [Thread.threadStep] at hstep
  cases hthread : m.thread with
  | sleep =>
    rw [hthread] at hstep
    obtain rfl := Option.some.inj hstep
    refine ⟨rfl, rfl, id, fun h hnil => (h hnil).imp_right fun hsignal => ?_⟩
    rw [hthread] at hsignal
    exact hsignal
  | clock =>
    rw [hthread] at hstep
    obtain rfl := Option.some.inj hstep
    refine ⟨rfl, rfl, id, fun h hnil => (h hnil).imp_right fun hsignal => ?_⟩
    rw [hthread] at hsignal
    exact hsignal.imp_right fun hfalse => by cases hfalse
  | test systemTime =>
    rw [hthread] at hstep
    obtain rfl := Option.some.inj hstep
    refine ⟨rfl, rfl, id, fun h hnil => (h hnil).imp_right fun hsignal => ?_⟩
    rw [hthread] at hsignal
    exact hsignal.imp_right fun hfalse => by cases hfalse
  | lock =>
    rw [hthread] at hstep
    simp only at hstep
    split_ifs at hstep
    obtain rfl := Option.some.inj hstep
    exact ⟨rfl, rfl, id, fun _ _ => .inr (.inr rfl)⟩
  | store =>
    rw [hthread] at hstep
    obtain rfl := Option.some.inj hstep
    exact ⟨rfl, rfl, fun h => h.withWakeupTime (.inr rfl), fun _ _ => .inr (.inr rfl)⟩
  | unlock =>
    rw [hthread] at hstep
    obtain rfl := Option.some.inj hstep
    exact ⟨rfl, rfl, id, fun _ _ => .inr (.inr rfl)⟩
  | setFlag =>
    rw [hthread] at hstep
    obtain rfl := Option.some.inj hstep
    exact ⟨rfl, rfl, id, fun _ _ => .inr (.inl rfl)⟩
  | trigger =>
    rw [hthread] at hstep
    obtain rfl := Option.some.inj hstep
    refine ⟨rfl, rfl, id, fun h hnil => (h hnil).imp_right fun hsignal => ?_⟩
    rw [hthread] at hsignal
    exact hsignal.imp_right fun hfalse => by cases hfalse

/-- The thread does not run while the emulator searches. -/
theorem Tracked.threadStep (h : Tracked m ds) (hcontrol : Control m) (hrunning : m.handler = none)
    {now : TmTime} (hstep : threadStep m now = some m') : Tracked m' ds := by
  obtain ⟨hpoint, hdesc, hsched, hmissed⟩ := threadStep_spec ds hstep
  have hok := h.point
  refine ⟨hsched h.sched, ?_⟩
  rw [hpoint]
  cases hbefore : m.point with
  | idle =>
    rw [hbefore] at hok
    exact hmissed hok
  | loop desc now => trivial
  | locked job stage =>
    rw [hbefore] at hok
    obtain ⟨hjob, hstage⟩ := hok
    refine ⟨hdesc ▸ hjob, ?_⟩
    cases stage with
    | scan p =>
      have hstopped := hcontrol.signals
      rw [hbefore] at hstopped
      obtain ⟨-, -, hwait, -⟩ := hstopped
      rw [hrunning] at hwait
      cases hwait
    | store => trivial
    | _ => exact hstage.imp_right hmissed

theorem Tracked.step (h : Tracked m ds) (hcontrol : Control m) (htimely : Timely m e)
    (hstep : step m e = some m') : ∃ ds', Tracked m' ds' := by
  cases e with
  | call c =>
    rw [Thread.step] at hstep
    split_ifs at hstep with hpoint
    exact h.callStep hpoint htimely hstep
  | irq now =>
    rw [Thread.step] at hstep
    split_ifs at hstep
    obtain rfl := Option.some.inj hstep
    exact ⟨ds, h.sched, trivial⟩
  | ret =>
    rw [Thread.step] at hstep
    split at hstep
    · obtain rfl := Option.some.inj hstep
      exact ⟨ds, h.sched, trivial⟩
    · cases hstep
  | emulator => exact h.emulatorStep hstep
  | thread now =>
    rw [Thread.step] at hstep
    split_ifs at hstep with hrunning
    exact ⟨ds, h.threadStep hcontrol hrunning hstep⟩
  | deliverSuspend =>
    rw [Thread.step] at hstep
    split_ifs at hstep
    obtain rfl := Option.some.inj hstep
    exact ⟨ds, h.sched, h.point⟩
  | deliverResume =>
    rw [Thread.step] at hstep
    split_ifs at hstep
    obtain rfl := Option.some.inj hstep
    exact ⟨ds, h.sched, h.point⟩
  | handler =>
    rw [Thread.step] at hstep
    cases hhandler : m.handler with
    | none =>
      rw [hhandler] at hstep
      cases hstep
    | some point =>
      rw [hhandler] at hstep
      cases point with
      | post =>
        obtain rfl := Option.some.inj hstep
        exact ⟨ds, h.sched, h.point⟩
      | wait =>
        simp only [handlerStep] at hstep
        split_ifs at hstep
        obtain rfl := Option.some.inj hstep
        exact ⟨ds, h.sched, h.point⟩

/-- As long as `PrimeTime` computes times of the host and no task is removed whose `tmCount` reaches
the flag of another one, every active task is waited for or the interrupt is on its way. -/
theorem no_missed {mem : Mem} {desc : DescPtr → TMDesc}
    (hreach : Steps.Reaches step Timely (initial mem desc) m) (houtside : Outside m) : NoMissed m := by
  have hinv : Control m ∧ ∃ ds, Tracked m ds := by
    clear houtside
    induction hreach with
    | start => exact ⟨control_initial mem desc, [], tracked_initial mem desc⟩
    | next _ htimely hstep ih =>
      obtain ⟨hcontrol, ds, h⟩ := ih
      exact ⟨hcontrol.step hstep, h.step hcontrol htimely hstep⟩
  obtain ⟨-, ds, h⟩ := hinv
  have hok := h.point
  rw [houtside.1] at hok
  exact (hok houtside.2).imp_left (CoveredOn.iff h.sched.listed).mp

end Runs

-- ---------------------------------------------------------------------------
-- Runs
-- ---------------------------------------------------------------------------

/-- The statements from `timer_thread_suspend` on, with `n` of them while the thread is stopped. -/
def stoppedFor (n : Nat) : List Event :=
  suspended ++ List.replicate n .emulator ++ [.emulator, .handler, .emulator, .emulator]

instance (P : TmTime → Prop) [DecidablePred P] (m : Machine) : (e : Event) → Decidable (Primes P m e)
  | .call (.primeTime now tm time) => decidable_of_iff
      (∀ found ∈ m.timer.findDesc tm, ∀ d ∈ found,
        P (TimerState.primedWakeup now tm time (m.timer.desc d) m.timer.mem)) (by
      constructor
      · exact fun h d hfind => h (some d) hfind d rfl
      · rintro h found hfind d rfl
        exact h d hfind)
  | .call (.insTime ..) => inferInstanceAs (Decidable True)
  | .call (.rmvTime ..) => inferInstanceAs (Decidable True)
  | .call (.mac _) => inferInstanceAs (Decidable True)
  | .irq _ => inferInstanceAs (Decidable True)
  | .ret => inferInstanceAs (Decidable True)
  | .emulator => inferInstanceAs (Decidable True)
  | .thread _ => inferInstanceAs (Decidable True)
  | .deliverSuspend => inferInstanceAs (Decidable True)
  | .deliverResume => inferInstanceAs (Decidable True)
  | .handler => inferInstanceAs (Decidable True)

instance (t : TmTime) : Decidable t.Normalised := inferInstanceAs (Decidable (_ ∧ _))

instance (t : TmTime) : Decidable (HostTime t) := inferInstanceAs (Decidable (_ ∧ _ ∧ _))

def Event.isRemove : Event → Bool
  | .call (.rmvTime ..) => true
  | _ => false

theorem removesApart_of_not_remove {m : Machine} {e : Event} (h : e.isRemove = false) : RemovesApart m e := by
  cases e with
  | call c =>
    cases c with
    | rmvTime current tm => cases h
    | _ => trivial
  | _ => trivial

def primeRun : List Event :=
  [.call (.insTime 1 ⟨0, 0⟩ 0x1000 0), .call (.primeTime ⟨100, 0⟩ 0x1000 0)] ++ stoppedFor 9

theorem no_missed_primed : ∃ m, Steps.Reaches step Timely (initial (fun _ => 0) fun _ => ⟨0, ⟨0, 0⟩⟩) m ∧
    Outside m ∧ m.timer.wakeupTime = ⟨100, 0⟩ ∧ NoMissed m := by
  have hvalue : (Steps.run step (initial (fun _ => 0) fun _ => ⟨0, ⟨0, 0⟩⟩) primeRun).map
      (fun m => (m.point, m.frames, m.timer.wakeupTime)) = some (.idle, [], ⟨100, 0⟩) := by
    decide +kernel
  have hprimes : Steps.Guarded step (Primes HostTime) (initial (fun _ => 0) fun _ => ⟨0, ⟨0, 0⟩⟩) primeRun := by
    decide +kernel
  obtain ⟨m, hm, hval⟩ := Option.map_eq_some_iff.mp hvalue
  simp only [Prod.mk.injEq] at hval
  obtain ⟨hpoint, hframes, hwakeup⟩ := hval
  have htimely : Steps.Guarded step Timely (initial (fun _ => 0) fun _ => ⟨0, ⟨0, 0⟩⟩) primeRun := by
    refine hprimes.imp fun e he s hprime => ⟨hprime, ?_⟩
    have hkept : ∀ e ∈ primeRun, e.isRemove = false := by decide
    exact removesApart_of_not_remove (hkept e he)
  have hreach := Steps.Reaches.start.run_append hm htimely
  exact ⟨m, hreach, ⟨hpoint, hframes⟩, hwakeup, no_missed hreach ⟨hpoint, hframes⟩⟩

/-- An active task is left out, and no interrupt is on its way. -/
def Missed (m : Machine) (d : DescPtr) : Prop :=
  (Active m.timer.mem (m.timer.desc d).task ∧
    (m.timer.desc d).wakeup.nanoseconds < m.timer.wakeupTime.nanoseconds) ∧
  m.timerFlag = false ∧ m.thread.signals = false

instance (m : Machine) (d : DescPtr) : Decidable (Missed m d) :=
  inferInstanceAs (Decidable ((_ ∧ _) ∧ _ ∧ _))

theorem Missed.not_noMissed {m : Machine} {d : DescPtr} (h : Missed m d) (hd : OnList m.timer d) :
    ¬NoMissed m := by
  obtain ⟨⟨hactive, hearlier⟩, hflag, hthread⟩ := h
  rintro (hcov | hset | hsignals)
  · exact absurd (hcov d hd hactive) (by omega)
  · rw [hflag] at hset
    cases hset
  · rw [hthread] at hsignals
    cases hsignals

/-- The task of `d` is missed at the end of the run, which primes only such times. -/
theorem missed_of_run {P : TmTime → Prop} {m₀ : Machine} (es : List Event) (d : DescPtr)
    (ds : List DescPtr) (hrun : (Steps.run step m₀ es).map (fun m => (m.point, m.frames,
      decide (Walk m.timer.next m.timer.tmDescList (d :: ds)), decide (Missed m d))) =
      some (.idle, [], true, true))
    (hprimes : Steps.Guarded step (Primes P) m₀ es) :
    ∃ m, Steps.Reaches step (Primes P) m₀ m ∧ Outside m ∧ ¬NoMissed m := by
  obtain ⟨m, hm, hval⟩ := Option.map_eq_some_iff.mp hrun
  simp only [Prod.mk.injEq, decide_eq_true_eq] at hval
  obtain ⟨hpoint, hframes, hwalk, hmissed⟩ := hval
  exact ⟨m, Steps.Reaches.start.run_append hm hprimes, ⟨hpoint, hframes⟩,
    hmissed.not_noMissed ⟨_, hwalk, List.mem_cons_self ..⟩⟩

/-- The time that is left of the first task, -1000000, is stored over the flag of the second one. -/
def overlapRun : List Event :=
  [.call (.insTime 1 ⟨0, 0⟩ 0x1000 0), .call (.insTime 2 ⟨0, 0⟩ 0x1006 0),
    .call (.primeTime ⟨50, 0⟩ 0x1006 0)] ++ stoppedFor 10 ++
  [.call (.insTime 3 ⟨0, 0⟩ 0x1006 0), .call (.primeTime ⟨100, 0⟩ 0x1000 0)] ++ stoppedFor 10 ++
  [.call (.rmvTime ⟨99, 0⟩ 0x1000)] ++ stoppedFor 10

/-- The time of a new task, which nothing has written, is before 1970. -/
def earlyRun : List Event :=
  [.call (.insTime 1 ⟨-100, 0⟩ 0x1000 0x400), .call (.primeTime ⟨100, 0⟩ 0x1000 0)] ++ stoppedFor 9

/-- The delay of the second task is -2147.483648 seconds. -/
def negativeRun : List Event :=
  [.call (.insTime 1 ⟨0, 0⟩ 0x1000 0), .call (.insTime 2 ⟨0, 0⟩ 0x2000 0),
    .call (.primeTime ⟨97852, 600000000⟩ 0x1000 0)] ++ stoppedFor 10 ++
  [.call (.primeTime ⟨100000, 0⟩ 0x2000 0x80000000)] ++ stoppedFor 10

/-- A task that overlaps another one, a time before 1970, and one that is not normalised. -/
theorem wakeup_missed :
    (∃ m, Steps.Reaches step (Primes HostTime) (initial (fun _ => 1) fun _ => ⟨0, ⟨0, 0⟩⟩) m ∧
      Outside m ∧ ¬NoMissed m) ∧
    (∃ m, Steps.Reaches step (Primes fun t => t.Normalised ∧ t.nanoseconds < wakeupTimeMax.nanoseconds)
      (initial (fun _ => 1) fun _ => ⟨0, ⟨0, 0⟩⟩) m ∧ Outside m ∧ ¬NoMissed m) ∧
    ∃ m, Steps.Reaches step (Primes fun t => 0 ≤ t.tvSec ∧ t.nanoseconds < wakeupTimeMax.nanoseconds)
      (initial (fun _ => 1) fun _ => ⟨0, ⟨0, 0⟩⟩) m ∧ Outside m ∧ ¬NoMissed m := by
  refine ⟨?_, ?_, ?_⟩
  · exact missed_of_run overlapRun 2 [] (by decide +kernel) (by decide +kernel)
  · exact missed_of_run earlyRun 1 [] (by decide +kernel) (by decide +kernel)
  · exact missed_of_run negativeRun 2 [1] (by decide +kernel) (by decide +kernel)

end SheepShear.Timer.Thread
