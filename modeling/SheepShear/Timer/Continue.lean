import SheepShear.Timer.Descriptors

/-!
# Stopping and continuing a delay

`RmvTime` stores what remains of a delay in `tmCount`, and `PrimeTime(0)` on the
task that `InsXTime` has installed again is to go on with it. The wake-up time
that results counts from what happens to be in the block of the new descriptor,
and only the upper half of `tmCount` is read.
-/

namespace SheepShear.Timer

-- ---------------------------------------------------------------------------
-- The fields of a task in memory
-- ---------------------------------------------------------------------------

/-- A halfword at the address of a word is its upper half. -/
theorem readInt16_writeInt32_self (m : Mem) (a v : Word) :
    (m.writeInt32 a v).readInt16 a = v.extractLsb' 16 16 := by
  have h1 : a + 1 ≠ a := by simp
  simp only [Mem.readInt16, Mem.writeInt32, if_pos, h1, if_false]
  exact BitVec.extractLsb'_append_extractLsb'_eq_extractLsb' (by omega)

theorem tmCount_writeInt16_qType (m : Mem) (tm : Word) (v : BitVec 16) :
    (m.writeInt16 (qType tm) v).readInt16 (tmCount tm) = m.readInt16 (tmCount tm) := by
  simp [Mem.readInt16, Mem.writeInt16, qType, tmCount, add_assoc]

theorem tmWakeUp_writeInt16_qType (m : Mem) (tm : Word) (v : BitVec 16) :
    (m.writeInt16 (qType tm) v).readInt32 (tmWakeUp tm) = m.readInt32 (tmWakeUp tm) := by
  simp [Mem.readInt32, Mem.writeInt16, qType, tmWakeUp, add_assoc]

theorem tmWakeUp_writeInt32_tmCount (m : Mem) (tm v : Word) :
    (m.writeInt32 (tmCount tm) v).readInt32 (tmWakeUp tm) = m.readInt32 (tmWakeUp tm) := by
  simp [Mem.readInt32, Mem.writeInt32, tmCount, tmWakeUp, add_assoc]

theorem extended_insType (m : Mem) (tm : Word) {trap : BitVec 16} (h : trap &&& 0x400#16 ≠ 0) :
    Extended (m.writeInt16 (qType tm) (insType m tm trap)) tm := by
  rw [Extended, Mem.readInt16_writeInt16_self, insType]
  generalize m.readInt16 (qType tm) = x
  have hbit : (x &&& 0x1fff#16 ||| (trap <<< 4) &&& 0x6000#16) &&& 0x4000#16 = (trap &&& 0x400#16) <<< 4 := by
    apply BitVec.eq_of_getLsbD_eq
    intro i hi
    interval_cases i <;> simp
  rw [hbit]
  intro hzero
  have hlow : trap.getLsbD 10 = false := by simpa using congrArg (fun y => BitVec.getLsbD y 14) hzero
  apply h
  apply BitVec.eq_of_getLsbD_eq
  intro i hi
  interval_cases i <;> simp_all

theorem active_primed (m : Mem) (tm : Word) :
    Active (m.writeInt16 (qType tm) (m.readInt16 (qType tm) ||| 0x8000#16)) tm := by
  rw [Active, Mem.readInt16_writeInt16_self]
  intro hzero
  have hbit := congrArg (fun y => BitVec.getLsbD y 15) hzero
  simp at hbit

-- ---------------------------------------------------------------------------
-- The three calls
-- ---------------------------------------------------------------------------

/-- `RmvTime`, `InsXTime` and `PrimeTime(0)`. -/
def TimerState.stopAndContinue (s : TimerState) (t0 : TmTime) (p : DescPtr) (junk : TmTime)
    (trap : BitVec 16) (t2 : TmTime) (tm : Word) : Option TimerState := do
  let s ← s.rmvTime t0 tm
  let s ← s.insTime p junk tm trap
  s.primeTime t2 tm 0

/-- What `RmvTime` stores for an active task. -/
def remainingTime (wakeup t0 : TmTime) : Word := timerHost2MacTime (timerSubTime wakeup t0)

/-- What `PrimeTime(0)` reads of it. -/
def upperHalf (time : Word) : Word := (time.extractLsb' 16 16).setWidth 32

/-- An active task with its descriptor, primed at least once since it was last installed. -/
structure Scheduled (s : TimerState) (tm : Word) (d : DescPtr) : Prop where
  found : s.findDesc tm = some (some d)
  active : Active s.mem tm
  wakeUp : s.mem.readInt32 (tmWakeUp tm) ≠ 0

theorem Scheduled.stopAndContinue {s : TimerState} {tm : Word} {d : DescPtr} (h : Scheduled s tm d)
    (hrun : TimerRun s) (t0 t2 : TmTime) {p : DescPtr} (hp : p ∉ s.live.erase d) (junk : TmTime)
    {trap : BitVec 16} (htrap : trap &&& 0x400#16 ≠ 0) :
    (∃ s₁, s.rmvTime t0 tm = some s₁ ∧
      s₁.mem.readInt32 (tmCount tm) = remainingTime (s.desc d).wakeup t0) ∧
    ∃ s', s.stopAndContinue t0 p junk trap t2 tm = some s' ∧ Active s'.mem tm ∧
      s'.findDesc tm = some (some p) ∧ (s'.desc p).wakeup = timerAddTime junk
        (timerMac2HostTime (upperHalf (remainingTime (s.desc d).wakeup t0))) := by
  obtain ⟨ds, hds⟩ := hrun.listed
  obtain ⟨hd, htask⟩ := hds.mem_of_findDesc h.found
  -- the task is gone from the list
  obtain ⟨s₁, hrmv, hds₁, hlive₁, hdesc₁, hmem₁⟩ := hds.rmvTime_some h.found t0
  rw [rmvMem, if_pos h.active] at hmem₁
  have hgone : s₁.findDesc tm = some none := by
    rw [hds₁.findDesc_eq, hdesc₁]
    refine congrArg some (List.find?_eq_none.mpr fun x hx => ?_)
    obtain ⟨hne, hx⟩ := hds.walk.nodup.mem_erase_iff.mp hx
    intro hxtask
    exact hne (hds.task_inj hx hd ((of_decide_eq_true hxtask).trans htask.symm))
  -- it comes back in a new block
  rw [← hlive₁] at hp
  obtain ⟨s₂, hins, hds₂, hdesc₂, hmem₂⟩ := hds₁.insTime_new hp hgone junk trap
  have hback : s₂.findDesc tm = some (some p) := by
    rw [hds₂.findDesc_eq, List.find?_cons_of_pos (by simp [hdesc₂])]
  obtain ⟨s', m, hprime, hds', hdesc', hmem'⟩ := hds₂.primeTime_some hback t2 0
  refine ⟨⟨s₁, hrmv, ?_⟩, s', ?_, ?_, ?_, ?_⟩
  · rw [hmem₁, Mem.readInt32_writeInt32_self]
    rfl
  · rw [TimerState.stopAndContinue, hrmv, Option.bind_eq_bind, Option.bind_some, hins,
      Option.bind_some, hprime]
  · rw [hmem']
    exact active_primed m tm
  · rw [hds'.findDesc_eq, List.find?_cons_of_pos (by simp [hdesc'])]
  · have hext : Extended s₂.mem tm := by
      rw [hmem₂]
      exact extended_insType s₁.mem tm htrap
    have hset : s₂.mem.readInt32 (tmWakeUp tm) ≠ 0 := by
      rw [hmem₂, tmWakeUp_writeInt16_qType, hmem₁, tmWakeUp_writeInt32_tmCount,
        tmWakeUp_writeInt16_qType]
      exact h.wakeUp
    have hcount : s₂.mem.readInt16 (tmCount tm) =
        (remainingTime (s.desc d).wakeup t0).extractLsb' 16 16 := by
      rw [hmem₂, tmCount_writeInt16_qType, hmem₁, readInt16_writeInt32_self]
      rfl
    rw [hdesc', TimerState.primedWakeup, if_pos ⟨hext, hset⟩, if_pos rfl, hcount, hdesc₂]
    rfl

/-- The task is scheduled for `t2` and the delay that `RmvTime` has stored. -/
def Continues (s : TimerState) (t0 : TmTime) (p : DescPtr) (junk : TmTime) (trap : BitVec 16)
    (t2 : TmTime) (tm : Word) : Prop :=
  ∃ s₁ s' d, s.rmvTime t0 tm = some s₁ ∧ s.stopAndContinue t0 p junk trap t2 tm = some s' ∧
    Active s'.mem tm ∧ s'.findDesc tm = some (some d) ∧
    (s'.desc d).wakeup.nanoseconds = t2.nanoseconds + macDelay (s₁.mem.readInt32 (tmCount tm))

theorem nanoseconds_upperHalf (time : Word) :
    (timerMac2HostTime (upperHalf time)).nanoseconds = macDelay (upperHalf time) := by
  refine nanoseconds_timerMac2HostTime fun heq => ?_
  have hlt : (upperHalf time).toNat < 2 ^ 16 := by
    rw [upperHalf, BitVec.toNat_setWidth_of_le (by decide)]
    exact BitVec.isLt _
  rw [heq] at hlt
  exact absurd hlt (by decide)

theorem Scheduled.continues_eq {s : TimerState} {tm : Word} {d : DescPtr} (h : Scheduled s tm d)
    (hrun : TimerRun s) (t0 t2 : TmTime) {p : DescPtr} (hp : p ∉ s.live.erase d) (junk : TmTime)
    {trap : BitVec 16} (htrap : trap &&& 0x400#16 ≠ 0) :
    Continues s t0 p junk trap t2 tm ↔
      junk.nanoseconds + macDelay (upperHalf (remainingTime (s.desc d).wakeup t0)) =
        t2.nanoseconds + macDelay (remainingTime (s.desc d).wakeup t0) := by
  obtain ⟨⟨s₁, hrmv, hcount⟩, s', hall, hactive, hfind, hwakeup⟩ :=
    h.stopAndContinue hrun t0 t2 hp junk htrap
  have hsum : (s'.desc p).wakeup.nanoseconds =
      junk.nanoseconds + macDelay (upperHalf (remainingTime (s.desc d).wakeup t0)) := by
    rw [hwakeup, nanoseconds_timerAddTime, nanoseconds_upperHalf]
  constructor
  · rintro ⟨s₁', s'', d', hrmv', hall', -, hfind', heq⟩
    obtain rfl := Option.some.inj (hrmv.symm.trans hrmv')
    obtain rfl := Option.some.inj (hall.symm.trans hall')
    obtain rfl := Option.some.inj (Option.some.inj (hfind.symm.trans hfind'))
    rw [← hsum, heq, hcount]
  · intro heq
    refine ⟨s₁, s', p, hrmv, hall, hactive, hfind, ?_⟩
    rw [hsum, heq, hcount]

/-- The upper half stands for the same delay by coincidence only. -/
theorem macDelay_upperHalf_iff (time : Word) :
    macDelay (upperHalf time) = macDelay time ↔ time = 0 ∨ time = -64551000 := by
  have hhalf : (upperHalf time).toNat = time.toNat / 2 ^ 16 := by
    have htime := time.isLt
    rw [upperHalf, BitVec.toNat_setWidth_of_le (by decide), BitVec.extractLsb'_toNat,
      Nat.shiftRight_eq_div_pow]
    omega
  have htime := time.isLt
  have hvalues : time = 0 ∨ time = -64551000 ↔ time.toNat = 0 ∨ time.toNat = 2 ^ 32 - 64551000 := by
    constructor
    · rintro (rfl | rfl)
      · exact .inl rfl
      · exact .inr rfl
    · rintro (hval | hval)
      · exact .inl (BitVec.eq_of_toNat_eq hval)
      · exact .inr (BitVec.eq_of_toNat_eq hval)
  rw [hvalues]
  simp only [macDelay, BitVec.toInt_eq_toNat_cond, hhalf]
  split_ifs <;> omega

/-- Continuing works only when the block that `new` returns holds the right time already, and a
block that holds the present time is right for two remaining times. -/
theorem continues_iff {s : TimerState} {tm : Word} {d : DescPtr} (hrun : TimerRun s)
    (h : Scheduled s tm d) (t0 t2 : TmTime) {p : DescPtr} (hp : p ∉ s.live.erase d) (junk : TmTime)
    {trap : BitVec 16} (htrap : trap &&& 0x400#16 ≠ 0) :
    (Continues s t0 p junk trap t2 tm ↔
      junk.nanoseconds = t2.nanoseconds + macDelay (remainingTime (s.desc d).wakeup t0) -
        macDelay (upperHalf (remainingTime (s.desc d).wakeup t0))) ∧
    (junk.nanoseconds = t2.nanoseconds →
      (Continues s t0 p junk trap t2 tm ↔
        remainingTime (s.desc d).wakeup t0 = 0 ∨
        remainingTime (s.desc d).wakeup t0 = -64551000)) := by
  have hiff := h.continues_eq hrun t0 t2 hp junk htrap
  constructor
  · rw [hiff]
    omega
  · intro hpresent
    rw [hiff, hpresent, ← macDelay_upperHalf_iff]
    omega

-- ---------------------------------------------------------------------------
-- A delay of five seconds
-- ---------------------------------------------------------------------------

/-- The task at 0x1000 is installed by `InsXTime` and primed for five seconds, at 100 s. -/
def fiveSeconds : Option TimerState := do
  let s ← (TimerState.reset (fun _ => 0) fun _ => ⟨0, ⟨0, 0⟩⟩).insTime 1 ⟨0, 0⟩ 0x1000 0x400
  s.primeTime ⟨100, 0⟩ 0x1000 (-5000000)

theorem fiveSeconds_spec : ∃ s, TimerRun s ∧ Scheduled s 0x1000 1 ∧
    (s.desc 1).wakeup = ⟨105, 0⟩ ∧ s.live = {1} := by
  have hvalues : fiveSeconds.map (fun s => (s.findDesc 0x1000, decide (Active s.mem 0x1000),
      s.mem.readInt32 (tmWakeUp 0x1000), (s.desc 1).wakeup, s.live)) =
      some (some (some 1), true, 0x12345678, ⟨105, 0⟩, {1}) := by decide +kernel
  obtain ⟨s, hs, hval⟩ := Option.map_eq_some_iff.mp hvalues
  simp only [Prod.mk.injEq, decide_eq_true_eq] at hval
  obtain ⟨hfind, hactive, hwake, hwakeup, hlive⟩ := hval
  rw [fiveSeconds, Option.bind_eq_bind, Option.bind_eq_some_iff] at hs
  obtain ⟨s₁, hins, hprime⟩ := hs
  have hrun := (TimerRun.reset (fun _ => 0) fun _ => ⟨0, ⟨0, 0⟩⟩).call
    (.insTime 1 ⟨0, 0⟩ 0x1000 0x400) (Finset.notMem_empty 1) hins
  refine ⟨s, hrun.call (.primeTime ⟨100, 0⟩ 0x1000 (-5000000)) trivial hprime, ?_, hwakeup, hlive⟩
  exact ⟨hfind, hactive, by rw [hwake]; decide⟩

/-- Stopped at 101 s and continued at 102 s in the same block, cleared by the allocator. -/
theorem four_seconds_lost : ∃ s, TimerRun s ∧ Scheduled s 0x1000 1 ∧
    timerCmpTime ⟨101, 0⟩ (s.desc 1).wakeup < 0 ∧
    ¬ Continues s ⟨101, 0⟩ 1 ⟨0, 0⟩ 0x400 ⟨102, 0⟩ 0x1000 := by
  obtain ⟨s, hrun, hsched, hwakeup, hlive⟩ := fiveSeconds_spec
  refine ⟨s, hrun, hsched, by rw [hwakeup]; decide, ?_⟩
  rw [hsched.continues_eq hrun _ _ (by simp [hlive]) _ (by decide), hwakeup]
  decide

theorem continues_iff_fiveSeconds : ∃ s, TimerRun s ∧ Scheduled s 0x1000 1 ∧
    (Continues s ⟨101, 0⟩ 1 ⟨102, 0⟩ 0x400 ⟨102, 0⟩ 0x1000 ↔
      remainingTime (s.desc 1).wakeup ⟨101, 0⟩ = 0 ∨
      remainingTime (s.desc 1).wakeup ⟨101, 0⟩ = -64551000) := by
  obtain ⟨s, hrun, hsched, -, hlive⟩ := fiveSeconds_spec
  exact ⟨s, hrun, hsched,
    (continues_iff hrun hsched _ _ (by simp [hlive]) _ (by decide)).2 rfl⟩

end SheepShear.Timer
