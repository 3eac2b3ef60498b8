import SheepShear.Timer.Interrupt

/-!
# The list under the timer interrupt

The part of the list that is still to be visited begins with the saved pointer.
New descriptors come in front of it, and removing others leaves its first one:
as long as no procedure removes that one, the loop stays on the list and gets to
every task that has expired. After a procedure has removed it, the loop visits a
freed block.
-/

namespace SheepShear.Timer

open IntrusiveList Steps

-- ---------------------------------------------------------------------------
-- The flag of a task
-- ---------------------------------------------------------------------------

/-- The flag is the highest bit of the first byte. -/
theorem active_iff (m : Mem) (tm : Word) : Active m tm ↔ (m (qType tm)).getLsbD 7 = true := by
  have hbit : (m.readInt16 (qType tm)).getLsbD 15 = (m (qType tm)).getLsbD 7 := by
    rw [Mem.readInt16, BitVec.getLsbD_append]
    rfl
  rw [Active, ← hbit]
  generalize m.readInt16 (qType tm) = x
  constructor
  · intro hne
    by_contra hclear
    refine hne (BitVec.eq_of_getLsbD_eq fun i hi => ?_)
    interval_cases i <;> simp_all
  · intro hset hzero
    have hflag := congrArg (fun y => BitVec.getLsbD y 15) hzero
    rw [BitVec.getLsbD_and, hset] at hflag
    simp at hflag

/-- A store to `qType` that keeps the highest bit of the second byte does not change another task. -/
theorem active_writeType {m : Mem} {tm tm' : Word} {v : BitVec 16} (hne : tm' ≠ tm)
    (hlow : v.getLsbD 7 = (m (qType tm + 1)).getLsbD 7) :
    Active (m.writeInt16 (qType tm) v) tm' ↔ Active m tm' := by
  have haddr : qType tm' ≠ qType tm := fun heq => hne (add_right_cancel heq)
  rw [active_iff, active_iff, Mem.writeInt16, if_neg haddr]
  split
  · next hnext =>
    have hbyte : (v.extractLsb' 0 8).getLsbD 7 = v.getLsbD 7 := by
      rw [BitVec.getLsbD_extractLsb']
      simp
    rw [hbyte, hlow, hnext]
  · rfl

/-- Making a task inactive does not change another one. -/
theorem active_cleared (m : Mem) {tm tm' : Word} (hne : tm' ≠ tm) :
    Active (m.writeInt16 (qType tm) (m.readInt16 (qType tm) &&& 0x7fff#16)) tm' ↔ Active m tm' := by
  refine active_writeType hne ?_
  rw [Mem.readInt16, BitVec.getLsbD_and, BitVec.getLsbD_append]
  simp

/-- Installing a task once more makes it inactive. -/
theorem not_active_insType (m : Mem) (tm : Word) (trap : BitVec 16) :
    ¬ Active (m.writeInt16 (qType tm) (insType m tm trap)) tm := by
  rw [active_iff, Mem.writeInt16, if_pos rfl, insType]
  simp

-- ---------------------------------------------------------------------------
-- What a call does to the list
-- ---------------------------------------------------------------------------

namespace Interrupt

variable {s s' s₀ : TimerState} {now : TmTime} {ds as bs : List DescPtr} {c : TimerCall} {d : DescPtr}
  {tm : Word} {i i' : State} {a : Act}

/-- The descriptors after a call, and what they hold. -/
inductive Effect (s : TimerState) (ds : List DescPtr) (c : TimerCall) (s' : TimerState) :
    List DescPtr → Prop where
  | kept : s'.desc = s.desc → Effect s ds c s' ds
  | pushed (p : DescPtr) (desc : TMDesc) : p ∉ ds → s'.desc = Function.update s.desc p desc →
    Effect s ds c s' (p :: ds)
  | freed (d : DescPtr) : d ∈ ds → touched c = some (s.desc d).task → Frees s d c →
    s'.desc = s.desc → Effect s ds c s' (ds.erase d)
  | primed (d : DescPtr) (wakeup : TmTime) : d ∈ ds → touched c = some (s.desc d).task →
    s'.desc = Function.update s.desc d { s.desc d with wakeup := wakeup } → Effect s ds c s' ds

theorem setWakeupTime_desc (hs' : s.setWakeupTime = some s') : s'.desc = s.desc := by
  rw [TimerState.setWakeupTime] at hs'
  obtain ⟨w, -, hw⟩ := Option.bind_eq_some_iff.mp hs'
  obtain rfl := Option.some.inj hw
  rfl

theorem insTime_effect (h : Listed s ds) (p : DescPtr) (junk : TmTime) (tm : Word)
    (trap : BitVec 16) (hp : p ∉ s.live) :
    ∃ s' ds', s.insTime p junk tm trap = some s' ∧ Listed s' ds' ∧
      Effect s ds (.insTime p junk tm trap) s' ds' := by
  cases hfind : s.findDesc tm with
  | none =>
    rw [h.findDesc_eq] at hfind
    cases hfind
  | some found =>
    cases found with
    | none =>
      obtain ⟨s', hs', hlist, -⟩ := h.insTime_new hp hfind junk trap
      have hnew : s.insTime p junk tm trap =
          some ({ s with mem := s.mem.writeInt16 (qType tm) (insType s.mem tm trap) }.push p
            ⟨tm, junk⟩) := by
        have hfind' : ({ s with mem := s.mem.writeInt16 (qType tm) (insType s.mem tm trap) } :
            TimerState).findDesc tm = some none := hfind
        rw [TimerState.insTime, hfind']
        rfl
      have hdesc : s'.desc = Function.update s.desc p ⟨tm, junk⟩ := by
        obtain rfl := Option.some.inj (hnew.symm.trans hs')
        rfl
      have hpds : p ∉ ds := by rwa [h.live, List.mem_toFinset] at hp
      exact ⟨s', p :: ds, hs', hlist, .pushed p _ hpds hdesc⟩
    | some d =>
      exact ⟨_, ds, Listed.insTime_again hfind p junk trap, h.withMem _, .kept rfl⟩

theorem rmvTime_effect (h : Listed s ds) (current : TmTime) (tm : Word) :
    ∃ s' ds', s.rmvTime current tm = some s' ∧ Listed s' ds' ∧
      Effect s ds (.rmvTime current tm) s' ds' := by
  cases hfind : s.findDesc tm with
  | none =>
    rw [h.findDesc_eq] at hfind
    cases hfind
  | some found =>
    cases found with
    | none =>
      refine ⟨s, ds, ?_, h, .kept rfl⟩
      rw [TimerState.rmvTime, hfind]
      rfl
    | some d =>
      obtain ⟨s', hs', hlist, -, hdesc, -⟩ := h.rmvTime_some hfind current
      obtain ⟨hd, htask⟩ := h.mem_of_findDesc hfind
      exact ⟨s', ds.erase d, hs', hlist, .freed d hd (congrArg some htask.symm) hfind hdesc⟩

theorem primeTime_effect (h : Listed s ds) (now : TmTime) (tm time : Word) :
    ∃ s' ds', s.primeTime now tm time = some s' ∧ Listed s' ds' ∧
      Effect s ds (.primeTime now tm time) s' ds' := by
  cases hfind : s.findDesc tm with
  | none =>
    rw [h.findDesc_eq] at hfind
    cases hfind
  | some found =>
    cases found with
    | none =>
      refine ⟨s, ds, ?_, h, .kept rfl⟩
      rw [TimerState.primeTime, hfind]
      rfl
    | some d =>
      obtain ⟨s', -, hs', hlist, -⟩ := h.primeTime_some hfind now time
      obtain ⟨hd, htask⟩ := h.mem_of_findDesc hfind
      have hdesc : s'.desc = (s.setWakeup d
          (TimerState.primedWakeup now tm time (s.desc d) s.mem)).desc := by
        rw [TimerState.primeTime, hfind] at hs'
        simp only [Option.bind_eq_bind, Option.bind_some] at hs'
        have hsame := setWakeupTime_desc hs'
        exact hsame
      exact ⟨s', ds, hs', hlist, .primed d _ hd (congrArg some htask.symm) hdesc⟩

theorem exec_effect (h : Listed s ds) (hc : c.Possible s) :
    ∃ s' ds', c.exec s = some s' ∧ Listed s' ds' ∧ Effect s ds c s' ds' := by
  cases c with
  | insTime p junk tm trap => exact insTime_effect h p junk tm trap hc
  | rmvTime current tm => exact rmvTime_effect h current tm
  | primeTime now tm time => exact primeTime_effect h now tm time
  | mac mem => exact ⟨_, ds, rfl, h.withMem mem, .kept rfl⟩

/-- A task that is installed once more does not stay scheduled. -/
theorem insTime_not_keeps (hfind : s.findDesc tm = some (some d)) (p : DescPtr) (junk : TmTime)
    (trap : BitVec 16) : ¬ Keeps s tm (.insTime p junk tm trap) := by
  intro hkeeps
  have hactive := hkeeps _ (Listed.insTime_again hfind p junk trap)
  exact not_active_insType s.mem tm trap hactive

/-- A part of the list whose first descriptor stays. -/
structure Rest (s : TimerState) (c : TimerCall) (s' : TimerState) (bs bs' : List DescPtr) : Prop where
  head : bs'.head? = bs.head?
  length : bs'.length ≤ bs.length
  subset : bs' ⊆ bs
  mem : ∀ d ∈ bs, touched c ≠ some (s.desc d).task → d ∈ bs'
  task : ∀ d ∈ bs', (s'.desc d).task = (s.desc d).task
  desc : ∀ d ∈ bs', touched c ≠ some (s.desc d).task → s'.desc d = s.desc d

theorem Rest.of_desc (hdesc : s'.desc = s.desc) : Rest s c s' bs bs where
  head := rfl
  length := le_refl _
  subset := List.Subset.refl _
  mem _ hd _ := hd
  task d _ := by rw [hdesc]
  desc d _ _ := by rw [hdesc]

/-- A call that does not free the first descriptor of the rest. -/
theorem Effect.rest {ds' : List DescPtr} (h : Effect s (as ++ bs) c s' ds')
    (hnodup : (as ++ bs).Nodup) (hfree : ∀ d, bs.head? = some d → ¬ Frees s d c) :
    ∃ as' bs', ds' = as' ++ bs' ∧ Rest s c s' bs bs' := by
  cases h with
  | kept hdesc => exact ⟨as, bs, rfl, .of_desc hdesc⟩
  | pushed p desc hp hdesc =>
    have hsame : ∀ d ∈ bs, s'.desc d = s.desc d := by
      intro d hd
      rw [hdesc, Function.update_of_ne]
      rintro rfl
      exact hp (List.mem_append_right as hd)
    refine ⟨p :: as, bs, rfl, rfl, le_refl _, List.Subset.refl _, fun _ hd _ => hd, ?_, ?_⟩
    · intro d hd
      rw [hsame d hd]
    · intro d hd _
      exact hsame d hd
  | freed d hd htask hfrees hdesc =>
    by_cases has : d ∈ as
    · refine ⟨as.erase d, bs, List.erase_append_left bs has, .of_desc hdesc⟩
    · refine ⟨as, bs.erase d, List.erase_append_right bs has, ?_, ?_, List.erase_subset, ?_, ?_, ?_⟩
      · cases bs with
        | nil => rfl
        | cons b bs =>
          have hb : b ≠ d := by
            rintro rfl
            exact hfree b rfl hfrees
          rw [List.erase_cons_tail (by simpa using hb)]
          rfl
      · exact List.length_erase_le
      · intro x hx hxtask
        refine (List.mem_erase_of_ne ?_).mpr hx
        rintro rfl
        exact hxtask htask
      · intro x _
        rw [hdesc]
      · intro x _ _
        rw [hdesc]
  | primed d wakeup hd htask hdesc =>
    refine ⟨as, bs, rfl, rfl, le_refl _, List.Subset.refl _, fun _ hx _ => hx, ?_, ?_⟩
    · intro x hx
      rw [hdesc, Function.update_apply]
      split
      · next hxd => rw [hxd]
      · rfl
    · intro x hx hxtask
      rw [hdesc, Function.update_of_ne]
      rintro rfl
      exact hxtask htask

-- ---------------------------------------------------------------------------
-- What a run keeps
-- ---------------------------------------------------------------------------

/-- The pointer that the loop goes on with. -/
def Point.rest : Point → Option DescPtr
  | .loop desc => desc
  | .procedure _ next => next
  | .done => none

/-- How far a due task is, with the rest of the list. -/
inductive Status (now : TmTime) (i : State) (bs : List DescPtr) (tm : Word) : Prop where
  | waiting (d : DescPtr) : d ∈ bs → (i.timer.desc d).task = tm → Expired i.timer now d →
    Untouched i.trace tm → Status now i bs tm
  | called : i.trace.count (.call tm) = 1 → (∀ d ∈ bs, (i.timer.desc d).task ≠ tm) →
    Status now i bs tm
  | excused : Excused i.trace tm → Status now i bs tm

structure At (s₀ : TimerState) (now : TmTime) (i : State) (as bs : List DescPtr) : Prop where
  listed : Listed i.timer (as ++ bs)
  point : i.point.rest = bs.head?
  visits : i.trace.countP Event.isVisit + bs.length ≤ s₀.live.card
  due : ∀ tm, Due s₀ now tm → Status now i bs tm

theorem Excused.append {trace : List Event} (h : Excused trace tm) (more : List Event) :
    Excused (trace ++ more) tm := by
  obtain ⟨t₁, t₂, rfl, hcall⟩ := h
  exact ⟨t₁, t₂ ++ more, by simp, hcall⟩

theorem Untouched.excused {trace : List Event} (h : Untouched trace tm) :
    Excused (trace ++ [.touch tm]) tm := ⟨trace, [], rfl, h.1⟩

theorem Untouched.visited {trace : List Event} (h : Untouched trace tm) (d : DescPtr) :
    Untouched (trace ++ [.visit d]) tm := by
  simpa [Untouched] using h

theorem Untouched.called {trace : List Event} {tm' : Word} (h : Untouched trace tm)
    (hne : tm ≠ tm') (d : DescPtr) : Untouched (trace ++ [.visit d, .call tm']) tm := by
  simpa [Untouched, hne] using h

theorem start_at (h : Listed s ds) : At s now (start s) [] ds where
  listed := h
  point := h.walk.head_eq
  visits := by
    rw [h.live, List.toFinset_card_of_nodup h.walk.nodup]
    simp [start]
  due tm htm := by
    obtain ⟨d, hfind, hexp⟩ := htm
    obtain ⟨hd, htask⟩ := h.mem_of_findDesc hfind
    exact .waiting d hd htask hexp ⟨List.not_mem_nil, List.not_mem_nil⟩

/-- The tasks behind a descriptor are others. -/
theorem Listed.task_ne (h : Listed s (as ++ d :: bs)) {x : DescPtr} (hx : x ∈ bs) :
    (s.desc x).task ≠ (s.desc d).task := by
  intro heq
  have hxd : x = d := h.task_inj (by simp [hx]) (by simp) heq
  subst hxd
  exact (List.nodup_cons.mp (List.nodup_append.mp h.walk.nodup).2.1).1 hx

theorem At.visit (h : At s₀ now i as (d :: bs)) (hs' : visit now i d = some i') :
    At s₀ now i' (as ++ [d]) bs := by
  have hlive : d ∈ i.timer.live := by simp [h.listed.live]
  have hnext : i.timer.next d = bs.head? := h.listed.walk.next_eq
  have hlisted : Listed i.timer ((as ++ [d]) ++ bs) := by simpa using h.listed
  have hvisits := h.visits
  rw [List.length_cons] at hvisits
  rw [Interrupt.visit, if_pos hlive] at hs'
  dsimp only at hs'
  by_cases hexp : Expired i.timer now d
  · rw [if_pos hexp] at hs'
    obtain rfl := Option.some.inj hs'
    refine ⟨hlisted.withMem _, ?_, ?_, fun tm htm => ?_⟩
    · dsimp only
      split <;> exact hnext
    · simp only [List.countP_append, List.countP_cons, List.countP_nil, Event.isVisit]
      simp
      omega
    · cases h.due tm htm with
      | waiting x hx htask hxexp huntouched =>
        rcases List.mem_cons.mp hx with rfl | hx
        · refine .called ?_ fun y hy => ?_
          · have hzero := List.count_eq_zero.mpr huntouched.1
            simp [htask, hzero]
          · rw [← htask]
            exact Listed.task_ne h.listed hy
        · have hne : tm ≠ (i.timer.desc d).task := htask ▸ Listed.task_ne h.listed hx
          refine .waiting x hx htask ⟨?_, hxexp.2⟩ (huntouched.called hne d)
          rw [htask]
          exact (active_cleared _ hne).mpr (htask ▸ hxexp.1)
      | called hcount hgone =>
        have hne : (i.timer.desc d).task ≠ tm := hgone d (List.mem_cons_self ..)
        refine .called ?_ fun x hx => hgone x (List.mem_cons_of_mem d hx)
        simpa [hne] using hcount
      | excused hexcused => exact .excused (hexcused.append _)
  · rw [if_neg hexp] at hs'
    obtain rfl := Option.some.inj hs'
    refine ⟨hlisted, hnext, ?_, fun tm htm => ?_⟩
    · simp only [List.countP_append, List.countP_cons, List.countP_nil, Event.isVisit]
      simp
      omega
    · cases h.due tm htm with
      | waiting x hx htask hxexp huntouched =>
        rcases List.mem_cons.mp hx with rfl | hx
        · exact absurd hxexp hexp
        · exact .waiting x hx htask hxexp (huntouched.visited d)
      | called hcount hgone =>
        refine .called ?_ fun x hx => hgone x (List.mem_cons_of_mem d hx)
        simpa using hcount
      | excused hexcused => exact .excused (hexcused.append _)

theorem At.finish (h : At s₀ now i as bs) (hpoint : i.point = .loop none)
    (hs' : i.timer.setWakeupTime = some s') : At s₀ now ⟨s', .done, i.trace⟩ as bs := by
  obtain ⟨w, hw⟩ := h.listed.setWakeupTime
  obtain rfl := Option.some.inj (hw.symm.trans hs')
  have hrest := h.point
  rw [hpoint] at hrest
  refine ⟨⟨h.listed.walk, h.listed.live, h.listed.tasks⟩, hrest, h.visits, fun tm htm => ?_⟩
  cases h.due tm htm with
  | waiting d hd htask hexp huntouched => exact .waiting d hd htask hexp huntouched
  | called hcount hgone => exact .called hcount hgone
  | excused hexcused => exact .excused hexcused

theorem At.call (h : At s₀ now i as bs) (hguard : Guard s₀ now i (.call c))
    {tm : Word} {next : Option DescPtr} (hpoint : i.point = .procedure tm next)
    (hs' : c.exec i.timer = some s') :
    ∃ as' bs', At s₀ now ⟨s', i.point, i.trace ++ ((touched c).map Event.touch).toList⟩ as' bs' := by
  obtain ⟨hc, hfrees, hkeeps⟩ := hguard
  have hrest := h.point
  rw [hpoint] at hrest
  obtain ⟨s'', ds', hs'', hlisted, heffect⟩ := exec_effect h.listed hc
  obtain rfl := Option.some.inj (hs'.symm.trans hs'')
  obtain ⟨as', bs', rfl, hbs⟩ := heffect.rest h.listed.walk.nodup fun d hd => by
    refine hfrees tm d ?_
    rw [hpoint, ← hd]
    exact congrArg (Point.procedure tm) hrest
  have hcalls : ∀ tm', (i.trace ++ ((touched c).map Event.touch).toList).count (.call tm') =
      i.trace.count (.call tm') := by
    intro tm'
    cases touched c <;> simp
  refine ⟨as', bs', hlisted, h.point.trans hbs.head.symm, ?_, fun tm' htm' => ?_⟩
  · have hvisits := h.visits
    have hlength := hbs.length
    have hnone : ((touched c).map Event.touch).toList.countP Event.isVisit = 0 := by
      cases touched c <;> rfl
    rw [List.countP_append, hnone]
    omega
  · cases h.due tm' htm' with
    | waiting d hd htask hexp huntouched =>
      by_cases htouch : touched c = some tm'
      · rw [htouch]
        exact .excused huntouched.excused
      · have hd' := hbs.mem d hd (by rwa [htask])
        have hdesc := hbs.desc d hd' (by rwa [htask])
        refine .waiting d hd' (hdesc ▸ htask) ⟨?_, hdesc ▸ hexp.2⟩ ?_
        · rw [hdesc, htask]
          exact hkeeps tm' htm' huntouched htouch s' hs'
        · refine ⟨?_, ?_⟩
          · rw [← List.count_eq_zero, hcalls, List.count_eq_zero]
            exact huntouched.1
          · simp only [List.mem_append, not_or]
            refine ⟨huntouched.2, ?_⟩
            cases hc' : touched c with
            | none => simp
            | some x => simpa [hc', eq_comm] using htouch
    | called hcount hgone =>
      refine .called ((hcalls tm').trans hcount) fun d hd => ?_
      rw [hbs.task d hd]
      exact hgone d (hbs.subset hd)
    | excused hexcused => exact .excused (hexcused.append _)

theorem At.step (h : At s₀ now i as bs) (hguard : Guard s₀ now i a)
    (hstep : step now i a = some i') : ∃ as' bs', At s₀ now i' as' bs' := by
  cases a with
  | go =>
    simp only [Interrupt.step] at hstep
    split at hstep
    · next d hpoint =>
      have hrest := h.point
      rw [hpoint] at hrest
      obtain ⟨bs, rfl⟩ := List.head?_eq_some_iff.mp hrest.symm
      exact ⟨_, _, h.visit hstep⟩
    · next hpoint =>
      obtain ⟨s', hs', rfl⟩ := Option.map_eq_some_iff.mp hstep
      exact ⟨as, bs, h.finish hpoint hs'⟩
    · cases hstep
  | call c =>
    simp only [Interrupt.step] at hstep
    split at hstep
    · next hpoint =>
      obtain ⟨s', hs', rfl⟩ := Option.map_eq_some_iff.mp hstep
      exact h.call hguard hpoint hs'
    · cases hstep
  | ret =>
    simp only [Interrupt.step] at hstep
    split at hstep
    · next hpoint =>
      obtain rfl := Option.some.inj hstep
      have hrest := h.point
      rw [hpoint] at hrest
      refine ⟨as, bs, h.listed, hrest, h.visits, fun tm htm => ?_⟩
      cases h.due tm htm with
      | waiting d hd htask hexp huntouched => exact .waiting d hd htask hexp huntouched
      | called hcount hgone => exact .called hcount hgone
      | excused hexcused => exact .excused hexcused
    · cases hstep

theorem At.good (h : At s₀ now i as bs) : Good s₀ now i where
  listed d hpoint := by
    have hrest := h.point
    rw [hpoint] at hrest
    obtain ⟨bs, rfl⟩ := List.head?_eq_some_iff.mp hrest.symm
    exact ⟨_, h.listed.walk, by simp⟩
  goes_on desc hpoint := by
    have hrest := h.point
    rw [hpoint] at hrest
    cases desc with
    | none =>
      obtain ⟨w, hw⟩ := h.listed.setWakeupTime
      simp [Interrupt.step, hpoint, hw]
    | some d =>
      obtain ⟨bs, rfl⟩ := List.head?_eq_some_iff.mp hrest.symm
      have hlive : d ∈ i.timer.live := by simp [h.listed.live]
      simp only [Interrupt.step, hpoint, Interrupt.visit, hlive, if_true]
      split <;> rfl
  visits := by
    have hvisits := h.visits
    omega
  at_most_once tm htm := by
    cases h.due tm htm with
    | waiting d hd htask hexp huntouched =>
      left
      rw [List.count_eq_zero.mpr huntouched.1]
      exact Nat.zero_le 1
    | called hcount hgone => exact .inl (le_of_eq hcount)
    | excused hexcused => exact .inr hexcused
  once hdone tm htm := by
    have hrest := h.point
    rw [hdone] at hrest
    have hnil : bs = [] := List.head?_eq_none_iff.mp hrest.symm
    cases h.due tm htm with
    | waiting d hd htask hexp huntouched =>
      rw [hnil] at hd
      exact absurd hd List.not_mem_nil
    | called hcount hgone => exact .inl hcount
    | excused hexcused => exact .inr hexcused

theorem reaches_at (hrun : TimerRun s₀)
    (h : Reaches (step now) (Guard s₀ now) (start s₀) i) : ∃ as bs, At s₀ now i as bs := by
  obtain ⟨ds, hds⟩ := hrun.listed
  induction h with
  | start => exact ⟨[], ds, start_at hds⟩
  | next _ hguard hstep ih =>
    obtain ⟨as, bs, hat⟩ := ih
    exact hat.step hguard hstep

/-- After a procedure has removed the next task, the loop visits a freed block. -/
theorem freed_visited (h : At s₀ now i as bs) (current : TmTime) {tm tm' : Word} {d : DescPtr}
    (hpoint : i.point = .procedure tm (some d)) (hfind : i.timer.findDesc tm' = some (some d)) :
    ∃ i₁ i₂, step now i (.call (.rmvTime current tm')) = some i₁ ∧ step now i₁ .ret = some i₂ ∧
      i₂.point = .loop (some d) ∧ ¬ OnList i₂.timer d := by
  obtain ⟨s', hs', hlisted, -⟩ := h.listed.rmvTime_some hfind current
  refine ⟨⟨s', i.point, i.trace ++ [.touch tm']⟩, ⟨s', .loop (some d), i.trace ++ [.touch tm']⟩,
    ?_, ?_, rfl, ?_⟩
  · simp [Interrupt.step, hpoint, TimerCall.exec, hs', touched]
  · simp [Interrupt.step, hpoint]
  · rintro ⟨ds, hwalk, hd⟩
    rw [hwalk.unique hlisted.walk] at hd
    exact (h.listed.walk.nodup.mem_erase_iff.mp hd).1 rfl

/-- No descriptor that was freed is visited, and every task that is due is called once, as long as
no procedure removes the task that comes next; after one has, the loop visits a freed block. -/
theorem interrupt_good {s₀ : TimerState} {now : TmTime} {i : State} (hrun : TimerRun s₀)
    (h : Reaches (step now) (Guard s₀ now) (start s₀) i) :
    Good s₀ now i ∧
    ∀ tm tm' d current, i.point = .procedure tm (some d) →
      i.timer.findDesc tm' = some (some d) →
      ∃ i₁ i₂, step now i (.call (.rmvTime current tm')) = some i₁ ∧ step now i₁ .ret = some i₂ ∧
        ¬ Good s₀ now i₂ := by
  obtain ⟨as, bs, hat⟩ := reaches_at hrun h
  refine ⟨hat.good, fun tm tm' d current hpoint hfind => ?_⟩
  obtain ⟨i₁, i₂, hcall, hret, hloop, hgone⟩ := freed_visited hat current hpoint hfind
  exact ⟨i₁, i₂, hcall, hret, fun hgood => hgone (hgood.listed d hloop)⟩

-- ---------------------------------------------------------------------------
-- Two tasks that have expired
-- ---------------------------------------------------------------------------

/-- The tasks at 0x1000 and 0x2000, primed to run at once; the second one is visited first. -/
def twoTasks : Option TimerState := do
  let s ← (TimerState.reset (fun _ => 1) fun _ => ⟨0, ⟨0, 0⟩⟩).insTime 1 ⟨0, 0⟩ 0x1000 0
  let s ← s.insTime 2 ⟨0, 0⟩ 0x2000 0
  let s ← s.primeTime ⟨100, 0⟩ 0x1000 0
  s.primeTime ⟨100, 0⟩ 0x2000 0

theorem twoTasks_spec : ∃ s, twoTasks = some s ∧ TimerRun s ∧ Listed s [2, 1] ∧
    (s.desc 1).task = 0x1000 ∧ (s.desc 2).task = 0x2000 := by
  have hvalues : twoTasks.map (fun s => (s.tmDescList, s.next 2, s.next 1, (s.desc 1).task,
      (s.desc 2).task)) = some (some 2, some 1, none, 0x1000, 0x2000) := by decide +kernel
  obtain ⟨s, hs, hval⟩ := Option.map_eq_some_iff.mp hvalues
  simp only [Prod.mk.injEq] at hval
  obtain ⟨hhead, hnext2, hnext1, htask1, htask2⟩ := hval
  have hrun : TimerRun s := by
    have hsteps := hs
    simp only [twoTasks, Option.bind_eq_bind, Option.bind_eq_some_iff] at hsteps
    obtain ⟨s₁, h₁, s₂, h₂, s₃, h₃, h₄⟩ := hsteps
    have hlive : s₁.live = {1} := by
      have hlive₁ : ((TimerState.reset (fun _ => 1) fun _ => ⟨0, ⟨0, 0⟩⟩).insTime 1 ⟨0, 0⟩
          0x1000 0).map (·.live) = some {1} := by decide +kernel
      rw [h₁] at hlive₁
      exact Option.some.inj hlive₁
    have hrun₁ := (TimerRun.reset (fun _ => 1) fun _ => ⟨0, ⟨0, 0⟩⟩).call
      (.insTime 1 ⟨0, 0⟩ 0x1000 0) (Finset.notMem_empty 1) h₁
    have hrun₂ := hrun₁.call (.insTime 2 ⟨0, 0⟩ 0x2000 0) (by simp [TimerCall.Possible, hlive]) h₂
    have hrun₃ := hrun₂.call (.primeTime ⟨100, 0⟩ 0x1000 0) trivial h₃
    exact hrun₃.call (.primeTime ⟨100, 0⟩ 0x2000 0) trivial h₄
  obtain ⟨ds, hds⟩ := hrun.listed
  have hwalk : Walk s.next s.tmDescList [2, 1] := by
    rw [hhead]
    refine .cons ?_
    rw [hnext2]
    refine .cons ?_
    rw [hnext1]
    exact .nil
  obtain rfl := hds.walk.unique hwalk
  exact ⟨s, hs, hrun, hds, htask1, htask2⟩

/-- Procedures that only return. -/
theorem guarded_of_no_call (i : State) (acts : List Act) (h : ∀ a ∈ acts, a = .go ∨ a = .ret) :
    Guarded (step now) (Guard s₀ now) i acts := by
  induction acts generalizing i with
  | nil => trivial
  | cons a acts ih =>
    refine ⟨?_, ?_⟩
    · rcases h a (List.mem_cons_self ..) with rfl | rfl <;> exact ⟨trivial, trivial⟩
    · split
      · exact ih _ fun b hb => h b (List.mem_cons_of_mem a hb)
      · trivial

/-- The procedure of the second task removes the first one. -/
theorem removed_next_visited : ∃ s i, TimerRun s ∧
    Reaches (step ⟨101, 0⟩) Possible (start s) i ∧ ¬ Good s ⟨101, 0⟩ i := by
  obtain ⟨s, hs, hrun, hlisted, htask, -⟩ := twoTasks_spec
  have hvalue : (twoTasks.bind fun s => step ⟨101, 0⟩ (start s) .go).map
      (fun i => (i.point, i.timer.findDesc 0x1000)) =
      some (.procedure 0x2000 (some 1), some (some 1)) := by decide +kernel
  rw [hs, Option.bind_some] at hvalue
  obtain ⟨i, hi, hval⟩ := Option.map_eq_some_iff.mp hvalue
  simp only [Prod.mk.injEq] at hval
  obtain ⟨as, bs, hat⟩ := (start_at hlisted).step (a := .go) ⟨trivial, trivial⟩ hi
  obtain ⟨i₁, i₂, hcall, hret, hloop, hgone⟩ :=
    freed_visited hat ⟨101, 0⟩ hval.1 hval.2
  have hreach : Reaches (step ⟨101, 0⟩) Possible (start s) i₁ :=
    (Reaches.start.next (a := .go) trivial hi).next (a := .call (.rmvTime ⟨101, 0⟩ 0x1000)) trivial hcall
  exact ⟨s, i₂, hrun, hreach.next (a := .ret) trivial hret, fun hgood => hgone (hgood.listed 1 hloop)⟩

/-- The procedure of the second task removes that task itself. -/
theorem removed_itself_good : ∃ s i, TimerRun s ∧ i.point = .done ∧ Good s ⟨101, 0⟩ i := by
  obtain ⟨s, hs, hrun, hlisted, htask1, htask2⟩ := twoTasks_spec
  have hfirst : (twoTasks.bind fun s => step ⟨101, 0⟩ (start s) .go).map
      (fun i => (i.point, i.timer.findDesc 0x2000,
        (i.timer.rmvTime ⟨101, 0⟩ 0x2000).map fun s => decide (Active s.mem 0x1000))) =
      some (.procedure 0x2000 (some 1), some (some 2), some true) := by decide +kernel
  have hrest : (twoTasks.bind fun s => run (step ⟨101, 0⟩) (start s)
      [.go, .call (.rmvTime ⟨101, 0⟩ 0x2000), .ret, .go, .ret, .go]).map (·.point) =
      some .done := by decide +kernel
  rw [hs, Option.bind_some] at hfirst hrest
  obtain ⟨i, hi, hval⟩ := Option.map_eq_some_iff.mp hfirst
  simp only [Prod.mk.injEq] at hval
  obtain ⟨hpoint, hfind, hkeep⟩ := hval
  obtain ⟨i', hi', hdone⟩ := Option.map_eq_some_iff.mp hrest
  have hcall : Guard s ⟨101, 0⟩ i (.call (.rmvTime ⟨101, 0⟩ 0x2000)) := by
    refine ⟨trivial, fun tm d hd hfrees => ?_, fun tm htm _ htouch s' hs' => ?_⟩
    · rw [hpoint] at hd
      cases hd
      rw [Frees, hfind] at hfrees
      simp at hfrees
    · obtain ⟨d, hd, -⟩ := htm
      obtain ⟨hmem, htask⟩ := hlisted.mem_of_findDesc hd
      have htm : tm = 0x1000 := by
        simp only [List.mem_cons, List.not_mem_nil, or_false] at hmem
        rcases hmem with rfl | rfl
        · exact absurd (htask2.symm.trans htask) fun heq => htouch (congrArg some heq)
        · exact htask.symm.trans htask1
      rw [TimerCall.exec] at hs'
      rw [hs'] at hkeep
      rw [htm]
      simpa using hkeep
  refine ⟨s, i', hrun, hdone, (interrupt_good hrun (Reaches.start.run_append hi' ?_)).1⟩
  rw [Guarded, hi]
  refine ⟨⟨trivial, trivial⟩, hcall, ?_⟩
  split
  · exact guarded_of_no_call _ _ (by simp)
  · trivial

end Interrupt

end SheepShear.Timer
