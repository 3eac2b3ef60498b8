import SheepShear.Timer.TimeManager

/-!
# The descriptors of the installed tasks

The list holds one descriptor for each installed task and nothing else that is
allocated, after any calls of the Time Manager and whatever the Mac stores
between them. Every call returns.
-/

namespace SheepShear.Timer

open IntrusiveList

/-- The descriptors that the list leads to. -/
structure Listed (s : TimerState) (ds : List DescPtr) : Prop where
  walk : Walk s.next s.tmDescList ds
  live : s.live = ds.toFinset
  tasks : (ds.map fun d => (s.desc d).task).Nodup

/-- What `RmvTime` leaves in memory, by the wake-up time of the task. -/
def rmvMem (m : Mem) (current : TmTime) (tm : Word) (wakeup : TmTime) : Mem :=
  if Active m tm then
    (m.writeInt16 (qType tm) (m.readInt16 (qType tm) &&& 0x7fff#16)).writeInt32 (tmCount tm)
      (timerHost2MacTime (timerSubTime wakeup current))
  else
    m.writeInt32 (tmCount tm) 0

namespace Listed

variable {s : TimerState} {ds : List DescPtr}

theorem reset (mem : Mem) (desc : DescPtr → TMDesc) : Listed (.reset mem desc) [] :=
  ⟨.nil, rfl, List.nodup_nil⟩

theorem length_le_fuel (h : Listed s ds) : ds.length ≤ s.fuel := by
  rw [TimerState.fuel, h.live, List.toFinset_card_of_nodup h.walk.nodup]

/-- The list does not depend on guest memory. -/
theorem withMem (h : Listed s ds) (mem : Mem) : Listed { s with mem := mem } ds :=
  ⟨h.walk, h.live, h.tasks⟩

theorem setWakeup (h : Listed s ds) (d : DescPtr) (wakeup : TmTime) :
    Listed (s.setWakeup d wakeup) ds := by
  refine ⟨h.walk, h.live, ?_⟩
  have hsame : (ds.map fun x => ((s.setWakeup d wakeup).desc x).task) =
      ds.map fun x => (s.desc x).task := by
    refine List.map_congr_left fun x _ => ?_
    simp only [TimerState.setWakeup, Function.update_apply]
    split
    · next hx => rw [hx]
    · rfl
  rw [hsame]
  exact h.tasks

theorem push (h : Listed s ds) {p : DescPtr} (hp : p ∉ s.live) (desc : TMDesc)
    (htask : ∀ d ∈ ds, (s.desc d).task ≠ desc.task) : Listed (s.push p desc) (p :: ds) := by
  have hpds : p ∉ ds := by rwa [h.live, List.mem_toFinset] at hp
  have hne : ∀ d ∈ ds, d ≠ p := fun d hd => ne_of_mem_of_not_mem hd hpds
  have hsame : (ds.map fun d => ((s.push p desc).desc d).task) = ds.map fun d => (s.desc d).task := by
    refine List.map_congr_left fun d hd => ?_
    simp only [TimerState.push, Function.update_of_ne (hne d hd)]
  refine ⟨.cons ?_, ?_, ?_⟩
  · simp only [TimerState.push, Function.update_self]
    exact h.walk.congr fun d hd => Function.update_of_ne (hne d hd) ..
  · rw [List.toFinset_cons, ← h.live]
    rfl
  · rw [List.map_cons, hsame]
    simp only [TimerState.push, Function.update_self]
    refine List.nodup_cons.mpr ⟨fun hmem => ?_, h.tasks⟩
    obtain ⟨d, hd, heq⟩ := List.mem_map.mp hmem
    exact htask d hd heq

theorem findDesc_eq (h : Listed s ds) (tm : Word) :
    s.findDesc tm = some (ds.find? fun d => (s.desc d).task = tm) :=
  h.walk.searchNodes_eq _ h.length_le_fuel

theorem mem_of_findDesc (h : Listed s ds) {tm : Word} {d : DescPtr}
    (hfind : s.findDesc tm = some (some d)) : d ∈ ds ∧ (s.desc d).task = tm := by
  rw [h.findDesc_eq] at hfind
  have hd := Option.some.inj hfind
  exact ⟨List.mem_of_find?_eq_some hd, by simpa using List.find?_some hd⟩

/-- One descriptor for each task. -/
theorem task_inj (h : Listed s ds) {d d' : DescPtr} (hd : d ∈ ds) (hd' : d' ∈ ds)
    (htask : (s.desc d).task = (s.desc d').task) : d = d' :=
  List.inj_on_of_nodup_map h.tasks hd hd' htask

theorem setWakeupTime (h : Listed s ds) :
    ∃ w, s.setWakeupTime = some { s with wakeupTime := w } := by
  rw [TimerState.setWakeupTime, h.walk.foldNodes_eq _ _ h.length_le_fuel]
  exact ⟨_, rfl⟩

theorem freeDesc (h : Listed s ds) {d : DescPtr} (hd : d ∈ ds) :
    ∃ s', s.freeDesc d = some s' ∧ Listed s' (ds.erase d) ∧ s'.mem = s.mem ∧ s'.desc = s.desc ∧
      s'.live = s.live.erase d := by
  have hnodup := h.walk.nodup
  have hlive : s.live.erase d = (ds.erase d).toFinset := by
    ext x
    rw [h.live, Finset.mem_erase, List.mem_toFinset, List.mem_toFinset, hnodup.mem_erase_iff]
  have htasks : ((ds.erase d).map fun x => (s.desc x).task).Nodup :=
    h.tasks.sublist (List.erase_sublist.map _)
  unfold TimerState.freeDesc
  by_cases hfirst : s.tmDescList = some d
  · rw [if_pos hfirst]
    refine ⟨_, rfl, ⟨?_, hlive, htasks⟩, rfl, rfl, rfl⟩
    obtain ⟨xs, rfl⟩ : ∃ xs, ds = d :: xs :=
      List.head?_eq_some_iff.mp (h.walk.head_eq.symm.trans hfirst)
    rw [List.erase_cons_head]
    exact h.walk.tail
  · rw [if_neg hfirst, h.walk.searchNodes_eq _ h.length_le_fuel]
    -- the descriptor in front of it
    obtain ⟨as, bs, rfl⟩ := List.append_of_mem hd
    obtain ⟨as, x, rfl⟩ : ∃ as' x, as = as' ++ [x] := by
      rcases List.eq_nil_or_concat as with rfl | ⟨as', x, rfl⟩
      · exact absurd h.walk.head_eq hfirst
      · exact ⟨as', x, List.concat_eq_append⟩
    rw [List.append_assoc, List.singleton_append] at h hnodup hlive htasks ⊢
    rw [h.walk.find_before]
    refine ⟨_, rfl, ⟨?_, hlive, htasks⟩, rfl, rfl, rfl⟩
    have hcut : (as ++ x :: d :: bs).erase d = as ++ x :: bs := by
      obtain ⟨-, hrest, hdisjoint⟩ := List.nodup_append.mp hnodup
      have hdx : x ≠ d := by
        rintro rfl
        simp at hrest
      have hdas : d ∉ as := fun hmem => hdisjoint d hmem d (by simp) rfl
      rw [List.erase_append_right _ hdas, List.erase_cons_tail (by simpa using hdx), List.erase_cons_head]
    rw [hcut]
    exact h.walk.cut

-- ---------------------------------------------------------------------------
-- The calls
-- ---------------------------------------------------------------------------

theorem insTime_new (h : Listed s ds) {p : DescPtr} (hp : p ∉ s.live) {tm : Word}
    (hnone : s.findDesc tm = some none) (junk : TmTime) (trap : BitVec 16) :
    ∃ s', s.insTime p junk tm trap = some s' ∧ Listed s' (p :: ds) ∧ s'.desc p = ⟨tm, junk⟩ ∧
      s'.mem = s.mem.writeInt16 (qType tm) (insType s.mem tm trap) := by
  have hfind : ({ s with mem := s.mem.writeInt16 (qType tm) (insType s.mem tm trap) } :
      TimerState).findDesc tm = some none := hnone
  have htask : ∀ d ∈ ds, (s.desc d).task ≠ tm := by
    rw [h.findDesc_eq] at hnone
    intro d hd
    simpa using List.find?_eq_none.mp (Option.some.inj hnone) d hd
  rw [TimerState.insTime, hfind]
  have hlist := (h.withMem (s.mem.writeInt16 (qType tm) (insType s.mem tm trap))).push hp ⟨tm, junk⟩ htask
  exact ⟨_, rfl, hlist, Function.update_self .., rfl⟩

theorem insTime_again {s : TimerState} {tm : Word} {d : DescPtr}
    (hfind : s.findDesc tm = some (some d)) (p : DescPtr) (junk : TmTime) (trap : BitVec 16) :
    s.insTime p junk tm trap =
      some { s with mem := s.mem.writeInt16 (qType tm) (insType s.mem tm trap) } := by
  have hfind' : ({ s with mem := s.mem.writeInt16 (qType tm) (insType s.mem tm trap) } :
      TimerState).findDesc tm = some (some d) := hfind
  rw [TimerState.insTime, hfind']
  rfl

theorem rmvTime_some (h : Listed s ds) {tm : Word} {d : DescPtr}
    (hfind : s.findDesc tm = some (some d)) (current : TmTime) :
    ∃ s', s.rmvTime current tm = some s' ∧ Listed s' (ds.erase d) ∧ s'.live = s.live.erase d ∧
      s'.desc = s.desc ∧ s'.mem = rmvMem s.mem current tm (s.desc d).wakeup := by
  obtain ⟨hd, -⟩ := h.mem_of_findDesc hfind
  rw [TimerState.rmvTime, hfind]
  simp only [Option.bind_eq_bind, Option.bind_some, rmvMem]
  split
  · obtain ⟨w, hw⟩ := (h.withMem (s.mem.writeInt16 (qType tm)
      (s.mem.readInt16 (qType tm) &&& 0x7fff#16))).setWakeupTime
    have hstored (m : Mem) : Listed { s with mem := m, wakeupTime := w } ds :=
      ⟨h.walk, h.live, h.tasks⟩
    obtain ⟨s', hs', hlist, hmem, hdesc, hlive⟩ := (hstored _).freeDesc hd
    rw [hw, Option.bind_some]
    exact ⟨s', hs', hlist, hlive, hdesc, hmem⟩
  · obtain ⟨s', hs', hlist, hmem, hdesc, hlive⟩ := (h.withMem _).freeDesc hd
    exact ⟨s', hs', hlist, hlive, hdesc, hmem⟩

theorem primeTime_some (h : Listed s ds) {tm : Word} {d : DescPtr}
    (hfind : s.findDesc tm = some (some d)) (now : TmTime) (time : Word) :
    ∃ (s' : TimerState) (m : Mem), s.primeTime now tm time = some s' ∧ Listed s' ds ∧
      s'.desc d = ⟨tm, TimerState.primedWakeup now tm time (s.desc d) s.mem⟩ ∧
      s'.mem = m.writeInt16 (qType tm) (m.readInt16 (qType tm) ||| 0x8000#16) := by
  obtain ⟨-, htask⟩ := h.mem_of_findDesc hfind
  rw [TimerState.primeTime, hfind]
  simp only [Option.bind_eq_bind, Option.bind_some]
  obtain ⟨w, hw⟩ := ((h.setWakeup d
    (TimerState.primedWakeup now tm time (s.desc d) s.mem)).withMem _).setWakeupTime
  refine ⟨_, _, hw, ⟨h.walk, h.live, (h.setWakeup d _).tasks⟩, ?_, rfl⟩
  simp only [TimerState.setWakeup, Function.update_self, htask]

/-- A call returns and leaves a list of the installed tasks. -/
theorem exec (h : Listed s ds) (c : TimerCall) (hc : c.Possible s) :
    ∃ s' ds', c.exec s = some s' ∧ Listed s' ds' := by
  have hcases (tm : Word) : s.findDesc tm = some none ∨ ∃ d, s.findDesc tm = some (some d) := by
    rw [h.findDesc_eq]
    cases ds.find? fun d => (s.desc d).task = tm with
    | none => exact .inl rfl
    | some d => exact .inr ⟨d, rfl⟩
  cases c with
  | insTime p junk tm trap =>
    rcases hcases tm with hnone | ⟨d, hfind⟩
    · obtain ⟨s', hs', hlist, -⟩ := h.insTime_new hc hnone junk trap
      exact ⟨s', _, hs', hlist⟩
    · exact ⟨_, ds, insTime_again hfind p junk trap, h.withMem _⟩
  | rmvTime current tm =>
    rcases hcases tm with hnone | ⟨d, hfind⟩
    · refine ⟨s, ds, ?_, h⟩
      rw [TimerCall.exec, TimerState.rmvTime, hnone]
      rfl
    · obtain ⟨s', hs', hlist, -⟩ := h.rmvTime_some hfind current
      exact ⟨s', _, hs', hlist⟩
  | primeTime now tm time =>
    rcases hcases tm with hnone | ⟨d, hfind⟩
    · refine ⟨s, ds, ?_, h⟩
      rw [TimerCall.exec, TimerState.primeTime, hnone]
      rfl
    · obtain ⟨s', -, hs', hlist, -⟩ := h.primeTime_some hfind now time
      exact ⟨s', _, hs', hlist⟩
  | mac mem => exact ⟨_, ds, rfl, h.withMem mem⟩

end Listed

theorem TimerRun.listed {s : TimerState} (h : TimerRun s) : ∃ ds, Listed s ds := by
  induction h with
  | reset mem desc => exact ⟨[], .reset mem desc⟩
  | call c _ hc hexec ih =>
    obtain ⟨ds, hds⟩ := ih
    obtain ⟨s', ds', hs', hlist⟩ := hds.exec c hc
    obtain rfl := Option.some.inj (hexec.symm.trans hs')
    exact ⟨ds', hlist⟩

end SheepShear.Timer
