import SheepShear.Glue.Frame

/-!
# Invariants of runs

A property of the log and of the flag of the interrupt path that every event
keeps holds wherever a run of guest code gets to, whether it returns or stops at
an assertion. The frame of `EMUL_OP` instructions at any depth follows.
-/

namespace SheepShear.Glue

/-- A property of `processing_interrupt` and the log that the events keep. -/
structure LogInvariant (I : Bool → List Event → Prop) : Prop where
  emulOp : ∀ {p log before after r calls}, I p log → (Event.emulOp before after r calls).Framed →
    I p (log ++ [.emulOp before after r calls])
  enter : ∀ {log}, I false log → I true (log ++ [.enterInterrupt])
  leave : ∀ {log}, I true log → I false (log ++ [.leaveInterrupt])

def Machine.Has (m : Machine) (I : Bool → List Event → Prop) : Prop := I m.processingInterrupt m.log

/-- The machine a computation has got to has the invariant; when it returns, the flag is `p`. -/
def Safe (I : Bool → List Event → Prop) (p : Bool) (machine : α → Machine) : Run α → Prop
  | .error e => e.Has I
  | .ok a => (machine a).Has I ∧ (machine a).processingInterrupt = p

/-- A nested `execute` keeps the invariant and the flag. -/
def Execute.Keeps (run : Execute) (I : Bool → List Event → Prop) : Prop :=
  ∀ m, m.Has I → Safe I m.processingInterrupt id (run m)

section
variable {I : Bool → List Event → Prop} {run : Execute} {m : Machine}

/-- One computation after another. -/
theorem Safe.bind {p p' : Bool} {machine : α → Machine} {machine' : β → Machine} {x : Run α}
    {f : α → Run β} (hx : Safe I p machine x)
    (hf : ∀ a, (machine a).Has I → (machine a).processingInterrupt = p → Safe I p' machine' (f a)) :
    Safe I p' machine' (x >>= f) := by
  cases x with
  | error e => exact hx
  | ok a => exact hf a hx.1 hx.2

theorem reserve_safe (size : Word) (h : m.Has I) :
    Safe I m.processingInterrupt Prod.snd (reserve size m) := by
  unfold reserve
  dsimp only
  split_ifs
  · exact ⟨h, rfl⟩
  · exact h

theorem reserveProc_safe (size : Word) (h : m.Has I) :
    Safe I m.processingInterrupt Prod.snd (reserveProc size m) := by
  unfold reserveProc
  dsimp only
  split_ifs
  · exact ⟨h, rfl⟩
  · exact h

theorem trampoline_safe (h : m.Has I) : Safe I m.processingInterrupt Prod.snd (trampoline m) := by
  refine (reserve_safe 4 h).bind ?_
  rintro ⟨addr, m'⟩ hm' hp
  exact ⟨hm', hp⟩

theorem execute68k_safe (hrun : run.Keeps I) (entry : Word) (r : M68kRegisters) (h : m.Has I) :
    Safe I m.processingInterrupt (fun x => x.2.2) (execute68k run entry r m) := by
  refine (hrun { m with mac := enter68k entry r m.mac } h).bind ?_
  rintro m' hm' hp
  exact ⟨hm', hp⟩

theorem executeMacosCode_safe (hrun : run.Keeps I) (tvect : Word) (args : Args) (h : m.Has I) :
    Safe I m.processingInterrupt (fun x => x.2.2) (executeMacosCode run tvect args m) := by
  refine (trampoline_safe h).bind ?_
  rintro ⟨addr, m₁⟩ hm₁ hp
  refine (hrun { m₁ with mac := enterMacosCode addr tvect args m₁.mac } hm₁).bind ?_
  rintro m' hm' hp'
  exact ⟨hm', hp'.trans hp⟩

theorem interrupt_safe (cfg : Config) (hrun : run.Keeps I) (entry : Word) (h : m.Has I) :
    Safe I m.processingInterrupt id (interrupt cfg run entry m) := by
  refine (trampoline_safe h).bind ?_
  rintro ⟨addr, m₁⟩ hm₁ hp
  have hassert : Safe I m₁.processingInterrupt (fun _ => m₁)
      (assert ((enterInterrupt cfg m₁.mac).regs.gpr 6 ≠ 0)
        { m₁ with mac := enterInterrupt cfg m₁.mac }) := by
    unfold assert
    split_ifs
    · exact ⟨hm₁, rfl⟩
    · exact hm₁
  refine hassert.bind ?_
  rintro ⟨⟩ - -
  refine (hrun { m₁ with
    mac := enterNanokernel entry addr (enterInterrupt cfg m₁.mac) } hm₁).bind ?_
  rintro m' hm' hp'
  exact ⟨hm', hp'.trans hp⟩

theorem buildProcedure_safe (h : m.Has I) :
    Safe I m.processingInterrupt id (buildProcedure m) := by
  unfold buildProcedure
  split_ifs
  · refine (reserveProc_safe _ h).bind ?_
    rintro ⟨addr, m'⟩ hm' hp
    exact ⟨hm', hp⟩
  · exact ⟨h, rfl⟩

theorem handleEmulOp_safe (hrun : run.Keeps I) (r : M68kRegisters) (h : m.Has I) :
    Safe I m.processingInterrupt id (handleEmulOp run r m) := by
  unfold handleEmulOp
  refine Safe.bind (buildProcedure_safe ?_) ?_
  · exact h
  rintro m₁ hm₁ hp
  refine (execute68k_safe hrun m₁.irqProc r hm₁).bind ?_
  rintro ⟨r', call, m'⟩ hm' hp'
  exact ⟨hm', hp'.trans hp⟩

theorem handleInterrupt_safe (cfg : Config) (hrun : run.Keeps I) (locals : Locals) (r : Registers)
    (h : m.Has I) :
    Safe I m.processingInterrupt Prod.snd (handleInterrupt cfg run locals r m) := by
  unfold handleInterrupt
  split_ifs
  · exact ⟨h, rfl⟩
  · exact ⟨h, rfl⟩
  · unfold handleNative
    refine Safe.bind (interrupt_safe cfg hrun _ ?_) ?_
    · exact h
    · rintro m' hm' hp
      exact ⟨hm', hp⟩
  · exact ⟨h, rfl⟩
  · refine (handleEmulOp_safe hrun _ h).bind ?_
    rintro m' hm' hp
    exact ⟨hm', hp⟩
  · exact ⟨h, rfl⟩
  · exact ⟨h, rfl⟩

/-- The flag keeps a nested check from entering a second time. -/
theorem processInterrupt_safe (hI : LogInvariant I) (cfg : Config) (hrun : run.Keeps I)
    (locals : Locals) (h : m.Has I) :
    Safe I m.processingInterrupt id (processInterrupt cfg run locals m) := by
  unfold processInterrupt
  dsimp only
  split_ifs with hprocessing
  · exact ⟨h, rfl⟩
  · have hp : m.processingInterrupt = false := by simpa using hprocessing
    rw [Machine.Has, hp] at h
    refine (handleInterrupt_safe cfg hrun locals _ (m := Machine.record { m with
      mac := _, processingInterrupt := true } .enterInterrupt) (hI.enter h)).bind ?_
    rintro ⟨r, m'⟩ hm' hp'
    refine ⟨?_, hp.symm⟩
    dsimp only [Machine.Has, Machine.record] at hm' hp'
    rw [hp'] at hm'
    exact hI.leave hm'

theorem checkSpcflags_safe (hI : LogInvariant I) (cfg : Config) (hrun : run.Keeps I)
    (locals : Locals) (h : m.Has I) :
    Safe I m.processingInterrupt Prod.snd (checkSpcflags cfg run locals m) := by
  have hpending : Safe I m.processingInterrupt id (handlePending cfg run locals m) := by
    unfold handlePending
    split_ifs
    · exact processInterrupt_safe hI cfg hrun locals h
    · exact ⟨h, rfl⟩
  unfold checkSpcflags
  split_ifs
  · exact ⟨h, rfl⟩
  · refine hpending.bind ?_
    rintro m' hm' hp
    exact ⟨hm', hp⟩

theorem executeEmulOp_safe (hI : LogInvariant I) (cfg : Config)
    {routine : M68kRegisters → Word → Host} (h : m.Has I)
    (hhost : ∀ r pc (m : Machine), m.Has I →
      Safe I m.processingInterrupt Finished.machine ((routine r pc).run cfg m)) :
    Safe I m.processingInterrupt id (executeEmulOp (fun r pc m => (routine r pc).run cfg m) m) := by
  let m₁ : Machine := { m with mac := enterEmulOp m.mac }
  let host := routine (emulOpRegisters m₁.mac.regs.gpr) (m₁.mac.regs.gpr 24)
  have hsafe : Safe I m.processingInterrupt Finished.machine (host.run cfg m₁) := hhost _ _ m₁ h
  change Safe I m.processingInterrupt id (host.run cfg m₁ >>= _)
  -- The event is framed because it was this routine that made the calls.
  cases hrun : host.run cfg m₁ with
  | error e =>
    rw [hrun] at hsafe
    exact hsafe
  | ok f =>
    rw [hrun] at hsafe
    obtain ⟨hf, hp⟩ := hsafe
    exact ⟨hI.emulOp hf (emulOp_framed hrun), hp⟩

end

-- ---------------------------------------------------------------------------
-- Runs
-- ---------------------------------------------------------------------------

mutual

theorem Guest.run_safe {I : Bool → List Event → Prop} (hI : LogInvariant I) (cfg : Config) :
    (guest : Guest) → Execute.Keeps (guest.run cfg) I
  | .execReturn => fun m h => by
    rw [Guest.run]
    exact ⟨h, rfl⟩
  | .step f next => fun m h => by
    rw [Guest.run]
    exact Guest.run_safe hI cfg (next (f m.mac)) { m with mac := f m.mac } h
  | .emulOp routine next => fun m h => by
    rw [Guest.run]
    refine (executeEmulOp_safe hI cfg h fun r pc => Host.run_safe hI cfg (routine r pc)).bind ?_
    rintro m' hm' hp
    have hnext := Guest.run_safe hI cfg (next (nextInstruction m').mac) (nextInstruction m') hm'
    rwa [show (nextInstruction m').processingInterrupt = m.processingInterrupt from hp] at hnext
  | .checkSpcflags locals routine next => fun m h => by
    rw [Guest.run]
    refine (checkSpcflags_safe hI cfg (Guest.run_safe hI cfg routine) locals h).bind ?_
    rintro ⟨continues, m'⟩ hm' hp
    cases continues with
    | false => exact ⟨hm', hp⟩
    | true =>
      have hnext := Guest.run_safe hI cfg (next m'.mac) m' hm'
      rwa [hp] at hnext

theorem Host.run_safe {I : Bool → List Event → Prop} (hI : LogInvariant I) (cfg : Config) :
    (host : Host) → (m : Machine) → m.Has I →
      Safe I m.processingInterrupt Finished.machine (host.run cfg m)
  | .ret r, m, h => by
    rw [Host.run]
    exact ⟨h, rfl⟩
  | .work mem spcflags next, m, h => by
    rw [Host.run]
    exact Host.run_safe hI cfg (next _) { m with mac := _ } h
  | .execute68k entry r routine next, m, h => by
    rw [Host.run]
    refine (execute68k_safe (Guest.run_safe hI cfg routine) entry r h).bind ?_
    rintro ⟨r', call, m'⟩ hm' hp
    refine (Host.run_safe hI cfg (next r' m'.mac) m' hm').bind ?_
    rintro f hf hp'
    exact ⟨hf, hp'.trans hp⟩
  | .executeMacosCode tvect args routine next, m, h => by
    rw [Host.run]
    refine (executeMacosCode_safe (Guest.run_safe hI cfg routine) tvect args h).bind ?_
    rintro ⟨value, call, m'⟩ hm' hp
    refine (Host.run_safe hI cfg (next value m'.mac) m' hm').bind ?_
    rintro f hf hp'
    exact ⟨hf, hp'.trans hp⟩

end

/-- The machine a run has got to, returned or not. -/
def reached : Run Machine → Machine
  | .error e => e
  | .ok m => m

@[simp] theorem execReturn_regs (m : Machine) : (execReturn m).mac.regs = m.mac.regs := rfl

theorem reached_has {I : Bool → List Event → Prop} (hI : LogInvariant I) (cfg : Config)
    (guest : Guest) {m : Machine} (h : m.Has I) : (reached (guest.run cfg m)).Has I := by
  have hsafe := Guest.run_safe hI cfg guest m h
  cases hrun : guest.run cfg m with
  | error e =>
    rw [hrun] at hsafe
    exact hsafe
  | ok m' =>
    rw [hrun] at hsafe
    exact hsafe.1

theorem framed_invariant : LogInvariant fun _ log => ∀ e ∈ log, e.Framed := by
  refine ⟨?_, ?_, ?_⟩
  · intro p log before after r calls hlog hframed
    exact List.forall_mem_append.mpr ⟨hlog, by simpa using hframed⟩
  · intro log hlog
    exact List.forall_mem_append.mpr ⟨hlog, by simp [Event.Framed]⟩
  · intro log hlog
    exact List.forall_mem_append.mpr ⟨hlog, by simp [Event.Framed]⟩

/-- Every `EMUL_OP` of every run keeps its frame when its calls are balanced, and each call keeps
its own. `execute_68k` does not save `r2`: it is kept when the 68k routines keep it. -/
theorem emulOps_framed (cfg : Config) (guest : Guest) (m : Machine) {before after : MacState}
    {r : M68kRegisters} {calls : List Call}
    (hevent : .emulOp before after r calls ∈ (reached (guest.run cfg { m with log := [] })).log)
    (hbalanced : ∀ c ∈ calls, c.Balanced) :
    EmulOpFrame before after r ∧ (∀ c ∈ calls, c.Framed) ∧
      ((∀ c ∈ calls, c.LeavesR2) → after.regs.gpr 2 = before.regs.gpr 2) := by
  have hlog : (reached (guest.run cfg { m with log := [] })).Has fun _ log => ∀ e ∈ log, e.Framed :=
    reached_has framed_invariant cfg guest (by simp [Machine.Has])
  exact hlog _ hevent hbalanced

/-- A machine before anything has run. -/
def Machine.start : Machine where
  mac :=
    { regs :=
        { gpr := fun _ => 0, fpr := fun _ => 0, vr := fun _ => 0, cr := 0,
          xer := ⟨⟨false, false, false, 0⟩, by decide⟩, vrsave := 0, fpscr := 0, lr := 0, ctr := 0,
          pc := 0 }
      spcflags := 0
      mem := fun _ => 0 }
  sheep := ⟨0x80000, 0⟩
  irqProc := 0
  processingInterrupt := false
  log := []

def Config.rom : Config := ⟨0x40800000, true, 0x10000⟩

/-- A 68k routine that pops its return address and leaves `v` in `r2`. -/
def popReturn (v : Word) : Guest :=
  .step (fun s => { s with regs := { s.regs with
      gpr := Function.update (Function.update s.regs.gpr 1 (s.regs.gpr 1 + 4)) 2 v } })
    fun _ => .execReturn

/-- One `EMUL_OP` that calls it. -/
def callRoutine (v : Word) : Guest :=
  .emulOp (fun r _ => .execute68k 0x1000 r (popReturn v) fun r' _ => .ret r') fun _ => .execReturn

theorem callRoutine_framed : ∃ before after r calls,
    .emulOp before after r calls ∈ (reached ((callRoutine 0).run .rom .start)).log ∧
    EmulOpFrame before after r ∧ after.regs.gpr 2 = before.regs.gpr 2 := by
  refine ⟨_, _, _, _, List.mem_singleton.mpr rfl, ?_⟩
  obtain ⟨hframe, -, hr2⟩ := emulOps_framed .rom (callRoutine 0) .start
    (List.mem_singleton.mpr rfl) (by simp [Call.Balanced])
  exact ⟨hframe, hr2 (by simp [Call.LeavesR2, enter68k_gpr_two, Machine.start, enterEmulOp])⟩

theorem callRoutine_changes_r2 : ∃ before after r calls,
    .emulOp before after r calls ∈ (reached ((callRoutine 1).run .rom .start)).log ∧
    (∀ c ∈ calls, c.Balanced) ∧ after.regs.gpr 2 ≠ before.regs.gpr 2 := by
  refine ⟨_, _, _, _, List.mem_singleton.mpr rfl, ?_, ?_⟩
  · simp [Call.Balanced]
  · decide

end SheepShear.Glue
