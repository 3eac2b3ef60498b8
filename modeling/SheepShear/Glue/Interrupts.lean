import SheepShear.Glue.Runs
import SheepShear.Lib.Words

/-!
# Interrupts are transparent

`check_spcflags` works on a copy of the registers, which covers the vector
registers marked in `VRSAVE`, and puts the copy back; whatever the guest routine
does in between is undone. Only the condition register of the copy is ever
changed.
-/

namespace SheepShear.Glue

-- ---------------------------------------------------------------------------
-- The copy
-- ---------------------------------------------------------------------------

/-- The loop copies register `k` when its bit has come to the end of the mask. -/
theorem copyVr_apply (iregs : Fin 32 → BitVec 128) {n : Nat} (hn : n ≤ 32) (vrsave : Word)
    (vr : Fin 32 → BitVec 128) (k : Fin 32) :
    copyVr iregs n vrsave vr k =
      if k.val < n ∧ vrsave.getLsbD (n - 1 - k.val) then iregs k else vr k := by
  induction n generalizing vrsave vr with
  | zero => simp [copyVr]
  | succ n ih =>
    have hbit : vrsave &&& 1 ≠ 0 ↔ vrsave.getLsbD 0 = true :=
      Word.and_twoPow_ne_zero (i := 0) (by decide)
    have hval : (Fin.ofNat 32 n).val = n := Nat.mod_eq_of_lt (by omega)
    simp only [copyVr, ih (Nat.le_of_succ_le hn), BitVec.getLsbD_ushiftRight, hbit]
    obtain rfl | hne := eq_or_ne k (Fin.ofNat 32 n)
    · simp only [hval, lt_irrefl, false_and, if_false, Nat.lt_succ_self, true_and,
        Nat.add_sub_cancel, Nat.sub_self]
      split_ifs
      · exact Function.update_self ..
      · rfl
    · have hvr : (if vrsave.getLsbD 0 = true then
          Function.update vr (Fin.ofNat 32 n) (iregs (Fin.ofNat 32 n)) else vr) k = vr k := by
        split_ifs
        · exact Function.update_of_ne hne _ _
        · rfl
      have hneval : k.val ≠ n := by
        rintro rfl
        exact hne (Fin.ext hval.symm)
      have hindex : k.val < n → 1 + (n - 1 - k.val) = n + 1 - 1 - k.val := by omega
      have hlt : k.val < n + 1 ↔ k.val < n := by omega
      rw [hvr]
      by_cases hk : k.val < n
      · simp only [hlt, hk, true_and, hindex hk]
      · simp only [hlt, hk, false_and]

theorem interruptCopy_vr (oregs iregs : Registers) {k : Fin 32}
    (h : iregs.vrsave.getMsbD k.val = true) : (interruptCopy oregs iregs).vr k = iregs.vr k := by
  have hlsb : iregs.vrsave.getLsbD (32 - 1 - k.val) = true := by
    simpa [BitVec.getMsbD, k.isLt] using h
  have hne : iregs.vrsave ≠ 0 := by
    intro h0
    simp [h0] at hlsb
  simp only [interruptCopy, hne, ne_eq, not_false_eq_true, if_true]
  rw [copyVr_apply iregs.vr le_rfl, if_pos ⟨k.isLt, hlsb⟩]

/-- A copy of a copy has the marked registers of the first one. -/
theorem interruptCopy_copy_vr (old : Registers) {oregs copy iregs : Registers}
    (hvr : copy.vr = (interruptCopy old iregs).vr) (hvrsave : copy.vrsave = iregs.vrsave) {k : Fin 32}
    (h : iregs.vrsave.getMsbD k.val = true) : (interruptCopy oregs copy).vr k = iregs.vr k := by
  rw [interruptCopy_vr oregs copy (by rwa [hvrsave]), hvr, interruptCopy_vr old iregs h]

-- ---------------------------------------------------------------------------
-- One check
-- ---------------------------------------------------------------------------

/-- Interrupts are enabled. -/
def MacState.IrqEnabled (s : MacState) : Prop := ¬ 0 < (s.mem.readInt32 xlmIrqNest).toInt

/-- The interrupt is handled in the mode of the 68k emulator. -/
def Machine.Handles68k (m : Machine) : Prop :=
  ¬ m.mac.test spcflagExecReturn ∧ m.processingInterrupt = false ∧ m.mac.IrqEnabled ∧
    m.mac.mem.readInt32 xlmRunMode = mode68k

/-- What a check of the flags in `m` leaves in `after`. -/
structure Transparent (m : Machine) (after : MacState) : Prop where
  pc : after.regs.pc = m.mac.regs.pc
  lr : after.regs.lr = m.mac.regs.lr
  ctr : after.regs.ctr = m.mac.regs.ctr
  xer : after.regs.xer = m.mac.regs.xer
  fpscr : after.regs.fpscr = m.mac.regs.fpscr
  vrsave : after.regs.vrsave = m.mac.regs.vrsave
  gpr : after.regs.gpr = m.mac.regs.gpr
  fpr : after.regs.fpr = m.mac.regs.fpr
  vr : ∀ k : Fin 32, m.mac.regs.vrsave.getMsbD k.val = true → after.regs.vr k = m.mac.regs.vr k
  cr : ¬ m.Handles68k → after.regs.cr = m.mac.regs.cr
  cr68k : m.Handles68k → after.regs.cr = m.mac.regs.cr ||| kernelData after.mem 0x674
  emulOp : m.mac.mem.readInt32 xlmRunMode = modeEmulOp →
    after.mem.readInt32 xlmRunMode = modeEmulOp ∧
      after.mem.readInt32 xlm68kR25 = m.mac.mem.readInt32 xlm68kR25

section
variable {cfg : Config} {run : Execute} {locals : Locals} {m m' : Machine}

theorem handleEmulOp_mem {r : M68kRegisters} (h : handleEmulOp run r m = .ok m') :
    m'.mac.mem.readInt32 xlmRunMode = modeEmulOp ∧
      m'.mac.mem.readInt32 xlm68kR25 = m.mac.mem.readInt32 xlm68kR25 := by
  obtain ⟨m₁, -, hrest⟩ := Except.bind_eq_ok.mp h
  obtain ⟨⟨r', c, m₂⟩, hcall, hret⟩ := Except.bind_eq_ok.mp hrest
  obtain ⟨m₃, -, hleave⟩ := Except.bind_eq_ok.mp hcall
  cases hleave
  cases hret
  refine ⟨?_, Mem.readInt32_writeInt32_self ..⟩
  rw [Mem.readInt32_writeInt32_of_far _ _ (by decide) (by decide)]
  exact Mem.readInt32_writeInt32_self ..

/-- The copy comes back as it was, but for the condition register. -/
theorem handleInterrupt_ok {r r' : Registers} (h : handleInterrupt cfg run locals r m = .ok (r', m')) :
    (m.mac.IrqEnabled ∧ m.mac.mem.readInt32 xlmRunMode = mode68k ∧
      r' = { r with cr := r.cr ||| kernelData m'.mac.mem 0x674 }) ∨
    (¬ (m.mac.IrqEnabled ∧ m.mac.mem.readInt32 xlmRunMode = mode68k) ∧ r' = r ∧
      (m.mac.mem.readInt32 xlmRunMode = modeEmulOp →
        m'.mac.mem.readInt32 xlmRunMode = modeEmulOp ∧
          m'.mac.mem.readInt32 xlm68kR25 = m.mac.mem.readInt32 xlm68kR25)) := by
  unfold handleInterrupt at h
  split_ifs at h with hnest h68k hnative hkernel hemul hlevel
  · cases h
    exact .inr ⟨fun hen => hen.1 hnest, rfl, fun hmode => ⟨hmode, rfl⟩⟩
  · cases h
    exact .inl ⟨hnest, h68k, rfl⟩
  · obtain ⟨m₁, -, hret⟩ := Except.bind_eq_ok.mp h
    cases hret
    refine .inr ⟨fun hen => h68k hen.2, rfl, fun hmode => ?_⟩
    rw [hnative] at hmode
    exact absurd hmode (by decide)
  · cases h
    exact .inr ⟨fun hen => h68k hen.2, rfl, fun hmode => ⟨hmode, rfl⟩⟩
  · obtain ⟨m₁, hcall, hret⟩ := Except.bind_eq_ok.mp h
    cases hret
    exact .inr ⟨fun hen => h68k hen.2, rfl, fun _ => handleEmulOp_mem hcall⟩
  · cases h
    exact .inr ⟨fun hen => h68k hen.2, rfl, fun hmode => ⟨hmode, rfl⟩⟩
  · cases h
    exact .inr ⟨fun hen => h68k hen.2, rfl, fun hmode => ⟨hmode, rfl⟩⟩

/-- A check that handles no interrupt changes only the flags. -/
theorem Transparent.of_unhandled {s : MacState} (hregs : s.regs = m.mac.regs)
    (hmem : s.mem = m.mac.mem) (h : ¬ m.Handles68k) : Transparent m s := by
  refine ⟨?_, ?_, ?_, ?_, ?_, ?_, ?_, ?_, ?_, ?_, ?_, ?_⟩ <;> simp_all

@[simp] theorem MacState.trigger_regs (s : MacState) : s.trigger.regs = s.regs := by
  unfold MacState.trigger
  split <;> rfl

@[simp] theorem MacState.trigger_mem (s : MacState) : s.trigger.mem = s.mem := by
  unfold MacState.trigger
  split <;> rfl

@[simp] theorem MacState.enterMon_regs (s : MacState) : s.enterMon.regs = s.regs := by
  unfold MacState.enterMon
  split <;> rfl

@[simp] theorem MacState.enterMon_mem (s : MacState) : s.enterMon.mem = s.mem := by
  unfold MacState.enterMon
  split <;> rfl

theorem processInterrupt_transparent (hreturn : ¬ m.mac.test spcflagExecReturn)
    (h : processInterrupt cfg run locals m = .ok m') : Transparent m m'.mac := by
  unfold processInterrupt at h
  dsimp only at h
  split_ifs at h with hprocessing
  · cases h
    refine .of_unhandled rfl rfl ?_
    rintro ⟨-, hidle, -⟩
    exact absurd hprocessing (by simp [hidle])
  · obtain ⟨⟨r, m₁⟩, hhandle, hret⟩ := Except.bind_eq_ok.mp h
    cases hret
    have hidle : m.processingInterrupt = false := by simpa using hprocessing
    obtain ⟨hen, hmode, rfl⟩ | ⟨hnot, rfl, hemul⟩ := handleInterrupt_ok hhandle
    · have hhandles : m.Handles68k := ⟨hreturn, hidle, hen, hmode⟩
      refine ⟨rfl, rfl, rfl, rfl, rfl, rfl, rfl, rfl, ?_, ?_, ?_, ?_⟩
      · intro k
        exact interruptCopy_copy_vr locals.r rfl rfl
      · exact fun hno => absurd hhandles hno
      · exact fun _ => rfl
      · intro hmode'
        exact absurd (hmode.symm.trans hmode') (by decide)
    · refine ⟨rfl, rfl, rfl, rfl, rfl, rfl, rfl, rfl, ?_, ?_, ?_, ?_⟩
      · intro k
        exact interruptCopy_copy_vr locals.r rfl rfl
      · exact fun _ => rfl
      · exact fun hhandles => absurd hhandles.2.2 hnot
      · exact hemul

theorem checkSpcflags_transparent {continues : Bool} (hflag : m.mac.test spcflagHandleInterrupt)
    (h : checkSpcflags cfg run locals m = .ok (continues, m')) : Transparent m m'.mac := by
  unfold checkSpcflags at h
  split_ifs at h with hreturn
  · cases h
    exact .of_unhandled rfl rfl fun hhandles => hhandles.1 hreturn
  · obtain ⟨m₁, hpending, hret⟩ := Except.bind_eq_ok.mp h
    cases hret
    rw [handlePending, if_pos hflag] at hpending
    have ht := processInterrupt_transparent hreturn hpending
    refine ⟨?_, ?_, ?_, ?_, ?_, ?_, ?_, ?_, ?_, ?_, ?_, ?_⟩ <;>
      simp only [MacState.enterMon_regs, MacState.trigger_regs, MacState.enterMon_mem,
        MacState.trigger_mem]
    exacts [ht.pc, ht.lr, ht.ctr, ht.xer, ht.fpscr, ht.vrsave, ht.gpr, ht.fpr, ht.vr, ht.cr, ht.cr68k,
      ht.emulOp]

-- ---------------------------------------------------------------------------
-- Checks that do not return
-- ---------------------------------------------------------------------------

/-- An assertion does not hold: there is no kernel data for the interrupt, or no room for thunks. -/
def Machine.AssertFails (m : Machine) : Prop :=
  m.mac.regs.gpr 6 = 0 ∨ ¬ m.sheep.proc < m.sheep.data

/-- A computation that does not return stops at an assertion, or inside of the guest routine. -/
def Stops (run : Execute) (x : Run α) : Prop :=
  ∀ e, x = .error e → (∃ m, run m = .error e) ∨ e.AssertFails

theorem Stops.of_ok (a : α) : Stops run (.ok a) := by
  rintro e ⟨⟩

theorem Stops.bind {x : Run α} {f : α → Run β} (hx : Stops run x) (hf : ∀ a, Stops run (f a)) :
    Stops run (x >>= f) := by
  intro e he
  cases x with
  | error e' =>
    rw [Except.error_bind] at he
    cases he
    exact hx e rfl
  | ok a => exact hf a e he

theorem run_stops (m : Machine) : Stops run (run m) := fun _ he => .inl ⟨m, he⟩

theorem trampoline_stops : Stops run (trampoline m) := by
  refine .bind ?_ fun _ => .of_ok _
  unfold reserve
  dsimp only
  split_ifs with hroom
  · exact .of_ok _
  · rintro e ⟨⟩
    exact .inr (.inr fun hlt => hroom (BitVec.le_of_lt hlt))

theorem buildProcedure_stops : Stops run (buildProcedure m) := by
  unfold buildProcedure
  split_ifs
  · refine .bind ?_ fun _ => .of_ok _
    unfold reserveProc
    dsimp only
    split_ifs with hroom
    · exact .of_ok _
    · rintro e ⟨⟩
      exact .inr (.inr hroom)
  · exact .of_ok _

theorem interrupt_stops {entry : Word} : Stops run (interrupt cfg run entry m) := by
  refine trampoline_stops.bind ?_
  rintro ⟨addr, m₁⟩
  refine .bind ?_ fun _ => (run_stops _).bind fun _ => .of_ok _
  unfold assert
  split_ifs with hdata
  · exact .of_ok _
  · rintro e ⟨⟩
    exact .inr (.inl (not_not.mp hdata))

theorem handleInterrupt_stops {r : Registers} : Stops run (handleInterrupt cfg run locals r m) := by
  unfold handleInterrupt
  split_ifs
  · exact .of_ok _
  · exact .of_ok _
  · exact interrupt_stops.bind fun _ => .of_ok _
  · exact .of_ok _
  · refine Stops.bind ?_ fun _ => .of_ok _
    exact buildProcedure_stops.bind fun _ =>
      .bind ((run_stops _).bind fun _ => .of_ok _) fun _ => .of_ok _
  · exact .of_ok _
  · exact .of_ok _

theorem checkSpcflags_stops : Stops run (checkSpcflags cfg run locals m) := by
  unfold checkSpcflags handlePending processInterrupt
  dsimp only
  split_ifs
  · exact .of_ok _
  · exact .bind (.of_ok _) fun _ => .of_ok _
  · exact .bind (handleInterrupt_stops.bind fun _ => .of_ok _) fun _ => .of_ok _
  · exact .bind (.of_ok _) fun _ => .of_ok _

end

-- ---------------------------------------------------------------------------
-- Nested checks
-- ---------------------------------------------------------------------------

/-- How many `HandleInterrupt` have been entered and not been left. -/
def active : List Event → Int
  | [] => 0
  | .enterInterrupt :: log => active log + 1
  | .leaveInterrupt :: log => active log - 1
  | .emulOp .. :: log => active log

theorem active_append (log log' : List Event) : active (log ++ log') = active log + active log' := by
  induction log with
  | nil => simp [active]
  | cons e log ih => cases e <;> simp only [List.cons_append, active, ih] <;> omega

/-- One is active while the flag is set, none while it is not, and never were there two. -/
def Nested (processing : Bool) (log : List Event) : Prop :=
  active log = (if processing then 1 else 0) ∧ ∀ past, past <+: log → active past ≤ 1

theorem Nested.concat {p p' : Bool} {log : List Event} {e : Event} (h : Nested p log)
    (hactive : active log + active [e] = if p' then 1 else 0) : Nested p' (log ++ [e]) := by
  have hnow : active (log ++ [e]) = if p' then 1 else 0 := by rw [active_append, hactive]
  refine ⟨hnow, ?_⟩
  intro past hpast
  obtain rfl | hpast := List.prefix_concat_iff.mp hpast
  · rw [hnow]
    split <;> decide
  · exact h.2 past hpast

theorem nested_invariant : LogInvariant Nested := by
  refine ⟨?_, ?_, ?_⟩
  · intro p log before after r calls h _
    exact h.concat (by simp [h.1, active])
  · intro log h
    exact h.concat (by simp [h.1, active])
  · intro log h
    exact h.concat (by simp [h.1, active])

/-- A check of the flags with an interrupt pending is transparent whatever the guest routine does;
it returns unless an assertion fails or the routine does not return. In no run, however its calls
of `execute` are nested, are two interrupts handled at a time. -/
theorem interrupts_transparent (cfg : Config) (routine : Guest) (locals : Locals) (m : Machine)
    (hflag : m.mac.test spcflagHandleInterrupt) :
    (∀ continues m', checkSpcflags cfg (routine.run cfg) locals m = .ok (continues, m') →
      Transparent m m'.mac) ∧
    (∀ e, checkSpcflags cfg (routine.run cfg) locals m = .error e →
      (∃ m₁, routine.run cfg m₁ = .error e) ∨ e.AssertFails) ∧
    ∀ (guest : Guest) (m₀ : Machine) (past : List Event),
      past <+: (reached (guest.run cfg { m₀ with processingInterrupt := false, log := [] })).log →
        active past ≤ 1 := by
  refine ⟨?_, checkSpcflags_stops, ?_⟩
  · intro continues m' h
    exact checkSpcflags_transparent hflag h
  · intro guest m₀ past hpast
    have hstart : Nested false [] := by
      refine ⟨rfl, ?_⟩
      intro past hpast
      rw [List.prefix_nil.mp hpast]
      decide
    have hlog : (reached (guest.run cfg { m₀ with processingInterrupt := false, log := [] })).Has
        Nested := reached_has nested_invariant cfg guest hstart
    exact hlog.2 past hpast

/-- An interrupt in the mode of an `EMUL_OP` routine, with a routine that leaves other values in
`r2` and in the registers of the 68k emulator. -/
def pendingInterrupt : Machine :=
  { Machine.start with
    mac := { Machine.start.mac with
      spcflags := spcflagHandleInterrupt
      mem := Machine.start.mac.mem.writeInt32 xlmRunMode modeEmulOp } }

theorem pendingInterrupt_transparent : ∃ m',
    checkSpcflags .rom ((popReturn 1).run .rom)
      ⟨Machine.start.mac.regs, ⟨fun _ => 3, fun _ => 5⟩⟩ pendingInterrupt = .ok (true, m') ∧
    Transparent pendingInterrupt m'.mac := by
  refine ⟨_, rfl, ?_⟩
  exact (interrupts_transparent .rom (popReturn 1) ⟨Machine.start.mac.regs, ⟨fun _ => 3, fun _ => 5⟩⟩
    pendingInterrupt (by decide)).1 true _ rfl

end SheepShear.Glue
