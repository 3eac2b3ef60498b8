import SheepShear.Glue.Calls

/-!
# What calls into the guest leave alone

The routines of the glue save different parts of the register file. What they
leave alone together is stated per call, for a routine of the host with all of
its calls, and for every `EMUL_OP` of every run, however deep it is nested.
-/

namespace SheepShear.Glue

-- ---------------------------------------------------------------------------
-- Registers
-- ---------------------------------------------------------------------------

/-- What `set_xer` puts back after `get_xer` is the register itself. -/
theorem XerRegister.set_get (x : XerRegister) : XerRegister.set x.get = x := by
  obtain ⟨⟨so, ov, ca, count⟩, hcount⟩ := x
  have hbit : count.getLsbD 7 = false := Nat.testBit_lt_two_pow hcount
  refine Subtype.ext ?_
  simp only [XerRegister.set, XerRegister.get, Kpx.Xer.mk.injEq]
  refine ⟨?_, ?_, ?_, ?_⟩
  · cases so <;> cases ov <;> cases ca <;> simp
  · cases so <;> cases ov <;> cases ca <;> simp
  · cases so <;> cases ov <;> cases ca <;> simp
  · refine BitVec.eq_of_getLsbD_eq fun i hi => ?_
    obtain rfl | hi7 : i = 7 ∨ i < 7 := by omega
    · simpa using hbit
    · interval_cases i <;> cases so <;> cases ov <;> cases ca <;> simp

@[simp] theorem loadM68k_dReg (r : M68kRegisters) (gpr : Fin 32 → Word) (i : Fin 8) :
    loadM68k r gpr (dReg i) = r.d i := by
  have h : 8 ≤ (dReg i).val ∧ (dReg i).val < 16 := by simp only [dReg]; omega
  unfold loadM68k
  rw [dif_pos h]
  congr 1
  simp [dReg]

@[simp] theorem loadM68k_aReg (r : M68kRegisters) (gpr : Fin 32 → Word) (i : Fin 7) :
    loadM68k r gpr (aReg i) = r.a i.castSucc := by
  have hd : ¬ (8 ≤ (aReg i).val ∧ (aReg i).val < 16) := by simp only [aReg]; omega
  have ha : 16 ≤ (aReg i).val ∧ (aReg i).val < 23 := by simp only [aReg]; omega
  unfold loadM68k
  rw [dif_neg hd, dif_pos ha]
  congr 1
  simp [aReg, Fin.ext_iff]

/-- The other registers are left alone. -/
theorem loadM68k_of_not_mem (r : M68kRegisters) (gpr : Fin 32 → Word) {k : Fin 32}
    (h : k.val < 8 ∨ 23 ≤ k.val) : loadM68k r gpr k = gpr k := by
  unfold loadM68k
  rw [dif_neg (by omega), dif_neg (by omega)]

-- ---------------------------------------------------------------------------
-- Calls
-- ---------------------------------------------------------------------------

/-- A guest routine leaves the stack balanced: a 68k routine pops its return address, and PowerPC
code preserves the non-volatile registers. -/
def Call.Balanced : Call → Prop
  | .execute68k _ entered left _ _ => left.regs.gpr 1 = entered.regs.gpr 1 + 4
  | .executeMacosCode _ entered left _ =>
    left.regs.gpr 1 = entered.regs.gpr 1 ∧
      (∀ k, 13 ≤ k → left.regs.gpr k = entered.regs.gpr k) ∧
      ∀ k, 14 ≤ k → left.regs.fpr k = entered.regs.fpr k

/-- A 68k routine leaves `r2` as it finds it. -/
def Call.LeavesR2 : Call → Prop
  | .execute68k _ entered left _ _ => left.regs.gpr 2 = entered.regs.gpr 2
  | .executeMacosCode .. => True

/-- The states before and after a call of either kind. -/
def Call.before : Call → MacState
  | .execute68k before _ _ _ _ => before
  | .executeMacosCode before _ _ _ => before

def Call.after : Call → MacState
  | .execute68k _ _ _ after _ => after
  | .executeMacosCode _ _ _ after => after

/-- What every balanced call keeps. -/
structure Kept (before after : MacState) : Prop where
  sp : after.regs.gpr 1 = before.regs.gpr 1
  pc : after.regs.pc = before.regs.pc
  lr : after.regs.lr = before.regs.lr
  ctr : after.regs.ctr = before.regs.ctr
  gpr : ∀ k, 13 ≤ k → after.regs.gpr k = before.regs.gpr k
  fpr : ∀ k, 14 ≤ k → after.regs.fpr k = before.regs.fpr k

/-- What `execute_68k` promises its caller beyond that. -/
structure Returned (before left after : MacState) (r : M68kRegisters) : Prop where
  cr : after.regs.cr = before.regs.cr
  d : ∀ i, r.d i = left.regs.gpr (dReg i)
  a : ∀ i : Fin 7, r.a i.castSucc = left.regs.gpr (aReg i)
  runMode : after.mem.readInt32 xlmRunMode = modeEmulOp

def Call.Framed : Call → Prop
  | .execute68k before _ left after r => Kept before after ∧ Returned before left after r
  | .executeMacosCode before _ _ after => Kept before after

theorem Kept.refl (s : MacState) : Kept s s := ⟨rfl, rfl, rfl, rfl, fun _ _ => rfl, fun _ _ => rfl⟩

theorem Kept.trans {s₁ s₂ s₃ : MacState} (h : Kept s₁ s₂) (h' : Kept s₂ s₃) : Kept s₁ s₃ :=
  ⟨h'.sp.trans h.sp, h'.pc.trans h.pc, h'.lr.trans h.lr, h'.ctr.trans h.ctr,
    fun k hk => (h'.gpr k hk).trans (h.gpr k hk), fun k hk => (h'.fpr k hk).trans (h.fpr k hk)⟩

theorem Kept.of_regs {s s' : MacState} (h : s'.regs = s.regs) : Kept s s' := by
  refine ⟨?_, ?_, ?_, ?_, ?_, ?_⟩ <;> simp [h]

theorem enter68k_gpr_one (entry : Word) (r : M68kRegisters) (s : MacState) :
    (enter68k entry r s).regs.gpr 1 = s.regs.gpr 1 - 56 - 4 := by
  simp [enter68k, loadM68k_of_not_mem]

theorem enter68k_gpr_two (entry : Word) (r : M68kRegisters) (s : MacState) :
    (enter68k entry r s).regs.gpr 2 = s.regs.gpr 2 := by
  simp [enter68k, loadM68k_of_not_mem]

theorem leave68k_kept {entry : Word} {r : M68kRegisters} {s left : MacState}
    (h : left.regs.gpr 1 = (enter68k entry r s).regs.gpr 1 + 4) : Kept s (leave68k s left) := by
  rw [enter68k_gpr_one] at h
  refine ⟨?_, rfl, rfl, rfl, ?_, ?_⟩
  · simp [leave68k, h]
  · intro k hk
    have hne : k ≠ 1 := by rintro rfl; exact absurd hk (by decide)
    simp [leave68k, Function.update_of_ne hne, hk]
  · intro k hk
    simp [leave68k, hk]

theorem leave68k_returned (s left : MacState) (r : M68kRegisters) :
    Returned s left (leave68k s left) (saveM68k r left.regs.gpr) := by
  refine ⟨rfl, fun _ => rfl, ?_, ?_⟩
  · intro i
    simp [saveM68k]
  · simp [leave68k]

theorem loadArgs_of_not_mem (args : Args) (gpr : Fin 32 → Word) {k : Fin 32}
    (h : k.val < 3 ∨ 13 ≤ k.val) : loadArgs args gpr k = gpr k := by
  have := args.property
  unfold loadArgs
  rw [dif_neg (by omega)]

theorem leaveMacosCode_kept {lr tvect : Word} {args : Args} {s s₁ left : MacState}
    (hregs : s₁.regs = s.regs)
    (h : (Call.executeMacosCode s (enterMacosCode lr tvect args s₁) left s).Balanced) :
    Kept s (leaveMacosCode args s left) := by
  obtain ⟨hsp, hgpr, hfpr⟩ := h
  have hlen := args.property
  refine ⟨?_, rfl, rfl, rfl, ?_, ?_⟩
  · have hone : (enterMacosCode lr tvect args s₁).regs.gpr 1 = s.regs.gpr 1 - 64 := by
      simp [enterMacosCode, loadArgs_of_not_mem, hregs]
    simp [leaveMacosCode, hsp, hone]
  · intro k hk
    have hk' : 13 ≤ k.val := hk
    have hne : k ≠ 1 := by rintro rfl; exact absurd hk (by decide)
    have hne' : k ≠ 2 := by rintro rfl; exact absurd hk (by decide)
    have hnot : ¬ (2 ≤ k.val ∧ k.val ≤ 2 + args.val.length) := by omega
    simp only [leaveMacosCode, Function.update_of_ne hne, if_neg hnot, hgpr k hk]
    simp [enterMacosCode, loadArgs_of_not_mem, hk', hne, hne', hregs]
  · intro k hk
    simp [leaveMacosCode, hfpr k hk, enterMacosCode, hregs]

theorem leaveMacosCode_gpr_two (args : Args) (s left : MacState) :
    (leaveMacosCode args s left).regs.gpr 2 = s.regs.gpr 2 := by
  simp [leaveMacosCode]

theorem Call.Framed.kept {c : Call} (h : c.Framed) : Kept c.before c.after := by
  cases c with
  | execute68k => exact h.1
  | executeMacosCode => exact h

/-- A call that went from `m` to `m'`. -/
structure Call.Spec (c : Call) (m m' : Machine) : Prop where
  before : c.before = m.mac
  after : c.after = m'.mac
  framed : c.Balanced → c.Framed
  r2 : c.LeavesR2 → m'.mac.regs.gpr 2 = m.mac.regs.gpr 2

theorem execute68k_spec {run : Execute} {entry : Word} {r r' : M68kRegisters} {c : Call}
    {m m' : Machine} (h : execute68k run entry r m = .ok (r', c, m')) : c.Spec m m' := by
  obtain ⟨m₁, hrun, hret⟩ := Except.bind_eq_ok.mp h
  cases hret
  refine ⟨rfl, rfl, ?_, ?_⟩
  · intro hbalanced
    exact ⟨leave68k_kept hbalanced, leave68k_returned _ _ _⟩
  · intro hr2
    rw [Call.LeavesR2, enter68k_gpr_two] at hr2
    simpa [leave68k] using hr2

theorem trampoline_regs {m m₁ : Machine} {addr : Word} (h : trampoline m = .ok (addr, m₁)) :
    m₁.mac.regs = m.mac.regs := by
  obtain ⟨⟨addr', m'⟩, hreserve, hret⟩ := Except.bind_eq_ok.mp h
  cases hret
  unfold reserve at hreserve
  dsimp only at hreserve
  split_ifs at hreserve
  cases hreserve
  rfl

theorem executeMacosCode_spec {run : Execute} {tvect value : Word} {args : Args} {c : Call}
    {m m' : Machine} (h : executeMacosCode run tvect args m = .ok (value, c, m')) : c.Spec m m' := by
  obtain ⟨⟨addr, m₁⟩, htrampoline, hrest⟩ := Except.bind_eq_ok.mp h
  obtain ⟨m₂, hrun, hret⟩ := Except.bind_eq_ok.mp hrest
  cases hret
  refine ⟨rfl, rfl, ?_, ?_⟩
  · intro hbalanced
    exact leaveMacosCode_kept (trampoline_regs htrampoline) hbalanced
  · intro _
    exact leaveMacosCode_gpr_two _ _ _

-- ---------------------------------------------------------------------------
-- Routines of the host
-- ---------------------------------------------------------------------------

/-- A routine of the host that went from `m` to `f`, all of whose calls were balanced. -/
structure Finished.Spec (m : Machine) (f : Finished) : Prop where
  kept : Kept m.mac f.machine.mac
  framed : ∀ c ∈ f.calls, c.Framed
  r2 : (∀ c ∈ f.calls, c.LeavesR2) → f.machine.mac.regs.gpr 2 = m.mac.regs.gpr 2

/-- A call before the rest of the routine. -/
theorem Finished.Spec.cons {c : Call} {m m₁ : Machine} {f : Finished} (hc : c.Spec m m₁)
    (hbalanced : c.Balanced) (h : f.Spec m₁) :
    Finished.Spec m { f with calls := c :: f.calls } := by
  have hframed : c.Framed := hc.framed hbalanced
  have hkept : Kept m.mac m₁.mac := by
    rw [← hc.before, ← hc.after]
    exact hframed.kept
  refine ⟨hkept.trans h.kept, ?_, ?_⟩
  · rintro c' (_ | ⟨_, hc'⟩)
    · exact hframed
    · exact h.framed c' hc'
  · intro hall
    rw [← hc.r2 (hall c (List.mem_cons_self ..))]
    exact h.r2 fun c' hc' => hall c' (List.mem_cons_of_mem _ hc')

theorem Host.run_spec (cfg : Config) : (host : Host) → {m : Machine} → {f : Finished} →
    host.run cfg m = .ok f → (∀ c ∈ f.calls, c.Balanced) → f.Spec m
  | .ret r, m, f, h, _ => by
    rw [Host.run] at h
    cases h
    exact ⟨Kept.refl _, by simp, fun _ => rfl⟩
  | .work mem spcflags next, m, f, h, hbalanced => by
    rw [Host.run] at h
    have ih := Host.run_spec cfg (next _) h hbalanced
    exact ⟨(Kept.of_regs (by rfl)).trans ih.kept, ih.framed, ih.r2⟩
  | .execute68k entry r routine next, m, f, h, hbalanced => by
    rw [Host.run] at h
    obtain ⟨⟨r', c, m₁⟩, hcall, hrest⟩ := Except.bind_eq_ok.mp h
    obtain ⟨f', hnext, hret⟩ := Except.bind_eq_ok.mp hrest
    cases hret
    rw [List.forall_mem_cons] at hbalanced
    exact .cons (execute68k_spec hcall) hbalanced.1 (Host.run_spec cfg (next _ _) hnext hbalanced.2)
  | .executeMacosCode tvect args routine next, m, f, h, hbalanced => by
    rw [Host.run] at h
    obtain ⟨⟨value, c, m₁⟩, hcall, hrest⟩ := Except.bind_eq_ok.mp h
    obtain ⟨f', hnext, hret⟩ := Except.bind_eq_ok.mp hrest
    cases hret
    rw [List.forall_mem_cons] at hbalanced
    exact .cons (executeMacosCode_spec hcall) hbalanced.1 (Host.run_spec cfg (next _ _) hnext hbalanced.2)

-- ---------------------------------------------------------------------------
-- `EMUL_OP` instructions
-- ---------------------------------------------------------------------------

/-- What `execute_emul_op` leaves alone and what it delivers; `r` is what its routine has left. -/
structure EmulOpFrame (before after : MacState) (r : M68kRegisters) : Prop where
  pc : after.regs.pc = before.regs.pc
  lr : after.regs.lr = before.regs.lr
  ctr : after.regs.ctr = before.regs.ctr
  gpr : ∀ k, 23 ≤ k → after.regs.gpr k = before.regs.gpr k
  fpr : ∀ k, 14 ≤ k → after.regs.fpr k = before.regs.fpr k
  xer : after.regs.xer = before.regs.xer
  cr : ∀ i < 32, after.regs.cr.getMsbD i =
    if i = 9 ∨ i = 10 then false else before.regs.cr.getMsbD i
  d : ∀ i, after.regs.gpr (dReg i) = r.d i
  a : ∀ i : Fin 7, after.regs.gpr (aReg i) = r.a i.castSucc
  sp : after.regs.gpr 1 = r.a 7
  runMode : after.mem.readInt32 xlmRunMode = mode68k

/-- The frame of an `EMUL_OP` with balanced calls. -/
def Event.Framed : Event → Prop
  | .enterInterrupt | .leaveInterrupt => True
  | .emulOp before after r calls => (∀ c ∈ calls, c.Balanced) →
    EmulOpFrame before after r ∧ (∀ c ∈ calls, c.Framed) ∧
      ((∀ c ∈ calls, c.LeavesR2) → after.regs.gpr 2 = before.regs.gpr 2)

theorem leaveEmulOp_cr (saved s : MacState) (r : M68kRegisters) {i : Nat} (hi : i < 32) :
    (leaveEmulOp saved r s).regs.cr.getMsbD i =
      if i = 9 ∨ i = 10 then false else saved.regs.cr.getMsbD i := by
  have hmask : (0xff9fffff#32).getMsbD i = !decide (i = 9 ∨ i = 10) := by
    interval_cases i <;> rfl
  have hand : (leaveEmulOp saved r s).regs.cr = saved.regs.cr &&& 0xff9fffff#32 := rfl
  rw [hand, BitVec.getMsbD_and, hmask]
  by_cases h : i = 9 ∨ i = 10 <;> simp [h]

theorem leaveEmulOp_frame {saved s : MacState} (h : Kept saved s) (r : M68kRegisters) :
    EmulOpFrame saved (leaveEmulOp saved r s) r := by
  have hne : ∀ k : Fin 32, 8 ≤ k.val → k ≠ 1 := by
    rintro k hk rfl
    exact absurd hk (by decide)
  refine ⟨h.pc, h.lr, h.ctr, ?_, h.fpr, XerRegister.set_get _, fun i => leaveEmulOp_cr _ _ _, ?_, ?_,
    ?_, ?_⟩
  · intro k hk
    have hk' : 23 ≤ k.val := hk
    simp only [leaveEmulOp, Function.update_of_ne (hne k (by omega))]
    rw [loadM68k_of_not_mem r _ (.inr hk')]
    exact h.gpr k (show 13 ≤ k.val by omega)
  · intro i
    simp only [leaveEmulOp, Function.update_of_ne (hne (dReg i) (Nat.le_add_right _ _)), loadM68k_dReg]
  · intro i
    have hge : 8 ≤ (aReg i).val := by simp only [aReg]; omega
    simp only [leaveEmulOp, Function.update_of_ne (hne _ hge), loadM68k_aReg]
  · simp [leaveEmulOp]
  · simp [leaveEmulOp]

theorem leaveEmulOp_gpr_two (saved s : MacState) (r : M68kRegisters) :
    (leaveEmulOp saved r s).regs.gpr 2 = s.regs.gpr 2 := by
  simp [leaveEmulOp, loadM68k_of_not_mem]

theorem emulOp_framed {cfg : Config} {routine : Host} {m : Machine} {f : Finished}
    (h : routine.run cfg { m with mac := enterEmulOp m.mac } = .ok f) :
    (Event.emulOp m.mac (leaveEmulOp m.mac f.r f.machine.mac) f.r f.calls).Framed := by
  intro hbalanced
  have hspec := Host.run_spec cfg routine h hbalanced
  have henter : Kept m.mac (enterEmulOp m.mac) := .of_regs rfl
  refine ⟨leaveEmulOp_frame (henter.trans hspec.kept) f.r, hspec.framed, ?_⟩
  intro hr2
  rw [leaveEmulOp_gpr_two]
  exact hspec.r2 hr2

end SheepShear.Glue
