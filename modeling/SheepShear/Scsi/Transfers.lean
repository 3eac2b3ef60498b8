import SheepShear.Scsi.Table

/-!
# Runs of the SCSI Manager

The calls a guest makes in any order, with its own stores between them and
arbitrary answers of the host. Beside the state of the manager a run records
what the instruction blocks asked for since the last successful `SCSIGet`.
-/

namespace SheepShear.Scsi

open Steps

variable (vmBaseDiff : Word)

-- ---------------------------------------------------------------------------
-- What a block asks for
-- ---------------------------------------------------------------------------

/-- The range the instruction at `tib` asks for. -/
def tibRequest (s : Manager) (tib : Word) : List Range :=
  let i := Instr.fetch s.mem tib
  match Op.decode i.cmd with
  | some .scInc | some .scNoInc => [⟨i.ptr, i.len⟩]
  | _ => []

/-- The ranges of the executed instructions, with the operands they held at the time. An
instruction that finds the table full is not executed. -/
def tibRequests : Nat → Manager → Word → List Range
  | 0, _, _ => []
  | fuel + 1, s, tib =>
    match tibStep vmBaseDiff s tib with
    | .next s' tib' => tibRequest s tib ++ tibRequests fuel s' tib'
    | .ret _ _ => []

-- ---------------------------------------------------------------------------
-- Calls
-- ---------------------------------------------------------------------------

inductive Direction where
  | read
  | write
deriving DecidableEq, Repr

/-- The value of `reading` that belongs to a direction. -/
def Direction.reading : Direction → Bool
  | .read => true
  | .write => false

/-- The state in which `SCSIRead` and `SCSIWrite` call `exec_tib`. -/
def Direction.enter (s : Manager) : Direction → Manager
  | .read => { s with reading := true }
  | .write => s

/-- A call, with the answers of the host. The number of a `readWrite` bounds the instructions
that its block executes, and `guest` is whatever the guest stores between two calls. -/
inductive Call where
  | reset
  | get
  | select (id : Int) (present : Bool)
  | cmd (cmdLength : Int) (cmd : Nat → Byte) (targetSet : Bool)
  | readWrite (d : Direction) (fuel : Nat) (tib : Word)
  | complete (timeout message stat : Word) (answer : SendAnswer)
  | guest (mem : Mem)

/-- The phase in which a call may be made. -/
def Call.phase : Call → Option Phase
  | .reset | .guest _ => none
  | .get => some .free
  | .select _ _ => some .arbitrated
  | .cmd _ _ _ => some .selected
  | .readWrite _ _ _ | .complete _ _ _ _ => some .transfer

def call (s : Manager) : Call → Option (Result × Manager)
  | .reset => some (scsiReset s)
  | .get => some (scsiGet s)
  | .select id present => some (scsiSelect s id present)
  | .cmd cmdLength cmd targetSet => some (scsiCmd s cmdLength cmd targetSet)
  | .readWrite .read fuel tib => scsiRead vmBaseDiff fuel s tib
  | .readWrite .write fuel tib => scsiWrite vmBaseDiff fuel s tib
  | .complete timeout message stat answer => some (scsiComplete s timeout message stat answer)
  | .guest mem => some (.noErr, { s with mem := mem })

/-- The manager, what the last call returned, and a record since the last successful `SCSIGet`:
the ranges asked for, those of them asked for by blocks that returned zero, and the directions of
the `SCSIRead` and `SCSIWrite` calls made for the command. -/
structure Trace where
  scsi : Manager
  result : Result
  asked : List Range
  completed : List Range
  directions : List Direction

def Trace.initial (mem : Mem) : Trace := ⟨.initial mem, .noErr, [], [], []⟩

def Trace.record (t : Trace) (r : Result) : Call → Trace
  | .get => if r = .noErr then { t with asked := [], completed := [], directions := [] } else t
  | .readWrite d fuel tib =>
    if t.scsi.phase ≠ .transfer then t
    else
      let rs := tibRequests vmBaseDiff fuel (d.enter t.scsi) tib
      { t with
        asked := t.asked ++ rs
        completed := t.completed ++ if r = .noErr then rs else []
        directions := t.directions ++ [d] }
  | _ => t

def step (t : Trace) (c : Call) : Option Trace :=
  (call vmBaseDiff t.scsi c).map fun (r, s) =>
    { t.record vmBaseDiff r c with scsi := s, result := r }

variable {vmBaseDiff}

-- ---------------------------------------------------------------------------
-- Running a block
-- ---------------------------------------------------------------------------

/-- A block changes memory and the table, nothing else. -/
def OnlyTransfers (s s' : Manager) : Prop := s' = { s with mem := s'.mem, table := s'.table }

theorem OnlyTransfers.trans {s₁ s₂ s₃ : Manager} (h : OnlyTransfers s₁ s₂)
    (h' : OnlyTransfers s₂ s₃) : OnlyTransfers s₁ s₃ := by
  rw [OnlyTransfers] at h h' ⊢
  rw [h] at h'
  exact h'

theorem transfer_next {s s' : Manager} {r : Range} {tib tib' : Word}
    (h : transfer vmBaseDiff s r tib = .next s' tib') :
    s.table.add vmBaseDiff r = some s'.table ∧ OnlyTransfers s s' ∧ s'.mem = s.mem := by
  unfold transfer at h
  cases hadd : s.table.add vmBaseDiff r with
  | none => simp [hadd] at h
  | some table =>
    simp only [hadd, Outcome.next.injEq] at h
    obtain ⟨rfl, rfl⟩ := h
    exact ⟨rfl, rfl, rfl⟩

theorem transfer_ret {s s' : Manager} {r : Range} {tib : Word} {res : Result}
    (h : transfer vmBaseDiff s r tib = .ret res s') : s' = s := by
  unfold transfer at h
  cases hadd : s.table.add vmBaseDiff r with
  | none =>
    simp only [hadd, Outcome.ret.injEq] at h
    exact h.2.symm
  | some table => simp [hadd] at h

theorem addAll_singleton {t t' : SgTable} {r : Range} (h : t.add vmBaseDiff r = some t') :
    t.addAll vmBaseDiff [r] = some t' :=
  SgTable.addAll_cons.mpr ⟨t', h, rfl⟩

theorem tibStep_next {s s' : Manager} {tib tib' : Word}
    (h : tibStep vmBaseDiff s tib = .next s' tib') :
    s.table.addAll vmBaseDiff (tibRequest s tib) = some s'.table ∧ OnlyTransfers s s' := by
  cases hop : Op.decode (Instr.fetch s.mem tib).cmd with
  | none => simp [tibStep, hop] at h
  | some op =>
    simp only [tibStep, hop] at h
    simp only [tibRequest, hop]
    cases op with
    | scInc =>
      obtain ⟨hadd, honly, -⟩ := transfer_next h
      exact ⟨addAll_singleton hadd, honly⟩
    | scNoInc =>
      obtain ⟨hadd, honly, -⟩ := transfer_next h
      exact ⟨addAll_singleton hadd, honly⟩
    | scAdd | scMove | scLoop | scNop =>
      cases h
      exact ⟨rfl, rfl⟩
    | scStop | scComp => cases h

theorem tibStep_ret {s s' : Manager} {tib : Word} {r : Result}
    (h : tibStep vmBaseDiff s tib = .ret r s') :
    s'.table = s.table ∧ OnlyTransfers s s' := by
  cases hop : Op.decode (Instr.fetch s.mem tib).cmd with
  | none =>
    simp only [tibStep, hop] at h
    cases h
    exact ⟨rfl, rfl⟩
  | some op =>
    simp only [tibStep, hop] at h
    cases op with
    | scInc | scNoInc =>
      cases transfer_ret h
      exact ⟨rfl, rfl⟩
    | scAdd | scMove | scLoop | scNop => cases h
    | scStop | scComp =>
      cases h
      exact ⟨rfl, rfl⟩

/-- The table after a block: the ranges it asked for, added in order. -/
theorem execTib_spec {fuel : Nat} {s s' : Manager} {tib : Word} {r : Result}
    (h : execTib vmBaseDiff fuel s tib = some (r, s')) :
    s.table.addAll vmBaseDiff (tibRequests vmBaseDiff fuel s tib) = some s'.table ∧
      OnlyTransfers s s' := by
  induction fuel generalizing s tib with
  | zero => cases h
  | succ fuel ih =>
    unfold execTib at h
    unfold tibRequests
    cases hstep : tibStep vmBaseDiff s tib with
    | next s₁ tib₁ =>
      simp only [hstep] at h ⊢
      obtain ⟨hadd, honly⟩ := tibStep_next hstep
      obtain ⟨hadds, honly'⟩ := ih h
      exact ⟨SgTable.addAll_append.mpr ⟨_, hadd, hadds⟩, honly.trans honly'⟩
    | ret r₁ s₁ =>
      simp only [hstep, Option.some.injEq, Prod.mk.injEq] at h ⊢
      obtain ⟨rfl, rfl⟩ := h
      obtain ⟨htable, honly⟩ := tibStep_ret hstep
      rw [htable]
      exact ⟨rfl, honly⟩

-- ---------------------------------------------------------------------------
-- Operands that a block changes
-- ---------------------------------------------------------------------------

variable (vmBaseDiff) in
/-- An executed `scInc` leaves its address operand advanced by its length. -/
def IncAdvances : Prop :=
  ∀ s tib s' tib', Op.decode (Instr.fetch s.mem tib).cmd = some .scInc →
    tibStep vmBaseDiff s tib = .next s' tib' →
    (Instr.fetch s'.mem tib).ptr = (Instr.fetch s.mem tib).ptr + (Instr.fetch s.mem tib).len

theorem incAdvances : IncAdvances vmBaseDiff := by
  intro s tib s' tib' hop h
  simp only [tibStep, hop] at h
  obtain ⟨-, -, hmem⟩ := transfer_next h
  have hat : tib + 10 - 8 = tib + 2 := add_sub_assoc tib 10 8
  simp only [hat] at hmem
  rw [hmem]
  exact Mem.readInt32_writeInt32_self ..

variable (vmBaseDiff) in
/-- Instructions run from `tib` until control first comes to `stop`. -/
inductive Until (stop : Word) : Manager → Word → Manager → Prop where
  | arrived (s : Manager) : Until stop s stop s
  | step {s s₁ s' : Manager} {tib tib₁ : Word} : tib ≠ stop →
    tibStep vmBaseDiff s tib = .next s₁ tib₁ → Until stop s₁ tib₁ s' → Until stop s tib s'

variable (vmBaseDiff) in
/-- The `scLoop` at `at_` has let its body run this often: control has come back to it each time,
and no run of the body has stored into the instruction itself. -/
inductive BodyRuns (at_ body : Word) : Nat → Manager → Manager → Prop where
  | first {s s' : Manager} : Until vmBaseDiff at_ s body s' →
    Instr.fetch s'.mem at_ = Instr.fetch s.mem at_ → BodyRuns at_ body 1 s s'
  | again {k : Nat} {s s₁ s₂ s' : Manager} : BodyRuns at_ body k s s₁ →
    tibStep vmBaseDiff s₁ at_ = .next s₂ body → Until vmBaseDiff at_ s₂ body s' →
    Instr.fetch s'.mem at_ = Instr.fetch s₂.mem at_ → BodyRuns at_ body (k + 1) s s'

variable (vmBaseDiff) in
/-- After `k` runs of the body of a loop with count `n` control leaves the loop when `k` is `n`,
and goes back to the body before that. -/
def LoopCounts : Prop :=
  ∀ s at_ k s', Op.decode (Instr.fetch s.mem at_).cmd = some .scLoop →
    BodyRuns vmBaseDiff at_ (at_ + (Instr.fetch s.mem at_).ptr) k s s' →
    k ≤ (Instr.fetch s.mem at_).len.toNat →
    ∃ s'', tibStep vmBaseDiff s' at_ = .next s''
      (if k = (Instr.fetch s.mem at_).len.toNat then at_ + 10
        else at_ + (Instr.fetch s.mem at_).ptr)

/-- The store of an `scLoop` changes its count and nothing else of the instruction. -/
theorem fetch_writeInt32_len (mem : Mem) (tib v : Word) :
    Instr.fetch (mem.writeInt32 (tib + 10 - 4) v) tib = { Instr.fetch mem tib with len := v } := by
  have hat : tib + 10 - 4 = tib + 6 := add_sub_assoc tib 10 4
  have hkeep : ∀ d : Word, 4 ≤ (d - 6).toNat → mem.writeInt32 (tib + 6) v (tib + d) = mem (tib + d) :=
    fun d hd => mem.writeInt32_add_of_far tib v hd
  have hcmd : (mem.writeInt32 (tib + 6) v).readInt16 tib = mem.readInt16 tib := by
    have h0 := hkeep 0 (by decide)
    rw [show tib + 0 = tib from add_zero tib] at h0
    simp only [Mem.readInt16, h0, hkeep 1 (by decide)]
  have hptr : (mem.writeInt32 (tib + 6) v).readInt32 (tib + 2) = mem.readInt32 (tib + 2) := by
    have h3 : tib + 2 + 1 = tib + 3 := add_assoc tib 2 1
    have h4 : tib + 2 + 2 = tib + 4 := add_assoc tib 2 2
    have h5 : tib + 2 + 3 = tib + 5 := add_assoc tib 2 3
    simp only [Mem.readInt32, h3, h4, h5, hkeep 2 (by decide), hkeep 3 (by decide),
      hkeep 4 (by decide), hkeep 5 (by decide)]
  simp only [hat, Instr.fetch, hcmd, hptr, Mem.readInt32_writeInt32_self]

/-- An `scLoop`: its count goes down, and control goes on when it has come to zero. -/
theorem tibStep_loop {s : Manager} {tib : Word}
    (hop : Op.decode (Instr.fetch s.mem tib).cmd = some .scLoop) :
    ∃ s', Instr.fetch s'.mem tib =
        { Instr.fetch s.mem tib with len := (Instr.fetch s.mem tib).len - 1 } ∧
      tibStep vmBaseDiff s tib = .next s'
        (if (Instr.fetch s.mem tib).len = 1 then tib + 10 else tib + (Instr.fetch s.mem tib).ptr) := by
  have hback : ∀ p : Word, tib + 10 + (p - 10) = tib + p := by
    intro p
    rw [add_assoc, add_sub_cancel]
  have hlast : ∀ n : Word, 0 < (n - 1).toNat ↔ n ≠ 1 := by
    intro n
    rw [Nat.pos_iff_ne_zero]
    refine not_congr ?_
    rw [← @sub_eq_zero Word _ n 1, BitVec.toNat_eq]
    rfl
  refine ⟨{ s with mem := s.mem.writeInt32 (tib + 10 - 4) ((Instr.fetch s.mem tib).len - 1) },
    fetch_writeInt32_len .., ?_⟩
  simp only [tibStep, hop, hback, hlast, ite_not]

/-- Before the last run of the body the loop has its opcode and distance, and the runs that are
left as its count. -/
theorem BodyRuns.fetch {at_ body : Word} {k : Nat} {s s' : Manager}
    (hop : Op.decode (Instr.fetch s.mem at_).cmd = some .scLoop)
    (h : BodyRuns vmBaseDiff at_ body k s s') (hk : k ≤ (Instr.fetch s.mem at_).len.toNat) :
    ∃ len, Instr.fetch s'.mem at_ = { Instr.fetch s.mem at_ with len := len } ∧
      len.toNat + k = (Instr.fetch s.mem at_).len.toNat + 1 := by
  induction h with
  | first _ hkeep => exact ⟨_, hkeep, rfl⟩
  | @again k s s₁ s₂ s' _ hstep _ hkeep ih =>
    obtain ⟨len, hfetch, hlen⟩ := ih hop (by omega)
    obtain ⟨s₃, hfetch₃, hstep₃⟩ := @tibStep_loop vmBaseDiff s₁ at_ (by rw [hfetch]; exact hop)
    rw [hstep₃, Outcome.next.injEq] at hstep
    obtain ⟨rfl, -⟩ := hstep
    refine ⟨len - 1, by rw [hkeep, hfetch₃, hfetch], ?_⟩
    have hge : (1 : Word) ≤ len := by
      rw [BitVec.le_def]
      change 1 ≤ len.toNat
      omega
    rw [BitVec.toNat_sub_of_le hge]
    change len.toNat - 1 + (k + 1) = _
    omega

theorem loopCounts : LoopCounts vmBaseDiff := by
  intro s at_ k s' hop hruns hk
  obtain ⟨len, hfetch, hlen⟩ := hruns.fetch hop hk
  obtain ⟨s'', -, hstep⟩ := @tibStep_loop vmBaseDiff s' at_ (by rw [hfetch]; exact hop)
  have hlast : len = 1 ↔ k = (Instr.fetch s.mem at_).len.toNat := by
    rw [BitVec.toNat_eq]
    change len.toNat = 1 ↔ _
    omega
  refine ⟨s'', ?_⟩
  rw [hstep, hfetch]
  simp only [hlast]

-- ---------------------------------------------------------------------------
-- Running the calls
-- ---------------------------------------------------------------------------

theorem call_readWrite (s : Manager) (d : Direction) (fuel : Nat) (tib : Word) :
    call vmBaseDiff s (.readWrite d fuel tib) =
      if s.phase ≠ .transfer then some (.scPhaseErr, s)
      else execTib vmBaseDiff fuel (d.enter s) tib := by
  cases d with
  | read => rfl
  | write => rfl

@[simp] theorem Direction.enter_phase (d : Direction) (s : Manager) :
    (d.enter s).phase = s.phase := by
  cases d <;> rfl

@[simp] theorem Direction.enter_table (d : Direction) (s : Manager) :
    (d.enter s).table = s.table := by
  cases d <;> rfl

@[simp] theorem Direction.enter_host (d : Direction) (s : Manager) :
    (d.enter s).host = s.host := by
  cases d <;> rfl

@[simp] theorem Direction.enter_fakeStatus (d : Direction) (s : Manager) :
    (d.enter s).fakeStatus = s.fakeStatus := by
  cases d <;> rfl

@[simp] theorem Direction.enter_targetId (d : Direction) (s : Manager) :
    (d.enter s).targetId = s.targetId := by
  cases d <;> rfl

/-- `SCSIRead` and `SCSIWrite`: refused outside the transfer phase, a block otherwise. -/
theorem step_readWrite {t t' : Trace} {d : Direction} {fuel : Nat} {tib : Word}
    (h : step vmBaseDiff t (.readWrite d fuel tib) = some t') :
    (t.scsi.phase ≠ .transfer ∧ t' = { t with result := .scPhaseErr }) ∨
    (t.scsi.phase = .transfer ∧ ∃ rs s r,
      t.scsi.table.addAll vmBaseDiff rs = some s.table ∧ OnlyTransfers (d.enter t.scsi) s ∧
      t' = ⟨s, r, t.asked ++ rs, t.completed ++ (if r = .noErr then rs else []),
        t.directions ++ [d]⟩) := by
  rw [step, call_readWrite] at h
  split at h
  · next hphase =>
    simp only [Option.map_some, Option.some.injEq, Trace.record, hphase, ite_true,
      ne_eq, not_false_eq_true] at h
    exact .inl ⟨hphase, h.symm⟩
  · next hphase =>
    simp only [Option.map_eq_some_iff, Trace.record, hphase, ite_false] at h
    obtain ⟨⟨r, s⟩, hexec, rfl⟩ := h
    obtain ⟨hadd, honly⟩ := execTib_spec hexec
    rw [d.enter_table] at hadd
    exact .inr ⟨not_not.mp hphase, _, s, r, hadd, honly, rfl⟩

/-- The status word that belongs to a phase. -/
def Phase.status : Phase → BitVec 16
  | .free => 0x0000#16
  | .arbitrated => 0x0040#16
  | .selected => 0x006a#16
  | .transfer => 0x006e#16

/-- The last calls of the host when a command may be sent: a target that was found, a command, and
the target set for it. -/
def CommandSet (host : List HostCall) : Prop :=
  ∃ earlier id cmd lun,
    host = earlier ++ [.isTargetPresent id true, .setCmd cmd, .setTarget id lun true]

theorem commandSet_append {host earlier : List HostCall} {id : Int}
    (h : host = earlier ++ [.isTargetPresent id true]) (cmd : List Byte) (lun : Byte) :
    CommandSet (host ++ [.setCmd cmd, .setTarget id lun true]) := by
  refine ⟨earlier, id, cmd, lun, ?_⟩
  simp only [h, List.append_assoc, List.singleton_append]

structure Inv (vmBaseDiff : Word) (t : Trace) : Prop where
  status : t.scsi.fakeStatus = t.scsi.phase.status
  table : t.scsi.phase ≠ .free → SgTable.empty.addAll vmBaseDiff t.asked = some t.scsi.table
  selected : t.scsi.phase = .selected →
    ∃ earlier, t.scsi.host = earlier ++ [.isTargetPresent t.scsi.targetId true]
  transfer : t.scsi.phase = .transfer → CommandSet t.scsi.host

theorem initial_inv (mem : Mem) : Inv vmBaseDiff (.initial mem) where
  status := rfl
  table := nofun
  selected := nofun
  transfer := nofun

theorem step_inv {t t' : Trace} {c : Call} (hinv : Inv vmBaseDiff t)
    (h : step vmBaseDiff t c = some t') : Inv vmBaseDiff t' := by
  obtain ⟨hstatus, htable, hselected, htransfer⟩ := hinv
  cases c with
  | reset =>
    simp only [step, call, Option.map_some, Option.some.injEq] at h
    subst h
    exact ⟨rfl, nofun, nofun, nofun⟩
  | get =>
    simp only [step, call, scsiGet, Option.map_some, Option.some.injEq] at h
    subst h
    split
    · exact ⟨hstatus, htable, hselected, htransfer⟩
    · exact ⟨rfl, fun _ => rfl, nofun, nofun⟩
  | select id present =>
    simp only [step, call, scsiSelect, Option.map_some, Option.some.injEq] at h
    subst h
    split_ifs with hphase hid hpresent
    · exact ⟨hstatus, htable, hselected, htransfer⟩
    · subst hpresent
      refine ⟨rfl, fun _ => htable ?_, fun _ => ⟨_, rfl⟩, nofun⟩
      rw [not_not.mp hphase]
      nofun
    · exact ⟨rfl, nofun, nofun, nofun⟩
    · exact ⟨rfl, nofun, nofun, nofun⟩
  | cmd cmdLength cmd targetSet =>
    simp only [step, call, scsiCmd, Option.map_some, Option.some.injEq] at h
    subst h
    split_ifs with hphase hlength hset
    · exact ⟨hstatus, htable, hselected, htransfer⟩
    · exact ⟨hstatus, htable, hselected, htransfer⟩
    · subst hset
      have hphase := not_not.mp hphase
      obtain ⟨earlier, hhost⟩ := hselected hphase
      refine ⟨rfl, fun _ => htable (by rw [hphase]; nofun), nofun, fun _ => ?_⟩
      exact commandSet_append hhost _ _
    · exact ⟨rfl, nofun, nofun, nofun⟩
  | readWrite d fuel tib =>
    obtain ⟨_, rfl⟩ | ⟨hphase, rs, s, r, hadd, honly, rfl⟩ := step_readWrite h
    · exact ⟨hstatus, htable, hselected, htransfer⟩
    · have hasked := SgTable.addAll_append.mpr ⟨_, htable (by rw [hphase]; nofun), hadd⟩
      rw [OnlyTransfers] at honly
      rw [honly]
      refine ⟨?_, fun _ => hasked, ?_, ?_⟩
      · simpa using hstatus
      · simpa using hselected
      · simpa using htransfer
  | complete timeout message stat answer =>
    simp only [step, call, scsiComplete, Option.map_some, Option.some.injEq] at h
    subst h
    split
    · exact ⟨hstatus, htable, hselected, htransfer⟩
    · exact ⟨rfl, nofun, nofun, nofun⟩
  | guest mem =>
    simp only [step, call, Option.map_some, Option.some.injEq] at h
    subst h
    exact ⟨hstatus, htable, hselected, htransfer⟩

theorem reaches_inv {guard : Trace → Call → Prop} {mem : Mem} {t : Trace}
    (h : Reaches (step vmBaseDiff) guard (.initial mem) t) : Inv vmBaseDiff t :=
  h.invariant (initial_inv mem) fun hinv _ hstep => step_inv hinv hstep

theorem step_complete {t t' : Trace} {timeout message stat : Word} {answer : SendAnswer}
    (hphase : t.scsi.phase = .transfer)
    (h : step vmBaseDiff t (.complete timeout message stat answer) = some t') :
    t'.scsi.host = t.scsi.host ++ [.sendCmd t.scsi.table t.scsi.reading timeout] ∧
      t'.scsi.phase = .free := by
  simp only [step, call, scsiComplete, hphase, Option.map_some, Option.some.injEq, ne_eq,
    not_true_eq_false, ite_false] at h
  subst h
  exact ⟨rfl, rfl⟩

-- ---------------------------------------------------------------------------
-- The bytes that are transferred
-- ---------------------------------------------------------------------------

/-- The table handed to the host describes what the instructions of the command asked for exactly
when they asked for less than 2^32 bytes. -/
theorem complete_describes_iff {mem : Mem} {t t' : Trace} {timeout message stat : Word}
    {answer : SendAnswer} (h : Reaches (step vmBaseDiff) (fun _ _ => True) (.initial mem) t)
    (hphase : t.scsi.phase = .transfer)
    (hstep : step vmBaseDiff t (.complete timeout message stat answer) = some t') :
    ∃ table reading, t'.scsi.host = t.scsi.host ++ [.sendCmd table reading timeout] ∧
      (Describes vmBaseDiff table t.asked ∧ LoopCounts vmBaseDiff ∧ IncAdvances vmBaseDiff ↔
        asks t.asked < 2 ^ 32) := by
  refine ⟨_, _, (step_complete hphase hstep).1, ?_⟩
  have htable := (reaches_inv h).table (by rw [hphase]; nofun)
  rw [← describes_iff htable]
  exact ⟨fun hall => hall.1, fun hdesc => ⟨hdesc, loopCounts, incAdvances⟩⟩

/-- The memory image of a block. -/
def block (is : List Instr) : Mem :=
  .ofBytes (is.flatMap fun i => [i.cmd.extractLsb' 8 8, i.cmd.extractLsb' 0 8] ++ i.ptr.bytes ++
    i.len.bytes)

/-- The calls up to the block at address zero. -/
def readBlock (fuel : Nat) : List Call :=
  [.get, .select 0 true, .cmd 6 (fun _ => 0#8) true, .readWrite .read fuel 0]

/-- Two passes over a sector buffer that `scInc` advances. -/
def sectorsBlock : Mem := block [⟨1, 0x1000, 512⟩, ⟨5, -10, 2⟩, ⟨7, 0, 0⟩]

/-- The phase, the table and the record after the block at address zero. -/
def afterBlock (fuel : Nat) (mem : Mem) : Option (Phase × SgTable × List Range) :=
  (run (step 0) (.initial mem) (readBlock fuel)).map fun t => (t.scsi.phase, t.scsi.table, t.asked)

theorem exists_of_afterBlock {fuel : Nat} {mem : Mem} {phase : Phase} {table : SgTable}
    {asked : List Range} (h : afterBlock fuel mem = some (phase, table, asked)) :
    ∃ t, Reaches (step 0) (fun _ _ => True) (.initial mem) t ∧ t.scsi.phase = phase ∧
      t.scsi.table = table ∧ t.asked = asked := by
  obtain ⟨t, hrun, ht⟩ := Option.map_eq_some_iff.mp h
  simp only [Prod.mk.injEq] at ht
  exact ⟨t, reaches_of_run hrun, ht⟩

theorem sectors_described : ∃ t t', Reaches (step 0) (fun _ _ => True) (.initial sectorsBlock) t ∧
    t.scsi.phase = .transfer ∧ t.asked = [⟨0x1000, 512⟩, ⟨0x1200, 512⟩] ∧
    step 0 t (.complete 60 100 102 ⟨true, 0, sectorsBlock⟩) = some t' ∧
    ∃ table reading, t'.scsi.host = t.scsi.host ++ [.sendCmd table reading 60] ∧
      Describes 0 table t.asked ∧ LoopCounts 0 ∧ IncAdvances 0 := by
  obtain ⟨t, hreach, hphase, -, hasked⟩ := exists_of_afterBlock
    (show afterBlock 5 sectorsBlock = some (.transfer, ⟨[⟨0x1000, 1024⟩], 1024⟩,
      [⟨0x1000, 512⟩, ⟨0x1200, 512⟩]) by decide +kernel)
  refine ⟨t, _, hreach, hphase, hasked, rfl, ?_⟩
  obtain ⟨table, reading, hhost, hiff⟩ := complete_describes_iff hreach hphase
    (show step 0 t (.complete 60 100 102 ⟨true, 0, sectorsBlock⟩) = some _ from rfl)
  refine ⟨table, reading, hhost, hiff.mpr ?_⟩
  rw [hasked]
  decide

/-- Two adjacent ranges of 2 GiB. -/
def hugeBlock : Mem := block [⟨2, 0, 0x80000000⟩, ⟨2, 0x80000000, 0x80000000⟩, ⟨7, 0, 0⟩]

/-- Their merged entry has length zero. -/
theorem hugeBlock_not_described : ∃ t t',
    Reaches (step 0) (fun _ _ => True) (.initial hugeBlock) t ∧ t.scsi.phase = .transfer ∧
    t.asked = [⟨0, 0x80000000⟩, ⟨0x80000000, 0x80000000⟩] ∧
    step 0 t (.complete 60 100 102 ⟨true, 0, hugeBlock⟩) = some t' ∧
    ∃ reading, t'.scsi.host = t.scsi.host ++ [.sendCmd ⟨[⟨0, 0⟩], 0⟩ reading 60] ∧
      ¬ Describes 0 ⟨[⟨0, 0⟩], 0⟩ t.asked := by
  obtain ⟨t, hreach, hphase, htable, hasked⟩ := exists_of_afterBlock
    (show afterBlock 3 hugeBlock = some (.transfer, ⟨[⟨0, 0⟩], 0⟩,
      [⟨0, 0x80000000⟩, ⟨0x80000000, 0x80000000⟩]) by decide +kernel)
  refine ⟨t, _, hreach, hphase, hasked, rfl, t.scsi.reading, ?_, ?_⟩
  · rw [(step_complete hphase rfl).1, htable]
  · rintro ⟨-, hbytes, -⟩
    have hlength := congrArg List.length hbytes
    rw [SgTable.length_bytes, length_asked, hasked] at hlength
    exact absurd hlength (by decide)

end SheepShear.Scsi
