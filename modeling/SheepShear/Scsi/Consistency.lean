import SheepShear.Scsi.Transfers

/-!
# Consistency of the SCSI Manager

What every call leaves in every run. `SCSIRead` sets a flag that only `SCSIGet`
clears, so the direction that is sent is right as long as a command is only
read from or only written to.
-/

namespace SheepShear.Scsi

open Steps

variable {vmBaseDiff : Word}

/-- One call in a run. -/
structure Consistent (vmBaseDiff : Word) (t : Trace) (c : Call) (t' : Trace) : Prop where
  /-- The status word follows the phase. -/
  status : t'.scsi.fakeStatus = t'.scsi.phase.status
  /-- A call in the wrong phase fails and changes nothing of the bus or the table. -/
  wrongPhase : ∀ p, c.phase = some p → t.scsi.phase ≠ p →
    t'.result ≠ .noErr ∧ t'.scsi.phase = t.scsi.phase ∧ t'.scsi.fakeStatus = t.scsi.fakeStatus ∧
      t'.scsi.targetId = t.scsi.targetId ∧ t'.scsi.table = t.scsi.table
  /-- A target that cannot be selected leaves the bus free. -/
  selectFailed : ∀ id present, c = .select id present → t.scsi.phase = .arbitrated →
    t'.result ≠ .noErr → t'.scsi.phase = .free ∧ (scsiGet t'.scsi).1 = .noErr
  /-- So does a command that is completed. -/
  completed : ∀ timeout message stat answer, c = .complete timeout message stat answer →
    t.scsi.phase = .transfer → t'.scsi.phase = .free ∧ (scsiGet t'.scsi).1 = .noErr
  /-- A command goes to the host after it was set for a target that is there, with the ranges the
  executed instructions asked for since `SCSIGet` and the direction of the calls. When the blocks
  that failed had asked for nothing, these are the ranges of the blocks that returned zero. -/
  sent : ∀ added, t'.scsi.host = t.scsi.host ++ added →
    ∀ table reading timeout, .sendCmd table reading timeout ∈ added →
      CommandSet t.scsi.host ∧ SgTable.empty.addAll vmBaseDiff t.asked = some table ∧
        (∀ d ∈ t.directions, reading = d.reading) ∧
        (t.completed = t.asked → SgTable.empty.addAll vmBaseDiff t.completed = some table)

/-- For one command the guest makes only `SCSIRead` calls or only `SCSIWrite` calls. -/
def OneDirection (t : Trace) : Call → Prop
  | .readWrite d _ _ => t.scsi.phase = .transfer → ∀ d' ∈ t.directions, d' = d
  | _ => True

/-- The flag says which of the two it was. -/
structure DirectionInv (t : Trace) : Prop where
  same : t.scsi.phase ≠ .free → ∀ d ∈ t.directions, t.scsi.reading = d.reading
  none : t.scsi.phase ≠ .free → t.directions = [] → t.scsi.reading = false

theorem initial_directionInv (mem : Mem) : DirectionInv (.initial mem) := ⟨nofun, nofun⟩

theorem DirectionInv.of_free {t : Trace} (h : t.scsi.phase = .free) : DirectionInv t :=
  ⟨fun hbusy => absurd h hbusy, fun hbusy => absurd h hbusy⟩

theorem step_directionInv {t t' : Trace} {c : Call} (hinv : DirectionInv t)
    (hguard : OneDirection t c) (h : step vmBaseDiff t c = some t') : DirectionInv t' := by
  obtain ⟨hsame, hnone⟩ := hinv
  cases c with
  | reset =>
    simp only [step, call, Option.map_some, Option.some.injEq] at h
    subst h
    exact .of_free rfl
  | get =>
    simp only [step, call, scsiGet, Option.map_some, Option.some.injEq] at h
    subst h
    split
    · exact ⟨hsame, hnone⟩
    · exact ⟨fun _ _ hd => absurd hd List.not_mem_nil, fun _ _ => rfl⟩
  | select id present =>
    simp only [step, call, scsiSelect, Option.map_some, Option.some.injEq] at h
    subst h
    split_ifs with hphase hid hpresent
    · exact ⟨hsame, hnone⟩
    · have hbusy : t.scsi.phase ≠ .free := by
        rw [not_not.mp hphase]
        decide
      exact ⟨fun _ => hsame hbusy, fun _ => hnone hbusy⟩
    · exact .of_free rfl
    · exact .of_free rfl
  | cmd cmdLength cmd targetSet =>
    simp only [step, call, scsiCmd, Option.map_some, Option.some.injEq] at h
    subst h
    split_ifs with hphase hlength hset
    · exact ⟨hsame, hnone⟩
    · exact ⟨hsame, hnone⟩
    · have hbusy : t.scsi.phase ≠ .free := by
        rw [not_not.mp hphase]
        decide
      exact ⟨fun _ => hsame hbusy, fun _ => hnone hbusy⟩
    · exact .of_free rfl
  | readWrite d fuel tib =>
    obtain ⟨_, rfl⟩ | ⟨hphase, rs, s, r, _, honly, rfl⟩ := step_readWrite h
    · exact ⟨hsame, hnone⟩
    · have hbusy : t.scsi.phase ≠ .free := by
        rw [hphase]
        decide
      have hall : ∀ d' ∈ t.directions, d' = d := hguard hphase
      have hreading : s.reading = d.reading := by
        rw [OnlyTransfers] at honly
        rw [honly]
        cases d with
        | read => rfl
        | write =>
          -- `SCSIWrite` leaves the flag: it is right because no `SCSIRead` came before
          cases hd : t.directions with
          | nil => exact hnone hbusy hd
          | cons d' ds =>
            have hmem : d' ∈ t.directions := hd ▸ List.mem_cons_self
            exact (hsame hbusy d' hmem).trans (congrArg Direction.reading (hall d' hmem))
      refine ⟨fun _ d' hd' => ?_, fun _ hnil => absurd hnil (by simp)⟩
      obtain hd' | hd' := List.mem_append.mp hd'
      · rw [hall d' hd']
        exact hreading
      · rw [List.mem_singleton.mp hd']
        exact hreading
  | complete timeout message stat answer =>
    simp only [step, call, scsiComplete, Option.map_some, Option.some.injEq] at h
    subst h
    split
    · exact ⟨hsame, hnone⟩
    · exact .of_free rfl
  | guest mem =>
    simp only [step, call, Option.map_some, Option.some.injEq] at h
    subst h
    exact ⟨hsame, hnone⟩

-- ---------------------------------------------------------------------------
-- Each call
-- ---------------------------------------------------------------------------

theorem step_wrongPhase {t t' : Trace} {c : Call} {p : Phase}
    (h : step vmBaseDiff t c = some t') (hp : c.phase = some p) (hphase : t.scsi.phase ≠ p) :
    t'.result ≠ .noErr ∧ t'.scsi.phase = t.scsi.phase ∧ t'.scsi.fakeStatus = t.scsi.fakeStatus ∧
      t'.scsi.targetId = t.scsi.targetId ∧ t'.scsi.table = t.scsi.table := by
  cases c with
  | reset | guest => cases hp
  | get | select | cmd =>
    cases hp
    simp only [step, call, scsiGet, scsiSelect, scsiCmd, Option.map_some, Option.some.injEq,
      if_pos hphase] at h
    subst h
    exact ⟨by simp, rfl, rfl, rfl, rfl⟩
  | readWrite d fuel tib =>
    cases hp
    obtain ⟨_, rfl⟩ | ⟨htransfer, _⟩ := step_readWrite h
    · exact ⟨by simp, rfl, rfl, rfl, rfl⟩
    · exact absurd htransfer hphase
  | complete timeout message stat answer =>
    cases hp
    simp only [step, call, scsiComplete, Option.map_some, Option.some.injEq, if_pos hphase] at h
    subst h
    exact ⟨by simp, rfl, rfl, rfl, rfl⟩

theorem scsiGet_of_free {s : Manager} (h : s.phase = .free) : (scsiGet s).1 = .noErr := by
  simp [scsiGet, h]

theorem step_selectFailed {t t' : Trace} {id : Int} {present : Bool}
    (h : step vmBaseDiff t (.select id present) = some t') (hphase : t.scsi.phase = .arbitrated)
    (hfailed : t'.result ≠ .noErr) : t'.scsi.phase = .free := by
  simp only [step, call, scsiSelect, Option.map_some, Option.some.injEq, hphase, ne_eq,
    not_true_eq_false, ite_false] at h
  subst h
  split_ifs at hfailed ⊢ with hid hpresent
  · exact absurd rfl hfailed
  · rfl
  · rfl

/-- Only `SCSIComplete` in the transfer phase sends a command. -/
theorem step_sent {t t' : Trace} {c : Call} {added : List HostCall} {table : SgTable}
    {reading : Bool} {timeout : Word} (h : step vmBaseDiff t c = some t')
    (hadded : t'.scsi.host = t.scsi.host ++ added)
    (hsent : .sendCmd table reading timeout ∈ added) :
    t.scsi.phase = .transfer ∧ table = t.scsi.table ∧ reading = t.scsi.reading := by
  have hquiet : t'.scsi.host = t.scsi.host → False := by
    intro heq
    rw [heq, List.self_eq_append_right] at hadded
    rw [hadded] at hsent
    cases hsent
  cases c with
  | reset | guest =>
    simp only [step, call, Option.map_some, Option.some.injEq] at h
    subst h
    exact (hquiet rfl).elim
  | get =>
    simp only [step, call, scsiGet, Option.map_some, Option.some.injEq] at h
    subst h
    refine (hquiet ?_).elim
    split <;> rfl
  | select id present =>
    simp only [step, call, scsiSelect, Option.map_some, Option.some.injEq] at h
    subst h
    split_ifs at hadded hquiet with hphase hid hpresent
    · exact (hquiet rfl).elim
    · cases List.append_cancel_left hadded
      simp at hsent
    · cases List.append_cancel_left hadded
      simp at hsent
    · exact (hquiet rfl).elim
  | cmd cmdLength cmd targetSet =>
    simp only [step, call, scsiCmd, Option.map_some, Option.some.injEq] at h
    subst h
    split_ifs at hadded hquiet with hphase hlength hset
    · exact (hquiet rfl).elim
    · exact (hquiet rfl).elim
    · cases List.append_cancel_left hadded
      simp at hsent
    · cases List.append_cancel_left hadded
      simp at hsent
  | readWrite d fuel tib =>
    obtain ⟨_, rfl⟩ | ⟨_, rs, s, r, _, honly, rfl⟩ := step_readWrite h
    · exact (hquiet rfl).elim
    · refine (hquiet ?_).elim
      rw [OnlyTransfers] at honly
      rw [honly]
      exact d.enter_host t.scsi
  | complete timeout' message stat answer =>
    by_cases hphase : t.scsi.phase = .transfer
    · rw [(step_complete hphase h).1] at hadded
      cases List.append_cancel_left hadded
      cases List.mem_singleton.mp hsent
      exact ⟨hphase, rfl, rfl⟩
    · simp only [step, call, scsiComplete, Option.map_some, Option.some.injEq, if_pos hphase] at h
      subst h
      exact (hquiet rfl).elim

/-- In every run that reads from or writes to each command, never both, every call is
consistent. -/
theorem calls_consistent {mem : Mem} {t t' : Trace} {c : Call}
    (h : Reaches (step vmBaseDiff) OneDirection (.initial mem) t) (hguard : OneDirection t c)
    (hstep : step vmBaseDiff t c = some t') : Consistent vmBaseDiff t c t' where
  status := (step_inv (reaches_inv h) hstep).status
  wrongPhase := fun _ hp hphase => step_wrongPhase hstep hp hphase
  selectFailed := by
    rintro id present rfl hphase hfailed
    have hfree := step_selectFailed hstep hphase hfailed
    exact ⟨hfree, scsiGet_of_free hfree⟩
  completed := by
    rintro timeout message stat answer rfl hphase
    obtain ⟨-, hfree⟩ := step_complete hphase hstep
    exact ⟨hfree, scsiGet_of_free hfree⟩
  sent := by
    intro added hadded table reading timeout hsent
    obtain ⟨hphase, rfl, rfl⟩ := step_sent hstep hadded hsent
    have hbusy : t.scsi.phase ≠ .free := by
      rw [hphase]
      nofun
    have hinv := reaches_inv h
    have hdir : DirectionInv t := h.invariant (initial_directionInv mem) step_directionInv
    refine ⟨hinv.transfer hphase, hinv.table hbusy, hdir.same hbusy, fun hcompleted => ?_⟩
    rw [hcompleted]
    exact hinv.table hbusy

/-- A block of one sector. -/
def sectorBlock : Mem := block [⟨2, 0x1000, 512⟩, ⟨7, 0, 0⟩]

def completeCall : Call := .complete 60 100 102 ⟨true, 0, sectorBlock⟩

theorem readSector_consistent : ∃ t t',
    run (step 0) (.initial sectorBlock) (readBlock 2) = some t ∧ step 0 t completeCall = some t' ∧
      Consistent 0 t completeCall t' := by
  obtain ⟨t, hrun⟩ : ∃ t, run (step 0) (.initial sectorBlock) (readBlock 2) = some t :=
    Option.isSome_iff_exists.mp (by decide +kernel)
  have hguarded : Guarded (step 0) OneDirection (.initial sectorBlock) (readBlock 2) :=
    ⟨trivial, trivial, trivial, nofun, trivial⟩
  exact ⟨t, _, hrun, rfl, calls_consistent (Reaches.start.run_append hrun hguarded) trivial rfl⟩

/-- A command that is read from and then written to is sent as a read. -/
theorem readThenWrite_inconsistent : ∃ t t',
    run (step 0) (.initial sectorBlock) (readBlock 2 ++ [.readWrite .write 2 0]) = some t ∧
      step 0 t completeCall = some t' ∧ ¬ Consistent 0 t completeCall t' := by
  obtain ⟨t, hrun, ht⟩ := Option.map_eq_some_iff.mp
    (show (run (step 0) (.initial sectorBlock) (readBlock 2 ++ [.readWrite .write 2 0])).map
      (fun t => (t.scsi.phase, t.scsi.reading, t.directions)) =
        some (.transfer, true, [.read, .write]) by decide +kernel)
  simp only [Prod.mk.injEq] at ht
  obtain ⟨hphase, hreading, hdirections⟩ := ht
  refine ⟨t, _, hrun, rfl, fun hconsistent => ?_⟩
  obtain ⟨hhost, -⟩ := @step_complete 0 t _ 60 100 102 ⟨true, 0, sectorBlock⟩ hphase rfl
  obtain ⟨-, -, hsame, -⟩ := hconsistent.sent _ hhost _ _ _ (List.mem_singleton_self _)
  have hwrite := hsame .write (by rw [hdirections]; decide)
  rw [hreading] at hwrite
  cases hwrite

end SheepShear.Scsi
