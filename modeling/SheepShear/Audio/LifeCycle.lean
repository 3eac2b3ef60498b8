import SheepShear.Audio.Component

/-!
# The life cycle of the sound output component

The stream is entered with the first instance of the component and left with the
last one, which also gives back the mixer and the data area, unless the mixer is
open then: the close of the last instance returns right after closing it.
-/

namespace SheepShear.Audio

variable {f : Formats} {g : Guest} {dev : Device} {s s' : State}

/-- The component before its first instance is opened. -/
structure Idle (s : State) : Prop where
  openCount : s.openCount = 0
  audioData : s.audioData = 0
  held : s.held = []
  mixer : s.status.mixer = 0
  numSources : s.status.numSources = 0

/-- The calls alternate, starting with `audio_enter_stream`. -/
def Alternates (calls : List StreamCall) : Prop :=
  calls.IsChain (· ≠ ·) ∧ calls.head? ≠ some .exit

def Entered (s : State) : Prop := s.stream.getLast? = some .enter

theorem Alternates.enter {calls : List StreamCall} (h : Alternates calls)
    (hlast : calls.getLast? ≠ some .enter) : Alternates (calls ++ [.enter]) := by
  obtain ⟨hchain, hhead⟩ := h
  refine ⟨List.isChain_append.mpr ⟨hchain, List.isChain_singleton _, ?_⟩, ?_⟩
  · rintro x hx y ⟨⟩ rfl
    exact hlast hx
  · cases calls with
    | nil => simp
    | cons c cs => exact hhead

theorem Alternates.exit {calls : List StreamCall} (h : Alternates calls)
    (hlast : calls.getLast? = some .enter) : Alternates (calls ++ [.exit]) := by
  obtain ⟨hchain, hhead⟩ := h
  refine ⟨List.isChain_append.mpr ⟨hchain, List.isChain_singleton _, ?_⟩, ?_⟩
  · rintro x hx y ⟨⟩ rfl
    rw [hlast] at hx
    cases hx
  · cases calls with
    | nil => cases hlast
    | cons c cs => exact hhead

-- ---------------------------------------------------------------------------
-- The data area
-- ---------------------------------------------------------------------------

theorem writeWords_snd (m : Mem) (p : Word) (ws : List (BitVec 16)) :
    (writeWords m p ws).2 = p + BitVec.ofNat 32 (2 * ws.length) := by
  induction ws generalizing m p with
  | nil => simp [writeWords]
  | cons w ws ih =>
    rw [writeWords, ih, List.length_cons, add_assoc, Nat.mul_add, Nat.add_comm, BitVec.ofNat_add]
    rfl

/-- The offsets of the routines are those that the lengths of the routines before give. -/
def OffsetsFit : Word → List (List (BitVec 16) × Word) → Prop
  | _, [] => True
  | at_, (ws, offset) :: rest => at_ + BitVec.ofNat 32 (2 * ws.length) = offset ∧ OffsetsFit offset rest

theorem putRoutines_isSome (audioData : Word) (m : Mem) {at_ : Word}
    {rs : List (List (BitVec 16) × Word)} (h : OffsetsFit at_ rs) :
    ∃ m', putRoutines audioData m (audioData + at_) rs = some m' := by
  induction rs generalizing m at_ with
  | nil => exact ⟨m, rfl⟩
  | cons r rest ih =>
    obtain ⟨ws, offset⟩ := r
    obtain ⟨rfl, hrest⟩ := h
    have hp := writeWords_snd m (audioData + at_) ws
    rw [add_assoc] at hp
    obtain ⟨m', hm'⟩ := ih (writeWords m (audioData + at_) ws).1 hrest
    refine ⟨m', ?_⟩
    rw [putRoutines]
    simp only [hp, add_sub_cancel_left, ne_eq, not_true_eq_false, if_false]
    exact hm'

theorem routines_fit : OffsetsFit adatDelegateCall routines := by
  simp only [OffsetsFit, routines]
  decide

-- ---------------------------------------------------------------------------
-- The invariant
-- ---------------------------------------------------------------------------

structure Inv (s : State) : Prop where
  count : 0 ≤ s.openCount
  alternates : Alternates s.stream
  entered : Entered s ↔ 0 < s.openCount
  held : s.held = if s.audioData = 0 then [] else [s.audioData]

/-- A call that opens and closes nothing. -/
structure Quiet (s s' : State) : Prop where
  openCount : s'.openCount = s.openCount
  stream : s'.stream = s.stream
  audioData : s'.audioData = s.audioData
  held : s'.held = s.held

theorem Quiet.inv (h : Quiet s s') (hinv : Inv s) : Inv s' := by
  obtain ⟨hcount, hstream, hdata, hheld⟩ := h
  refine ⟨hcount ▸ hinv.count, hstream ▸ hinv.alternates, ?_, ?_⟩
  · rw [Entered, hstream, hcount]
    exact hinv.entered
  · rw [hheld, hdata]
    exact hinv.held

theorem Idle.inv (h : Idle s) (hstream : s.stream = []) : Inv s := by
  refine ⟨h.openCount.ge, ?_, ?_, ?_⟩
  · rw [hstream]
    exact ⟨.nil, nofun⟩
  · simp [Entered, hstream, h.openCount]
  · simp [h.held, h.audioData]

theorem getInfo_quiet (infoPtr selector sourceID : Word) :
    Quiet s (getInfo f g dev s infoPtr selector sourceID).2 := by
  unfold getInfo
  split <;> first | exact ⟨rfl, rfl, rfl, rfl⟩ | skip
  split_ifs <;> exact ⟨rfl, rfl, rfl, rfl⟩

theorem deviceOpen_quiet : Quiet s (deviceOpen f dev s).2 := by
  unfold deviceOpen
  split_ifs <;> exact ⟨rfl, rfl, rfl, rfl⟩

theorem setParameter_quiet (current infoPtr invalid : Word) (values : List Word)
    {set : State → Nat → Bool × State} (hset : ∀ i, Quiet s (set s i).2) :
    Quiet s (setParameter s current infoPtr invalid values set).2 := by
  unfold setParameter
  split_ifs
  · exact ⟨rfl, rfl, rfl, rfl⟩
  · exact ⟨rfl, rfl, rfl, rfl⟩
  · split
    · exact ⟨rfl, rfl, rfl, rfl⟩
    next i _ => exact hset i

theorem setInfo_quiet (infoPtr selector sourceID : Word) :
    Quiet s (setInfo f g dev s infoPtr selector sourceID).2 := by
  have hset : ∀ s₁ : State, Quiet s s₁ → Quiet s (deviceOpen f dev s₁).2 := by
    intro s₁ h
    have h' : Quiet s₁ (deviceOpen f dev s₁).2 := deviceOpen_quiet
    exact ⟨h'.1.trans h.1, h'.2.trans h.2, h'.3.trans h.3, h'.4.trans h.4⟩
  unfold setInfo
  split
  · exact setParameter_quiet _ _ _ _ fun i => hset _ ⟨rfl, rfl, rfl, rfl⟩
  · exact setParameter_quiet _ _ _ _ fun i => hset _ ⟨rfl, rfl, rfl, rfl⟩
  · exact setParameter_quiet _ _ _ _ fun i => hset _ ⟨rfl, rfl, rfl, rfl⟩
  all_goals first | exact ⟨rfl, rfl, rfl, rfl⟩ | skip
  split_ifs <;> exact ⟨rfl, rfl, rfl, rfl⟩

theorem initOutputDevice_quiet : Quiet s (initOutputDevice f g s).2 := by
  unfold initOutputDevice
  split_ifs <;> exact ⟨rfl, rfl, rfl, rfl⟩

theorem enterComponent_inv (h : Inv s) : Inv (enterComponent s) := by
  have hcount := h.count
  refine ⟨by simp only [enterComponent]; omega, ?_, ?_, h.held⟩
  · simp only [enterComponent]
    split_ifs with hzero
    · refine h.alternates.enter fun hlast => ?_
      have := h.entered.mp hlast
      omega
    · exact h.alternates
  · simp only [enterComponent, Entered]
    split_ifs with hzero
    · simp [hzero]
    · have hentered := h.entered
      rw [Entered] at hentered
      rw [hentered]
      omega

theorem openComponent_spec (h : Inv s) :
    ∃ r s', openComponent g s = some (r, s') ∧ Inv s' ∧ (0 < s.openCount → 0 < s'.openCount) := by
  unfold openComponent
  split_ifs with hdata
  · dsimp only
    split_ifs with hnone
    · exact ⟨_, _, rfl, ⟨h.count, h.alternates, h.entered, h.held⟩, id⟩
    · obtain ⟨m', hm'⟩ := putRoutines_isSome _ _ routines_fit
      rw [hm']
      refine ⟨_, _, rfl, enterComponent_inv ?_, ?_⟩
      · refine ⟨h.count, h.alternates, h.entered, ?_⟩
        have hheld := h.held
        rw [if_pos hdata] at hheld
        rw [if_neg hnone, hheld]
      · simp only [enterComponent]
        omega
  · refine ⟨_, _, rfl, enterComponent_inv h, ?_⟩
    simp only [enterComponent]
    omega

/-- The close of an instance that is not the last one, or finds the mixer closed. -/
theorem closeComponent_spec (h : Inv s) (hopen : 0 < s.openCount)
    (hmixer : s.openCount = 1 → s.status.mixer = 0) :
    Inv (closeComponent g s).2 ∧
      ((closeComponent g s).2.openCount = 0 → Idle (closeComponent g s).2) := by
  have hentered := h.entered.mpr hopen
  unfold closeComponent
  dsimp only
  split_ifs with hlast hopened hdata
  · exact absurd (hmixer (by omega)) hopened.2
  · have hheld := h.held
    rw [if_neg hdata] at hheld
    refine ⟨⟨hlast.ge, h.alternates.exit hentered, ?_, ?_⟩, fun _ => ?_⟩
    · simp [Entered, hlast]
    · simp [hheld]
    · exact ⟨hlast, rfl, by simp [hheld], hmixer (by omega), rfl⟩
  · rw [not_not] at hdata
    have hheld := h.held
    rw [if_pos hdata] at hheld
    refine ⟨⟨hlast.ge, h.alternates.exit hentered, ?_, ?_⟩, fun _ => ?_⟩
    · simp [Entered, hlast]
    · simp [hheld, hdata]
    · exact ⟨hlast, hdata, hheld, hmixer (by omega), rfl⟩
  · refine ⟨⟨?_, h.alternates, ?_, h.held⟩, fun hzero => absurd hzero hlast⟩
    · dsimp only
      omega
    · refine iff_of_true hentered ?_
      dsimp only
      omega

-- ---------------------------------------------------------------------------
-- Runs
-- ---------------------------------------------------------------------------

/-- A call of `Dispatch`, with what the guest and the host do during it. -/
structure Call where
  guest : Guest
  device : Device
  params : Word

def dispatchCall (f : Formats) (s : State) (c : Call) : Option (Word × State) :=
  dispatch f c.guest c.device c.params s

def step (f : Formats) (s : State) (c : Call) : Option State := (dispatchCall f s c).map Prod.snd

/-- No instance is closed that was not opened. -/
def Matched (s : State) (c : Call) : Prop := selectorOf s c.params = .close → 0 < s.openCount

/-- The last instance is not closed while the mixer is open. -/
def MixerClosed (s : State) (c : Call) : Prop :=
  selectorOf s c.params = .close → s.openCount = 1 → s.status.mixer = 0

instance (s : State) (c : Call) : Decidable (Matched s c) :=
  inferInstanceAs (Decidable (selectorOf s c.params = .close → 0 < s.openCount))

instance (s : State) (c : Call) : Decidable (MixerClosed s c) :=
  inferInstanceAs
    (Decidable (selectorOf s c.params = .close → s.openCount = 1 → s.status.mixer = 0))

def Guard (s : State) (c : Call) : Prop := Matched s c ∧ MixerClosed s c

theorem dispatch_spec (h : Inv s) {c : Call} (hguard : Guard s c) :
    ∃ r s', dispatchCall f s c = some (r, s') ∧ Inv s' ∧
      (0 < s.openCount → s'.openCount = 0 → Idle s') := by
  obtain ⟨hmatched, hmixer⟩ := hguard
  have hquiet : ∀ {r : Word} {s' : State}, Quiet s s' → ∃ r₁ s₁, some (r, s') = some (r₁, s₁) ∧
      Inv s₁ ∧ (0 < s.openCount → s₁.openCount = 0 → Idle s₁) := by
    intro r s' hq
    refine ⟨r, s', rfl, hq.inv h, fun hopen hzero => ?_⟩
    rw [hq.openCount] at hzero
    omega
  rw [dispatchCall, dispatch]
  unfold Matched at hmatched
  unfold MixerClosed at hmixer
  cases hsel : selectorOf s c.params with
  | «open» =>
    obtain ⟨r, s', heq, hinv, hopen⟩ := openComponent_spec (g := c.guest) h
    refine ⟨r, s', heq, hinv, fun hpos hzero => ?_⟩
    have := hopen hpos
    omega
  | close =>
    obtain ⟨hinv, hidle⟩ := closeComponent_spec (g := c.guest) h (hmatched hsel) (hmixer hsel)
    exact ⟨_, _, rfl, hinv, fun _ => hidle⟩
  | initOutputDevice => exact hquiet initOutputDevice_quiet
  | getInfo => exact hquiet (getInfo_quiet _ _ _)
  | setInfo => exact hquiet (setInfo_quiet _ _ _)
  | canDo | version | register | getSource | bad => exact hquiet ⟨rfl, rfl, rfl, rfl⟩
  | addSource | removeSource | startSource | stopSource | pauseSource | playSourceBuffer
  | delegated => exact hquiet ⟨rfl, rfl, rfl, rfl⟩

/-- In all runs that close the mixer in time the stream is entered and left in turns, it is entered
exactly while there are instances, and each close of the last one leaves the component idle. -/
theorem lifeCycle_balanced {s₀ : State} (hidle : Idle s₀) (hstream : s₀.stream = [])
    (hrun : Steps.Reaches (step f) Guard s₀ s) :
    Alternates s.stream ∧ (Entered s ↔ 0 < s.openCount) ∧
      ∀ c, Guard s c → ∃ r s', dispatchCall f s c = some (r, s') ∧
        (0 < s.openCount → s'.openCount = 0 → Idle s') := by
  have hinv : Inv s := by
    refine hrun.invariant (hidle.inv hstream) ?_
    intro s s' c hinv hguard hstep
    obtain ⟨r, s₁, hcall, hinv', -⟩ := dispatch_spec (f := f) hinv hguard
    rw [step, hcall] at hstep
    cases hstep
    exact hinv'
  refine ⟨hinv.alternates, hinv.entered, fun c hguard => ?_⟩
  obtain ⟨r, s', hcall, -, hclosed⟩ := dispatch_spec (f := f) hinv hguard
  exact ⟨r, s', hcall, hclosed⟩

/-- Gives out the block at `0x1000` and a mixer at `0x2000`. -/
def mixerGuest : Guest where
  execute68k pc r m := if pc = 0x1000 + adatOpenMixer then (r, m.writeInt32 r.a0 0x2000) else (r, m)
  execute68kTrap trap r m := if trap = 0xa31e then ({ r with a0 := 0x1000 }, m) else (r, m)

/-- The component with the parameters of calls in memory: an open at `0x100`, an `InitOutputDevice`
at `0x110` and a close at `0x120`. -/
def idleComponent : State where
  mem a :=
    if a = 0x102 ∨ a = 0x103 ∨ a = 0x122 then 0xff
    else if a = 0x113 then 1
    else if a = 0x123 then 0xfe
    else 0
  audioData := 0
  openCount := 0
  audioOpen := true
  status := ⟨44100 <<< 16, 16, 2, 0, 0⟩
  sampleRateIndex := 0
  sampleSizeIndex := 0
  channelCountIndex := 0
  stream := []
  held := []

def cdFormats : Formats := ⟨[44100 <<< 16], [16], [2], 4096⟩

def mixerCall (params : Word) : Call := ⟨mixerGuest, ⟨true, false, 0, false, 0⟩, params⟩

theorem idleComponent_idle : Idle idleComponent := ⟨rfl, rfl, rfl, rfl, rfl⟩

theorem openClose_idle :
    ∃ s r s', Steps.run (step cdFormats) idleComponent [mixerCall 0x100] = some s ∧
      dispatchCall cdFormats s (mixerCall 0x120) = some (r, s') ∧ s'.openCount = 0 ∧ Idle s' := by
  have hrun : Steps.run (step cdFormats) idleComponent [mixerCall 0x100] = some _ := rfl
  have hguarded : Steps.Guarded (step cdFormats) Guard idleComponent [mixerCall 0x100] :=
    ⟨⟨by decide, by decide⟩, trivial⟩
  have hreach := Steps.Reaches.start.run_append hrun hguarded
  obtain ⟨-, -, hcall⟩ := lifeCycle_balanced idleComponent_idle rfl hreach
  obtain ⟨r, s', hdispatch, hidle⟩ := hcall (mixerCall 0x120) ⟨by decide, by decide⟩
  have hcount : s'.openCount = 0 := by
    cases hdispatch
    rfl
  exact ⟨_, r, s', hrun, hdispatch, hcount, hidle (by decide) hcount⟩

/-- The mixer is opened, and still is when the only instance is closed; then the component is opened
once more. -/
theorem closeWithMixer_unbalanced :
    ∃ s s', Steps.run (step cdFormats) idleComponent
        [mixerCall 0x100, mixerCall 0x110, mixerCall 0x120] = some s ∧
      Steps.Guarded (step cdFormats) Matched idleComponent
        [mixerCall 0x100, mixerCall 0x110, mixerCall 0x120] ∧
      s.openCount = 0 ∧ s.audioData = 0x1000 ∧ Entered s ∧
      step cdFormats s (mixerCall 0x100) = some s' ∧ s'.stream = [.enter, .enter] ∧
      ¬ Alternates s'.stream := by
  refine ⟨_, _, rfl, ⟨by decide, by decide, by decide, trivial⟩, rfl, rfl, rfl, rfl, rfl, ?_⟩
  rintro ⟨hchain, -⟩
  exact absurd hchain (by decide)

end SheepShear.Audio
