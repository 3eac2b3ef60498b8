import SheepShear.Lib.Bytes
import SheepShear.Lib.Buffer
import SheepShear.Lib.Steps

/-!
# Echo suppression of the Windows Ethernet driver

`ether_windows.cpp`: the frames written to a B2ETHER interface come back as
received frames. `write_packet` remembers frames in a small ring and
`packet_read_completion` drops a received frame that is found there. The index
of the ring never leaves slot 0, so that one frame is remembered and not four.
-/

namespace SheepShear.Ether.Echo

-- ---------------------------------------------------------------------------
-- The code
-- ---------------------------------------------------------------------------

def maxEcho : Nat := 4

/-- `sizeof(echo_t)` -/
def sizeofEcho : Nat := 1514

abbrev Frame := {bytes : List Byte // 0 < bytes.length ∧ bytes.length ≤ 1514}

/-- What became of a received frame: the frames written last when it arrived,
and what was passed to `enqueue_packet`. -/
structure Verdict where
  frame : Frame
  recent : List Frame
  passed : Option (List Byte)

structure State where
  echoCount : BitVec 32
  /-- The array of `MAX_ECHO` buffers as it lies in memory. -/
  pendingPacket : List Byte
  pendingPacketSz : List Nat
  /-- The frames written so far, the last one first. -/
  written : List Frame
  verdicts : List Verdict

def State.start : State where
  echoCount := 0
  pendingPacket := List.replicate (maxEcho * sizeofEcho) 0
  pendingPacketSz := List.replicate maxEcho 0
  written := []
  verdicts := []

/-- An access behind the end of an array. -/
inductive Overrun
  | pendingPacket
  | pendingPacketSz

/-- `allocated` tells whether `get_write_packet` found a packet to send. -/
def writePacket (s : State) (packet : Frame) (allocated : Bool) : Except Overrun State :=
  if allocated then do
    let k := s.echoCount.toNat
    let size := min (maxEcho * sizeofEcho) packet.val.length
    let sizes ← Buffer.write .pendingPacketSz s.pendingPacketSz k [size]
    let pending ← Buffer.write .pendingPacket s.pendingPacket (sizeofEcho * k)
      (packet.val.take size)
    return { s with
      echoCount := (s.echoCount + 1) &&& ~~~(BitVec.ofNat 32 (maxEcho - 1))
      pendingPacket := pending
      pendingPacketSz := sizes
      written := packet :: s.written }
  else return s

/-- The loop over the slots, backwards from `j`. -/
def isEcho (s : State) (buffer : List Byte) : (i j : Nat) → Except Overrun Bool
  | 0, _ => return false
  | i + 1, j => do
    let j := if j = 0 then maxEcho - 1 else j - 1
    let size ← Buffer.read .pendingPacketSz s.pendingPacketSz j 1
    if size = [buffer.length] then
      let pending ← Buffer.read .pendingPacket s.pendingPacket (sizeofEcho * j) buffer.length
      if pending = buffer then return true else isEcho s buffer i j
    else isEcho s buffer i j

/-- What is passed to `enqueue_packet`. -/
def packetReadCompletion (s : State) (threadActive : Bool) (errorCode : Word)
    (buffer : List Byte) : Except Overrun (Option (List Byte)) :=
  if threadActive ∧ errorCode = 0 then
    let count := min buffer.length 1514
    if count ≠ 0 then do
      let echo ← isEcho s (buffer.take count) maxEcho s.echoCount.toNat
      return if echo then none else some buffer
    else return none
  else return none

-- ---------------------------------------------------------------------------
-- Runs
-- ---------------------------------------------------------------------------

inductive Event
  | write (packet : Frame) (allocated : Bool)
  | received (frame : Frame)

/-- The frames that should be known. -/
def State.recent (s : State) : List Frame := s.written.take maxEcho

/-- One call; none when it accesses a byte outside its arrays. -/
def step (s : State) : Event → Option State
  | .write packet allocated => (writePacket s packet allocated).toOption
  | .received frame => (packetReadCompletion s true 0 frame.val).toOption.map fun passed =>
    { s with verdicts := ⟨frame, s.recent, passed⟩ :: s.verdicts }

/-- Dropped exactly when it is one of the last frames written, else passed on
unchanged. -/
def Verdict.Exact (v : Verdict) : Prop :=
  v.passed = if v.frame ∈ v.recent then none else some v.frame.val

/-- A received frame that is one of the last four written is the last one. -/
def NotOlder (s : State) : Event → Prop
  | .write _ _ => True
  | .received frame => frame ∈ s.recent → s.written.head? = some frame

-- ---------------------------------------------------------------------------
-- The invariant
-- ---------------------------------------------------------------------------

/-- Only slot 0 is ever used; it holds the frame written last. -/
structure Inv (s : State) : Prop where
  echoCount : s.echoCount = 0
  pending : s.pendingPacket.length = maxEcho * sizeofEcho
  sizes : s.pendingPacketSz = [(s.written.head?.map (·.val.length)).getD 0, 0, 0, 0]
  last : ∀ f, s.written.head? = some f → s.pendingPacket.take f.val.length = f.val

theorem inv_start : Inv State.start := by
  refine ⟨rfl, List.length_replicate .., rfl, ?_⟩
  rintro f ⟨⟩

theorem writePacket_eq {s : State} (hinv : Inv s) (packet : Frame) :
    ∃ s', writePacket s packet true = .ok s' ∧ s'.written = packet :: s.written ∧
      s'.verdicts = s.verdicts ∧ Inv s' := by
  obtain ⟨hcount, hpending, hsizes, -⟩ := hinv
  have hlen : packet.val.length ≤ sizeofEcho := packet.property.2
  have hmin : min (maxEcho * sizeofEcho) packet.val.length = packet.val.length :=
    min_eq_right (hlen.trans (by decide))
  have hwrite : Buffer.write Overrun.pendingPacketSz s.pendingPacketSz 0 [packet.val.length] =
      .ok [packet.val.length, 0, 0, 0] := by
    rw [hsizes]
    rfl
  have hfits : sizeofEcho * 0 + packet.val.length ≤ s.pendingPacket.length := by
    rw [hpending]
    exact (Nat.zero_add _).trans_le (hlen.trans (by decide))
  have hk : s.echoCount.toNat = 0 := by rw [hcount]; rfl
  rw [writePacket, if_pos rfl]
  simp only [hk, hmin, List.take_length, hwrite, Buffer.write_ok hfits, Except.ok_bind]
  refine ⟨_, rfl, rfl, rfl, ?_, ?_, rfl, ?_⟩
  · simp only [hcount]
    decide
  · exact (Buffer.length_overwrite hfits).trans hpending
  · rintro f ⟨⟩
    simp [Buffer.overwrite]

/-- The scan goes through the slots that no frame was ever written to, and then
compares with the last frame. -/
theorem isEcho_eq {s : State} (hinv : Inv s) (frame : Frame) :
    isEcho s frame.val maxEcho 0 = .ok (decide (s.written.head? = some frame)) := by
  obtain ⟨-, hpending, hsizes, hlast⟩ := hinv
  have hpos := frame.property.1
  have hne : ([0] : List Nat) ≠ [frame.val.length] := by
    intro h
    have := List.head_eq_of_cons_eq h
    omega
  have hskip (i j : Nat) (hj : j = 1 ∨ j = 2 ∨ j = 3) :
      isEcho s frame.val (i + 1) (j + 1) = isEcho s frame.val i j := by
    obtain rfl | rfl | rfl := hj <;> simp [isEcho, hsizes, Buffer.read, hne]
  have hwrap : isEcho s frame.val 4 0 = isEcho s frame.val 3 3 := by
    simp [isEcho, hsizes, Buffer.read, hne, maxEcho]
  rw [maxEcho, hwrap, hskip 2 2 (by simp), hskip 1 1 (by simp)]
  have hslot : isEcho s frame.val 1 1 =
      if [(s.written.head?.map (·.val.length)).getD 0] = [frame.val.length] then
        .ok (decide (s.pendingPacket.take frame.val.length = frame.val)) else .ok false := by
    have hfits : 0 + frame.val.length ≤ s.pendingPacket.length := by
      rw [hpending, Nat.zero_add]
      exact frame.property.2.trans (by decide)
    have hread : Buffer.read Overrun.pendingPacket s.pendingPacket 0 frame.val.length =
        .ok (s.pendingPacket.take frame.val.length) := Buffer.read_ok hfits
    have hsize : Buffer.read Overrun.pendingPacketSz s.pendingPacketSz 0 1 =
        .ok [(s.written.head?.map (·.val.length)).getD 0] := by
      rw [hsizes]
      rfl
    simp only [isEcho, Nat.one_ne_zero, if_false, Nat.sub_self, hsize, hread, Except.ok_bind,
      Nat.mul_zero]
    split
    · split
      next heq => rw [heq, decide_eq_true rfl]; rfl
      next hne => rw [decide_eq_false hne]; rfl
    · rfl
  rw [hslot]
  cases hhead : s.written.head? with
  | none => simp [hne]
  | some f =>
    have hf := hlast f hhead
    by_cases hlen : f.val.length = frame.val.length
    · rw [if_pos (by simp [hlen]), ← hlen, hf]
      simp [Subtype.ext_iff]
    · have hdiff : f ≠ frame := fun h => hlen (by rw [h])
      simp [hlen, hdiff]

-- ---------------------------------------------------------------------------
-- One call
-- ---------------------------------------------------------------------------

theorem step_received {s : State} (hinv : Inv s) (frame : Frame) :
    step s (.received frame) = some { s with
      verdicts := ⟨frame, s.recent, if s.written.head? = some frame then none else some frame.val⟩
        :: s.verdicts } := by
  have hcount : min frame.val.length 1514 = frame.val.length := min_eq_left frame.property.2
  have hpos : frame.val.length ≠ 0 := Nat.pos_iff_ne_zero.mp frame.property.1
  have hk : s.echoCount.toNat = 0 := by rw [hinv.echoCount]; rfl
  simp only [step, packetReadCompletion, hcount, hk, List.take_length, isEcho_eq hinv frame,
    Except.ok_bind, and_self, if_true]
  rw [if_pos hpos]
  simp only [decide_eq_true_eq]
  rfl

theorem step_some {s : State} (hinv : Inv s) (e : Event) : ∃ s', step s e = some s' ∧ Inv s' := by
  cases e with
  | write packet allocated =>
    cases allocated with
    | false => exact ⟨s, rfl, hinv⟩
    | true =>
      obtain ⟨s', hs', -, -, hinv'⟩ := writePacket_eq hinv packet
      exact ⟨s', by rw [step, hs']; rfl, hinv'⟩
  | received frame =>
    exact ⟨_, step_received hinv frame, hinv.echoCount, hinv.pending, hinv.sizes, hinv.last⟩

theorem step_inv {s s' : State} {e : Event} (hinv : Inv s) (h : step s e = some s') : Inv s' := by
  obtain ⟨s₁, hs₁, hinv₁⟩ := step_some hinv e
  rw [hs₁] at h
  exact Option.some.inj h ▸ hinv₁

theorem run_some {s : State} (hinv : Inv s) (es : List Event) :
    ∃ s', Steps.run step s es = some s' := by
  induction es generalizing s with
  | nil => exact ⟨s, rfl⟩
  | cons e es ih =>
    obtain ⟨s₁, hs₁, hinv₁⟩ := step_some hinv e
    obtain ⟨s', hs'⟩ := ih hinv₁
    exact ⟨s', by rw [Steps.run, hs₁]; exact hs'⟩

-- ---------------------------------------------------------------------------
-- Exactness over runs
-- ---------------------------------------------------------------------------

def State.Exact (s : State) : Prop := ∀ v ∈ s.verdicts, v.Exact

theorem head_mem_recent {s : State} {f : Frame} (h : s.written.head? = some f) : f ∈ s.recent := by
  obtain ⟨fs, hfs⟩ := List.head?_eq_some_iff.mp h
  rw [State.recent, hfs]
  exact List.mem_cons_self

/-- The verdict of one call. -/
theorem received_exact_iff (s : State) (frame : Frame) :
    Verdict.Exact ⟨frame, s.recent, if s.written.head? = some frame then none else some frame.val⟩ ↔
      NotOlder s (.received frame) := by
  unfold Verdict.Exact NotOlder
  by_cases hhead : s.written.head? = some frame
  · simp [hhead, head_mem_recent hhead]
  · by_cases hmem : frame ∈ s.recent <;> simp [hhead, hmem]

theorem writePacket_verdicts {s s' : State} {packet : Frame} {allocated : Bool}
    (h : writePacket s packet allocated = .ok s') : s'.verdicts = s.verdicts := by
  cases allocated with
  | false => exact Except.ok.inj h ▸ rfl
  | true =>
    rw [writePacket, if_pos rfl] at h
    simp only [Except.bind_eq_ok, Except.pure_eq_ok, Except.ok.injEq] at h
    obtain ⟨_, -, _, -, rfl⟩ := h
    rfl

theorem step_keeps {s s' : State} {e : Event} (h : step s e = some s') (hexact : s'.Exact) :
    s.Exact := by
  cases e with
  | write packet allocated =>
    cases hw : writePacket s packet allocated with
    | error _ =>
      rw [step, hw] at h
      cases h
    | ok s₁ =>
      rw [step, hw] at h
      obtain rfl := Option.some.inj h
      rwa [State.Exact, ← writePacket_verdicts hw]
  | received frame =>
    obtain ⟨passed, -, rfl⟩ := Option.map_eq_some_iff.mp h
    exact fun v hv => hexact v (List.mem_cons_of_mem _ hv)

/-- A call is exact if and only if it meets the condition. -/
theorem step_exact_iff {s s' : State} {e : Event} (hinv : Inv s) (h : step s e = some s') :
    s'.Exact ↔ s.Exact ∧ NotOlder s e := by
  cases e with
  | write packet allocated =>
    cases hw : writePacket s packet allocated with
    | error _ =>
      rw [step, hw] at h
      cases h
    | ok s₁ =>
      rw [step, hw] at h
      obtain rfl := Option.some.inj h
      rw [State.Exact, writePacket_verdicts hw]
      exact (and_iff_left trivial).symm
  | received frame =>
    rw [step_received hinv frame] at h
    obtain rfl := Option.some.inj h
    rw [← received_exact_iff, State.Exact, State.Exact, List.forall_mem_cons, and_comm]

/-- Every sequence of calls stays inside the arrays, and drops exactly the frames it should
if and only if no received frame is an older one of the last four written. -/
theorem echo_exact_iff (es : List Event) :
    ∃ s, Steps.run step State.start es = some s ∧
      (s.Exact ↔ Steps.Guarded step NotOlder State.start es) := by
  obtain ⟨s, hs⟩ := run_some inv_start es
  have hgood : ∀ {s : State}, Inv s ∧ s.Exact → s.Exact := And.right
  have hstep : ∀ {s s' : State} {e : Event}, Inv s ∧ s.Exact → NotOlder s e →
      step s e = some s' → Inv s' ∧ s'.Exact := fun hinv hguard hstep =>
    ⟨step_inv hinv.1 hstep, (step_exact_iff hinv.1 hstep).mpr ⟨hinv.2, hguard⟩⟩
  have hbreak : ∀ {s s' : State} {e : Event}, Inv s ∧ s.Exact → ¬ NotOlder s e →
      step s e = some s' → ¬ s'.Exact := fun hinv hguard hstep hexact =>
    hguard ((step_exact_iff hinv.1 hstep).mp hexact).2
  exact ⟨s, hs, Steps.good_iff_guarded hgood hstep hbreak step_keeps
    ⟨inv_start, fun v hv => by cases hv⟩ hs⟩

def firstFrame : Frame := ⟨[1], by decide⟩

def secondFrame : Frame := ⟨[2], by decide⟩

theorem firstFrame_not_dropped :
    ∃ s, Steps.run step State.start
      [.write firstFrame true, .write secondFrame true, .received firstFrame] = some s ∧
        ¬ s.Exact := by
  obtain ⟨s₁, hs₁, hw₁, -, hinv₁⟩ := writePacket_eq inv_start firstFrame
  obtain ⟨s₂, hs₂, hw₂, -, hinv₂⟩ := writePacket_eq hinv₁ secondFrame
  have hstep₁ : step State.start (.write firstFrame true) = some s₁ := by rw [step, hs₁]; rfl
  have hstep₂ : step s₁ (.write secondFrame true) = some s₂ := by rw [step, hs₂]; rfl
  obtain ⟨s₃, hstep₃, -⟩ := step_some hinv₂ (.received firstFrame)
  refine ⟨s₃, by simp only [Steps.run, hstep₁, hstep₂, hstep₃, Option.bind_some], fun hexact => ?_⟩
  have holder := ((step_exact_iff hinv₂ hstep₃).mp hexact).2
  rw [NotOlder, State.recent, hw₂, hw₁] at holder
  exact absurd (holder (by decide)) (by decide)

end SheepShear.Ether.Echo
