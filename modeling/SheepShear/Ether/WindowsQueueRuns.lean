import SheepShear.Ether.WindowsQueue

/-!
# Order and progress of the receive queue

Every interleaving delivers the packets that were accepted in their order, but
for those that are too short for a header. Each interrupt the feeding thread
waits for is one it has raised, so a queue that is not empty is always seen to.
-/

namespace SheepShear.Ether.Windows

open SlotRing

variable {s s' : State} {xs : List Packet}

def slotPacket (slot : Slot) : Option Packet :=
  if slot.sz > 0 then some (slot.buf.take slot.sz) else none

/-- The packets in the queue. -/
def waiting (s : State) : List Packet :=
  (List.range maxQueueItems).filterMap fun i =>
    slotPacket (s.queue (index maxQueueItems s.queueHead i))

/-- A packet that was taken from the queue and is about to be dispatched. -/
def inFlight (s : State) : List Packet :=
  match s.irq with
  | .dispatch length => [s.packet.take length]
  | _ => []

/-- The packets with a whole header. -/
def whole (ps : List Packet) : List Packet := ps.filter fun p => 14 ≤ p.length

@[simp] theorem whole_append (ps qs : List Packet) : whole (ps ++ qs) = whole ps ++ whole qs :=
  List.filter_append ..

theorem take_memcpy {dst src : List Byte} {n : Nat} (h : n ≤ src.length) :
    (memcpy dst src n).take n = src.take n := by
  have hlen : (src.take n).length = n := by simpa using h
  rw [memcpy, List.take_append_of_le_length hlen.ge, List.take_take, min_self]

theorem length_memcpy_ge {dst src : List Byte} {n : Nat} (h : n ≤ src.length) :
    n ≤ (memcpy dst src n).length := by
  simp only [memcpy, List.length_append, List.length_take]
  omega

theorem slotPacket_eq_none {slot : Slot} : slotPacket slot = none ↔ slot.sz = 0 := by
  simp [slotPacket]

theorem slotPacket_eq_some {slot : Slot} {p : Packet} (h : slotPacket slot = some p) :
    0 < slot.sz ∧ p = slot.buf.take slot.sz := by
  unfold slotPacket at h
  split_ifs at h with hsz
  exact ⟨hsz, (Option.some.inj h).symm⟩

-- ---------------------------------------------------------------------------
-- The packets
-- ---------------------------------------------------------------------------

/-- What the queue holds, and that no packet with a header was lost. -/
structure Data (s : State) (xs : List Packet) : Prop where
  holds : Holds maxQueueItems (fun k => slotPacket (s.queue k)) s.queueHead s.queueInx xs
  sizes : ∀ k, (s.queue k).sz ≤ (s.queue k).buf.length
  conserved : whole s.accepted = s.delivered ++ inFlight s ++ whole xs

theorem Data.waiting_eq (h : Data s xs) : waiting s = xs := h.holds.contents

theorem Data.front (h : Data s xs) : slotPacket (s.queue s.queueHead) = xs.head? := h.holds.front

theorem Data.sz_eq_zero (h : Data s xs) : (s.queue s.queueHead).sz = 0 ↔ xs = [] := by
  rw [← slotPacket_eq_none, h.front, List.head?_eq_none_iff]

theorem slotPacket_update (q : Nat → Slot) (k : Nat) (slot : Slot) :
    (fun j => slotPacket (Function.update q k slot j)) =
      Function.update (fun j => slotPacket (q j)) k (slotPacket slot) := by
  funext j
  by_cases hj : j = k
  · subst hj
    simp
  · simp [hj]

theorem sizes_update {q : Nat → Slot} (h : ∀ k, (q k).sz ≤ (q k).buf.length) {slot : Slot}
    (hslot : slot.sz ≤ slot.buf.length) (k j : Nat) :
    (Function.update q k slot j).sz ≤ (Function.update q k slot j).buf.length := by
  by_cases hj : j = k
  · subst hj
    simpa using hslot
  · simpa [hj] using h j

theorem start_data (bufs : Nat → List Byte) (packet : List Byte) : Data (.start bufs packet) [] where
  holds := holds_nil (by decide) fun _ => rfl
  sizes _ := Nat.zero_le _
  conserved := rfl

theorem enqueuePacket_free (h : (s.queue s.queueInx).sz = 0) (buf : Packet) :
    enqueuePacket s buf =
      { s with
        queue := Function.update s.queue s.queueInx
          ⟨memcpy (s.queue s.queueInx).buf buf (min buf.length maxPacket), min buf.length maxPacket⟩
        queueInx := advance maxQueueItems s.queueInx
        accepted := s.accepted ++ [buf.take maxPacket]
        waitRequest := false
        intSig := s.intSig || s.waitRequest } := by
  have hsz : (if buf.length > maxPacket then maxPacket else buf.length) =
      min buf.length maxPacket := by
    split_ifs <;> omega
  have htake : buf.take (min buf.length maxPacket) = buf.take maxPacket := by
    rw [List.take_eq_take_iff]
    omega
  cases hw : s.waitRequest <;> simp [enqueuePacket, h, hsz, htake, State.setSlot, hw]

theorem enqueuePacket_full (h : (s.queue s.queueInx).sz ≠ 0) (buf : Packet) :
    enqueuePacket s buf = s := by
  simp [enqueuePacket, Nat.pos_of_ne_zero h]

/-- A packet is dropped only if all slots are in use. -/
theorem Data.all_used (h : Data s xs) (hfull : (s.queue s.queueInx).sz ≠ 0) {k : Nat}
    (hk : k < maxQueueItems) : 0 < (s.queue k).sz := by
  have hused := h.holds.all_used (fun hnone => hfull (slotPacket_eq_none.mp hnone)) hk
  rw [Ne, slotPacket_eq_none] at hused
  omega

theorem Data.enqueue (h : Data s xs) (hfree : (s.queue s.queueInx).sz = 0) {buf : Packet}
    (hbuf : buf ≠ []) : Data (enqueuePacket s buf) (xs ++ [buf.take maxPacket]) := by
  rw [enqueuePacket_free hfree]
  have hpos := List.length_pos_of_ne_nil hbuf
  have hle : min buf.length maxPacket ≤ buf.length := min_le_left ..
  have hslot : slotPacket ⟨memcpy (s.queue s.queueInx).buf buf (min buf.length maxPacket),
      min buf.length maxPacket⟩ = some (buf.take maxPacket) := by
    have hsz : 0 < min buf.length maxPacket := lt_min hpos (by decide)
    rw [slotPacket, if_pos hsz, take_memcpy hle]
    congr 1
    rw [List.take_eq_take_iff]
    omega
  refine ⟨?_, sizes_update h.sizes (length_memcpy_ge hle) _, ?_⟩
  · rw [slotPacket_update, hslot]
    exact h.holds.push (slotPacket_eq_none.mpr hfree) _
  · have hconserved := h.conserved
    simp only [whole_append, hconserved, List.append_assoc, inFlight]

theorem dequeuePacket_empty (h : Data s []) : dequeuePacket s = (0, s) := by
  have hsz := h.sz_eq_zero.mpr rfl
  simp [dequeuePacket, hsz]

theorem dequeuePacket_cons {p : Packet} (h : Data s (p :: xs)) :
    dequeuePacket s = (p.length,
      { s with
        queue := Function.update s.queue s.queueHead { s.queue s.queueHead with sz := 0 }
        packet := memcpy s.packet (s.queue s.queueHead).buf p.length
        queueHead := advance maxQueueItems s.queueHead }) ∧
      p = (s.queue s.queueHead).buf.take p.length ∧ p.length ≤ (s.queue s.queueHead).buf.length := by
  obtain ⟨hsz, hp⟩ := slotPacket_eq_some h.front
  have hle := h.sizes s.queueHead
  have hlen : p.length = (s.queue s.queueHead).sz := by
    rw [hp, List.length_take, min_eq_left hle]
  refine ⟨?_, by rwa [hlen], by rwa [hlen]⟩
  simp [dequeuePacket, hsz, State.setSlot, hlen]

theorem Data.irqDequeue (h : Data s xs) (hirq : s.irq = .dequeue) :
    ∃ xs', Data { (dequeuePacket s).2 with
      irq := if (dequeuePacket s).1 < 14 then .ack else .dispatch (dequeuePacket s).1 } xs' := by
  have hnone : inFlight s = [] := by simp [inFlight, hirq]
  have hconserved := h.conserved
  rw [hnone, List.append_nil] at hconserved
  cases xs with
  | nil =>
    rw [dequeuePacket_empty h]
    exact ⟨[], h.holds, h.sizes, by simpa [inFlight] using hconserved⟩
  | cons p xs =>
    obtain ⟨heq, hp, hle⟩ := dequeuePacket_cons h
    rw [heq]
    refine ⟨xs, ?_, sizes_update h.sizes (Nat.zero_le _) _, ?_⟩
    · rw [slotPacket_update]
      exact h.holds.pop
    · by_cases hshort : p.length < 14
      · simpa [inFlight, hshort, whole, Nat.not_le.mpr hshort] using hconserved
      · simpa [inFlight, hshort, take_memcpy hle, ← hp, whole, Nat.not_lt.mp hshort] using hconserved

-- ---------------------------------------------------------------------------
-- Interrupts
-- ---------------------------------------------------------------------------

/-- No interrupt is raised, running or to be acknowledged. -/
def NoneOutstanding (s : State) : Prop := s.intFlag = false ∧ s.irq = .idle ∧ s.intAck = false

/-- One interrupt is raised, running or acknowledged. -/
def OneOutstanding (s : State) : Prop :=
  s.intFlag = true ∧ s.irq = .idle ∧ s.intAck = false ∨
    s.intFlag = false ∧ s.irq ≠ .idle ∧ s.intAck = false ∨
    s.intFlag = false ∧ s.irq = .idle ∧ s.intAck = true

/-- While the thread waits for a signal, there is one or a request for one, by whether the queue has
packets. Otherwise there is neither. -/
def Control (s : State) (xs : List Packet) : Prop :=
  match s.feed with
  | .waitSig => NoneOutstanding s ∧ s.waitRequest = !s.intSig ∧ (s.intSig = true ↔ xs ≠ [])
  | .trigger => NoneOutstanding s ∧ s.waitRequest = false ∧ s.intSig = false ∧ xs ≠ []
  | .waitAck => OneOutstanding s ∧ s.waitRequest = false ∧ s.intSig = false
  | .setWait => NoneOutstanding s ∧ s.waitRequest = false ∧ s.intSig = false

def Inv (s : State) : Prop := ∃ xs, Data s xs ∧ Control s xs

theorem enqueue_inv (h : Inv s) {buf : Packet} (hbuf : buf ≠ []) : Inv (enqueuePacket s buf) := by
  obtain ⟨xs, hdata, hcontrol⟩ := h
  by_cases hfree : (s.queue s.queueInx).sz = 0
  · refine ⟨_, hdata.enqueue hfree hbuf, ?_⟩
    rw [enqueuePacket_free hfree]
    unfold Control at hcontrol ⊢
    dsimp only
    cases hfeed : s.feed with
    | waitSig =>
      rw [hfeed] at hcontrol
      obtain ⟨hnone, hrequest, -⟩ := hcontrol
      exact ⟨hnone, by simp [hrequest], by simp [hrequest]⟩
    | trigger =>
      rw [hfeed] at hcontrol
      obtain ⟨hnone, hrequest, hsig, -⟩ := hcontrol
      exact ⟨hnone, rfl, by simp [hrequest, hsig], by simp⟩
    | waitAck =>
      rw [hfeed] at hcontrol
      obtain ⟨hone, hrequest, hsig⟩ := hcontrol
      exact ⟨hone, rfl, by simp [hrequest, hsig]⟩
    | setWait =>
      rw [hfeed] at hcontrol
      obtain ⟨hnone, hrequest, hsig⟩ := hcontrol
      exact ⟨hnone, rfl, by simp [hrequest, hsig]⟩
  · rw [enqueuePacket_full hfree]
    exact ⟨xs, hdata, hcontrol⟩

theorem feed_inv (h : Inv s) (hstep : feedStep s = some s') : Inv s' := by
  obtain ⟨xs, hdata, hcontrol⟩ := h
  have hsz := hdata.sz_eq_zero
  unfold Control at hcontrol
  unfold feedStep at hstep
  cases hfeed : s.feed with
  | waitSig =>
    simp only [hfeed] at hcontrol hstep
    split_ifs at hstep with hsig
    cases hstep
    obtain ⟨hnone, hrequest, hxs⟩ := hcontrol
    exact ⟨xs, ⟨hdata.holds, hdata.sizes, hdata.conserved⟩, hnone, by simp [hrequest, hsig], rfl,
      hxs.mp hsig⟩
  | trigger =>
    simp only [hfeed] at hcontrol hstep
    cases hstep
    obtain ⟨⟨hflag, hirq, hack⟩, hrequest, hsig, hxs⟩ := hcontrol
    -- The queue is not empty, so the interrupt is raised.
    have hpos : (s.queue s.queueHead).sz > 0 := Nat.pos_of_ne_zero fun h0 => hxs (hsz.mp h0)
    rw [triggerQueue, if_pos hpos]
    exact ⟨xs, ⟨hdata.holds, hdata.sizes, hdata.conserved⟩, .inl ⟨rfl, hirq, hack⟩, hrequest, hsig⟩
  | waitAck =>
    simp only [hfeed] at hcontrol hstep
    split_ifs at hstep with hack
    cases hstep
    obtain ⟨⟨-, -, hno⟩ | ⟨-, -, hno⟩ | ⟨hflag, hirq, -⟩, hrequest, hsig⟩ := hcontrol
    · rw [hack] at hno
      cases hno
    · rw [hack] at hno
      cases hno
    · exact ⟨xs, ⟨hdata.holds, hdata.sizes, hdata.conserved⟩, ⟨hflag, hirq, rfl⟩, hrequest, hsig⟩
  | setWait =>
    simp only [hfeed] at hcontrol hstep
    cases hstep
    obtain ⟨hnone, hrequest, hsig⟩ := hcontrol
    by_cases hqueue : (s.queue s.queueHead).sz = 0
    · rw [setWaitRequest, if_neg (not_not.mpr hqueue)]
      refine ⟨xs, ⟨hdata.holds, hdata.sizes, hdata.conserved⟩, hnone, ?_, ?_⟩
      · simp [hsig]
      · simp [hsig, hsz.mp hqueue]
    · rw [setWaitRequest, if_pos hqueue]
      exact ⟨xs, ⟨hdata.holds, hdata.sizes, hdata.conserved⟩, hnone, hrequest, hsig,
        fun hxs => hqueue (hsz.mpr hxs)⟩

/-- An interrupt runs only while the thread waits for it. -/
theorem Control.waitAck (h : Control s xs) (hout : s.intFlag = true ∨ s.irq ≠ .idle) :
    s.feed = .waitAck ∧ OneOutstanding s ∧ s.waitRequest = false ∧ s.intSig = false := by
  have hnone : ¬ NoneOutstanding s := by
    rintro ⟨hflag, hirq, -⟩
    rw [hflag] at hout
    exact hout.elim nofun (· hirq)
  unfold Control at h
  cases hfeed : s.feed with
  | waitSig | trigger | setWait =>
    rw [hfeed] at h
    exact absurd h.1 hnone
  | waitAck =>
    rw [hfeed] at h
    exact ⟨rfl, h⟩

theorem Control.of_waitAck (hfeed : s.feed = .waitAck) (hone : OneOutstanding s)
    (hrequest : s.waitRequest = false) (hsig : s.intSig = false) : Control s xs := by
  unfold Control
  rw [hfeed]
  exact ⟨hone, hrequest, hsig⟩

theorem dequeuePacket_frame (s : State) :
    (dequeuePacket s).2.feed = s.feed ∧ (dequeuePacket s).2.intFlag = s.intFlag ∧
      (dequeuePacket s).2.intAck = s.intAck ∧ (dequeuePacket s).2.waitRequest = s.waitRequest ∧
      (dequeuePacket s).2.intSig = s.intSig := by
  unfold dequeuePacket
  dsimp only
  split_ifs <;> exact ⟨rfl, rfl, rfl, rfl, rfl⟩

theorem OneOutstanding.running (h : OneOutstanding s) (hirq : s.irq ≠ .idle) :
    s.intFlag = false ∧ s.intAck = false := by
  obtain ⟨-, hno, -⟩ | ⟨hflag, -, hack⟩ | ⟨-, hno, -⟩ := h
  · exact absurd hno hirq
  · exact ⟨hflag, hack⟩
  · exact absurd hno hirq

theorem irq_inv (h : Inv s) (hstep : irqStep s = some s') : Inv s' := by
  obtain ⟨xs, hdata, hcontrol⟩ := h
  have hconserved := hdata.conserved
  unfold irqStep at hstep
  cases hirq : s.irq with
  | idle =>
    simp only [hirq] at hstep
    split_ifs at hstep with hflag
    cases hstep
    obtain ⟨hfeed, hone, hrequest, hsig⟩ := hcontrol.waitAck (.inl hflag)
    have hack : s.intAck = false := by
      obtain ⟨-, -, hack⟩ | ⟨hno, -, -⟩ | ⟨hno, -, -⟩ := hone
      · exact hack
      · rw [hflag] at hno
        cases hno
      · rw [hflag] at hno
        cases hno
    refine ⟨xs, ⟨hdata.holds, hdata.sizes, ?_⟩, ?_⟩
    · simpa [inFlight, hirq] using hconserved
    · exact .of_waitAck hfeed (.inr (.inl ⟨rfl, nofun, hack⟩)) hrequest hsig
  | dequeue =>
    simp only [hirq] at hstep
    cases hstep
    have hrunning : s.irq ≠ .idle := by simp [hirq]
    obtain ⟨hfeed, hone, hrequest, hsig⟩ := hcontrol.waitAck (.inr hrunning)
    obtain ⟨hflag, hack⟩ := hone.running hrunning
    obtain ⟨xs', hdata'⟩ := hdata.irqDequeue hirq
    obtain ⟨hfeed', hflag', hack', hrequest', hsig'⟩ := dequeuePacket_frame s
    refine ⟨xs', hdata', .of_waitAck (hfeed'.trans hfeed) (.inr (.inl ?_)) (hrequest'.trans hrequest)
      (hsig'.trans hsig)⟩
    refine ⟨hflag'.trans hflag, ?_, hack'.trans hack⟩
    dsimp only
    split_ifs <;> simp
  | dispatch length =>
    simp only [hirq] at hstep
    cases hstep
    have hrunning : s.irq ≠ .idle := by simp [hirq]
    obtain ⟨hfeed, hone, hrequest, hsig⟩ := hcontrol.waitAck (.inr hrunning)
    obtain ⟨hflag, hack⟩ := hone.running hrunning
    refine ⟨xs, ⟨hdata.holds, hdata.sizes, ?_⟩, ?_⟩
    · simpa [inFlight, hirq] using hconserved
    · exact .of_waitAck hfeed (.inr (.inl ⟨hflag, nofun, hack⟩)) hrequest hsig
  | ack =>
    simp only [hirq] at hstep
    cases hstep
    have hrunning : s.irq ≠ .idle := by simp [hirq]
    obtain ⟨hfeed, hone, hrequest, hsig⟩ := hcontrol.waitAck (.inr hrunning)
    obtain ⟨hflag, -⟩ := hone.running hrunning
    refine ⟨xs, ⟨hdata.holds, hdata.sizes, ?_⟩, ?_⟩
    · simpa [inFlight, hirq] using hconserved
    · exact .of_waitAck hfeed (.inr (.inr ⟨hflag, rfl, rfl⟩)) hrequest hsig

-- ---------------------------------------------------------------------------
-- Runs
-- ---------------------------------------------------------------------------

theorem start_inv (bufs : Nat → List Byte) (packet : List Byte) : Inv (.start bufs packet) :=
  ⟨[], start_data bufs packet, ⟨rfl, rfl, rfl⟩, rfl, by simp [State.start]⟩

theorem step_inv {a : Act} (h : Inv s) (hstep : step s a = some s') : Inv s' := by
  cases a with
  | enqueue buf =>
    simp only [step] at hstep
    split_ifs at hstep with hbuf
    cases hstep
    exact enqueue_inv h hbuf
  | feed => exact feed_inv h hstep
  | irq => exact irq_inv h hstep

/-- The thread can go on, and comes to `trigger_queue` with the queue as it is. -/
def WillTrigger (s : State) : Prop :=
  s.feed = .waitSig ∧ s.intSig = true ∨ s.feed = .waitAck ∧ s.intAck = true ∨
    s.feed = .trigger ∨ s.feed = .setWait

theorem Control.willTrigger (h : Control s xs) (hxs : xs ≠ []) (hflag : s.intFlag = false)
    (hirq : s.irq = .idle) : WillTrigger s := by
  unfold Control at h
  cases hfeed : s.feed with
  | waitSig =>
    rw [hfeed] at h
    exact .inl ⟨hfeed, h.2.2.mpr hxs⟩
  | trigger => exact .inr (.inr (.inl hfeed))
  | waitAck =>
    rw [hfeed] at h
    obtain ⟨⟨hno, -, -⟩ | ⟨-, hno, -⟩ | ⟨-, -, hack⟩, -, -⟩ := h
    · rw [hflag] at hno
      cases hno
    · exact absurd hirq hno
    · exact .inr (.inl ⟨hfeed, hack⟩)
  | setWait => exact .inr (.inr (.inr hfeed))

/-- In every state of every interleaving: the packets with a header that were accepted are those
that were delivered and those still to be, in order; a packet is refused only by a full queue; and a
queue with packets has an interrupt on its way or a thread that will raise one. -/
theorem queue_ordered {bufs : Nat → List Byte} {packet : List Byte}
    (hrun : Steps.Reaches step (fun _ _ => True) (.start bufs packet) s) :
    whole s.accepted = s.delivered ++ inFlight s ++ whole (waiting s) ∧
      (∀ buf, buf ≠ [] →
        (enqueuePacket s buf).accepted = s.accepted ++ [buf.take maxPacket] ∨
          enqueuePacket s buf = s ∧ ∀ k < maxQueueItems, 0 < (s.queue k).sz) ∧
      (waiting s ≠ [] → s.intFlag = false → s.irq = .idle → WillTrigger s) := by
  have hinv : Inv s := hrun.invariant (start_inv bufs packet) fun h _ hstep => step_inv h hstep
  obtain ⟨xs, hdata, hcontrol⟩ := hinv
  rw [hdata.waiting_eq]
  refine ⟨hdata.conserved, ?_, hcontrol.willTrigger⟩
  intro buf _
  by_cases hfree : (s.queue s.queueInx).sz = 0
  · rw [enqueuePacket_free hfree]
    exact .inl rfl
  · exact .inr ⟨enqueuePacket_full hfree buf, fun k hk => hdata.all_used hfree hk⟩

/-- One packet is received and the interrupt for it handled. -/
def receiveOne (buf : Packet) : List Act := [.enqueue buf, .feed, .feed, .irq, .irq, .irq]

theorem header_delivered :
    ∃ s, Steps.run step (.start (fun _ => []) []) (receiveOne (List.replicate 14 7)) = some s ∧
      s.delivered = [List.replicate 14 7] ∧
      whole s.accepted = s.delivered ++ inFlight s ++ whole (waiting s) :=
  have hrun : Steps.run step (.start (fun _ => []) []) (receiveOne (List.replicate 14 7)) =
    some _ := rfl
  ⟨_, hrun, rfl, (queue_ordered (Steps.reaches_of_run hrun)).1⟩

/-- A packet of ten bytes is taken from the queue and not delivered. -/
theorem shortFrame_lost :
    ∃ s, Steps.run step (.start (fun _ => []) []) (receiveOne (List.replicate 10 7)) = some s ∧
      s.accepted = [List.replicate 10 7] ∧ s.delivered = [] ∧ inFlight s = [] ∧
      ∀ k, (s.queue k).sz = 0 := by
  refine ⟨_, rfl, rfl, rfl, rfl, ?_⟩
  rintro (_ | k)
  · rfl
  · rfl

end SheepShear.Ether.Windows
