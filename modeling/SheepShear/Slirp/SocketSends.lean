import SheepShear.Slirp.Socket

/-!
# What the calls of a socket do to its buffers

One statement for each call: which bytes went to the host or came from it, what the
buffers hold afterwards, and why a direction was shut down.
-/

namespace SheepShear.Slirp

open Buffer WrapRing

variable {sb : Sbuf} {so so' so₁ so₂ : Socket} {xs ys m : List Byte} {k n mss : Nat}
  {a first second ordinary oob : Answer}

@[simp] theorem sbdrop_datalen (sb : Sbuf) (n : Nat) : (sbdrop sb n).datalen = sb.datalen := rfl

/-- Moving on by a count is a drop. -/
theorem Sbuf.Holds.consumed_eq (h : sb.Holds xs) (hn : n ≤ xs.length) :
    sb.consumed n = .ok (sbdrop sb n) := by
  have hsmall := h.small
  have hle := h.length_le
  have hdata := h.datalen
  have hcc : ((((sb.cc : Int) - n) % (uintSize : Int))).toNat = sb.cc - n := by
    rw [h.count, Int.emod_eq_of_lt (by omega) (by omega)]
    omega
  rw [Sbuf.consumed, sbdrop, if_neg (show ¬n > sb.cc by rw [h.count]; omega)]
  rw [if_neg (by omega), hcc, show ((sb.rptr : Int) + n).toNat = sb.rptr + n by omega]

-- ---------------------------------------------------------------------------
-- Sending
-- ---------------------------------------------------------------------------

/-- `k` of the bytes of `so_rcv` went to the host; nothing came from it. -/
structure Sends (so so' : Socket) (xs : List Byte) (k : Nat) : Prop where
  fits : k ≤ xs.length
  rcv : so'.rcv.Holds (xs.drop k)
  room : so'.rcv.datalen = so.rcv.datalen
  sent : so'.sent = so.sent ++ xs.take k
  snd : so'.snd = so.snd
  received : so'.received = so.received
  drain : so'.state.fwdrain = true → so.state.fwdrain = true

namespace Sends

theorem none (h : so.rcv.Holds xs) : Sends so so xs 0 where
  fits := Nat.zero_le _
  rcv := h
  room := rfl
  sent := by simp
  snd := rfl
  received := rfl
  drain := id

theorem trans (h : Sends so so₁ xs k) (h' : Sends so₁ so₂ (xs.drop k) n) :
    Sends so so₂ xs (k + n) where
  fits := by
    have hn := h'.fits
    have hk := h.fits
    rw [List.length_drop] at hn
    omega
  rcv := by
    rw [← List.drop_drop]
    exact h'.rcv
  room := h'.room.trans h.room
  sent := by rw [h'.sent, h.sent, List.append_assoc, ← List.take_add]
  snd := h'.snd.trans h.snd
  received := h'.received.trans h.received
  drain := h.drain ∘ h'.drain

end Sends

/-- Sending was shut down, for a reason, or nothing was. -/
structure ShutFor (so so' : Socket) (why : Prop) : Prop where
  noted : so'.shut = so.shut ∨ so'.shut = so.shut ++ [(.send, so'.sent.length)] ∧ why
  closed : so'.state.fcantsendmore = true → so.state.fcantsendmore = true ∨ why

theorem ShutFor.imp {why why' : Prop} (h : ShutFor so so' why) (himp : why → why') :
    ShutFor so so' why' :=
  ⟨h.noted.imp_right (And.imp_right himp), fun hc => (h.closed hc).imp_right himp⟩

theorem ShutFor.same {why : Prop} (hshut : so'.shut = so.shut) (hstate : so'.state = so.state) :
    ShutFor so so' why :=
  ⟨.inl hshut, fun hc => .inl (hstate ▸ hc)⟩

/-- Shutting down sending changes the state and notes the direction. -/
theorem sofcantsendmore_eq (so : Socket) :
    ∃ state shut, sofcantsendmore so = { so with state := state, shut := shut } ∧
      (state.fwdrain = true → so.state.fwdrain = true) ∧
      (shut = so.shut ∨ shut = so.shut ++ [(.send, so.sent.length)]) := by
  rw [sofcantsendmore]
  cases so.state.nofdref with
  | true =>
    rw [if_pos rfl]
    refine ⟨_, _, rfl, ?_, .inl rfl⟩
    split_ifs
    · exact fun h => absurd h (by decide)
    · exact id
  | false =>
    rw [if_neg (by decide)]
    refine ⟨_, _, rfl, ?_, .inr rfl⟩
    split_ifs
    · exact fun h => absurd h (by decide)
    · exact id

theorem sofcantrcvmore_eq (so : Socket) :
    ∃ state shut, sofcantrcvmore so = { so with state := state, shut := shut } ∧
      (state.fwdrain = true → so.state.fwdrain = true) ∧
      (state.fcantsendmore = true → so.state.fcantsendmore = true) ∧
      (shut = so.shut ∨ shut = so.shut ++ [(.receive, so.sent.length)]) := by
  rw [sofcantrcvmore]
  cases so.state.nofdref with
  | true =>
    rw [if_pos rfl]
    refine ⟨_, _, rfl, ?_, ?_, .inl rfl⟩ <;> split_ifs
    · exact fun h => absurd h (by decide)
    · exact id
    · exact fun h => absurd h (by decide)
    · exact id
  | false =>
    rw [if_neg (by decide)]
    refine ⟨_, _, rfl, ?_, ?_, .inr rfl⟩ <;> split_ifs
    · exact fun h => absurd h (by decide)
    · exact id
    · exact fun h => absurd h (by decide)
    · exact id

theorem sofcantsendmore_shut (so : Socket) {why : Prop} (h : why) :
    ShutFor so (sofcantsendmore so) why := by
  obtain ⟨state, shut, heq, -, hshut⟩ := sofcantsendmore_eq so
  rw [heq]
  exact ⟨hshut.imp_right fun hs => ⟨hs, h⟩, fun _ => .inr h⟩

theorem sofcantsendmore_urgc (so : Socket) : (sofcantsendmore so).urgc = so.urgc := by
  obtain ⟨state, shut, heq, -⟩ := sofcantsendmore_eq so
  rw [heq]

theorem Sends.cantsendmore (h : Sends so so' xs k) : Sends so (sofcantsendmore so') xs k := by
  obtain ⟨state, shut, heq, hdrain, -⟩ := sofcantsendmore_eq so'
  rw [heq]
  exact ⟨h.fits, h.rcv, h.room, h.sent, h.snd, h.received, fun hd => h.drain (hdrain hd)⟩

/-- The parts to write are the bytes of the buffer. -/
theorem writeParts_eq (h : sb.Holds xs) :
    (writeParts sb = (xs.length, none) ∧ read Fault.outside sb.data sb.rptr xs.length = .ok xs) ∨
    ∃ i j, writeParts sb = (i, some j) ∧ i + j = xs.length ∧ 0 < i ∧
      read Fault.outside sb.data sb.rptr i = .ok (xs.take i) ∧
      read Fault.outside sb.data 0 j = .ok (xs.drop i) := by
  have hdata := h.datalen
  have hcount := h.count
  have hcases := h.ring.length_cases
  rw [writeParts, hcount]
  cases h.ring with
  | straight hle hlt hxs =>
    have hlen : xs.length = sb.wptr - sb.rptr := by
      rw [hxs, List.length_take, List.length_drop]
      omega
    have hread : read Fault.outside sb.data sb.rptr xs.length = .ok xs := by
      rw [read_ok (by omega), hlen, ← hxs]
    refine .inl ⟨?_, hread⟩
    split_ifs with hrw
    · rw [min_eq_right hlen.le]
    · dsimp only
      rw [min_eq_right (by omega), if_neg (by omega)]
  | wrapped hle hlt hxs =>
    have hhead : (sb.data.drop sb.rptr).length = sb.data.length - sb.rptr := List.length_drop ..
    have hlen : xs.length = sb.data.length - sb.rptr + sb.wptr := by
      rw [hxs, List.length_append, hhead, List.length_take]
      omega
    have htake : xs.take (sb.data.length - sb.rptr) = sb.data.drop sb.rptr := by
      rw [hxs, ← hhead, List.take_left]
    have hdrop : xs.drop (sb.data.length - sb.rptr) = sb.data.take sb.wptr := by
      rw [hxs, ← hhead, List.drop_left]
    rw [if_neg (by omega), hdata]
    dsimp only
    rw [min_eq_left (by omega)]
    split_ifs with hrest
    · refine .inr ⟨_, _, rfl, by omega, by omega, ?_, ?_⟩
      · rw [read_ok (by omega), htake, List.take_of_length_le hhead.le]
      · rw [min_eq_left (by omega), read_ok (by omega), hdrop, List.drop_zero]
    · have hall : xs = sb.data.drop sb.rptr := by
        rw [← htake, List.take_of_length_le (by omega)]
      refine .inl ⟨by rw [show xs.length = sb.data.length - sb.rptr by omega], ?_⟩
      rw [read_ok (by omega), ← hall, List.take_length]

/-- The bytes that `send` took are the first ones. -/
theorem send_cases (a : Answer) (xs : List Byte) :
    (send a xs = (-1, []) ∧ ∀ n, a ≠ .count n) ∨
    ∃ n, a = .count n ∧ ∃ k, k = min n xs.length ∧ send a xs = ((k : Int), xs.take k) := by
  cases a with
  | count n =>
    refine .inr ⟨n, rfl, _, rfl, ?_⟩
    rw [send, List.length_take]
    rcases Nat.le_total n xs.length with hle | hle
    · rw [min_eq_left hle]
    · rw [min_eq_right hle, List.take_of_length_le hle, List.take_length]
  | again => exact .inl ⟨rfl, by simp⟩
  | failed => exact .inl ⟨rfl, by simp⟩

/-- Something was sent, and sending is shut down after the last byte of a draining socket. -/
structure Advances (so so' : Socket) (xs : List Byte) (k : Nat) : Prop where
  pos : 0 < k
  kept : so.state.fwdrain = false ∨ k < xs.length → so'.state = so.state
  ends : so.state.fwdrain = true → k = xs.length → so.state.nofdref = false →
    (.send, so'.sent.length) ∈ so'.shut

theorem sofcantsendmore_ends (h : so.state.nofdref = false) :
    (.send, (sofcantsendmore so).sent.length) ∈ (sofcantsendmore so).shut := by
  simp [sofcantsendmore, h, shutdown]

theorem wrote_sends (h : so.rcv.Holds xs) (hk : k ≤ xs.length) :
    ∃ so', wrote so k (xs.take k) = .ok (so', k) ∧ Sends so so' xs k ∧ so'.urgc = so.urgc ∧
      ShutFor so so' (so.state.fwdrain = true ∧ k = xs.length) ∧
      (0 < k → Advances so so' xs k) := by
  have hrest := h.drop hk
  have hsends : Sends so { so with rcv := sbdrop so.rcv k, sent := so.sent ++ xs.take k } xs k :=
    ⟨hk, hrest, rfl, rfl, rfl, rfl, id⟩
  have hcount := hrest.count
  rw [List.length_drop] at hcount
  rw [wrote, h.consumed_eq hk, Except.ok_bind]
  dsimp only
  by_cases hdone : so.state.fwdrain = true ∧ (sbdrop so.rcv k).cc = 0
  · have hall : k = xs.length := by omega
    have hwhy : so.state.fwdrain = true ∧ k = xs.length := ⟨hdone.1, hall⟩
    have hshut := sofcantsendmore_shut
      { so with rcv := sbdrop so.rcv k, sent := so.sent ++ xs.take k } hwhy
    rw [if_pos hdone]
    refine ⟨_, rfl, hsends.cantsendmore, sofcantsendmore_urgc _,
      ⟨hshut.noted, hshut.closed⟩, fun hpos => ⟨hpos, ?_, ?_⟩⟩
    · rintro (hdrain | hlt)
      · rw [hdone.1] at hdrain
        exact absurd hdrain (by decide)
      · omega
    · exact fun _ _ hfd => sofcantsendmore_ends hfd
  · rw [if_neg hdone]
    refine ⟨_, rfl, hsends, rfl, .same rfl rfl, fun hpos => ⟨hpos, fun _ => rfl, ?_⟩⟩
    exact fun hdrain hall _ => absurd ⟨hdrain, by omega⟩ hdone

/-- Both parts together are the first bytes of the buffer. -/
theorem sendSecond_eq {i j : Nat} (hij : i + j = xs.length)
    (hread : read Fault.outside so.rcv.data 0 j = .ok (xs.drop i)) (hk : k ≤ i) :
    ∃ k', k ≤ k' ∧ k' ≤ xs.length ∧
      sendSecond so i (some j) k (xs.take k) second = .ok ((k' : Int), xs.take k') := by
  rw [sendSecond]
  dsimp only
  split_ifs with hall
  · obtain rfl : k = i := by omega
    rw [hread, Except.ok_bind]
    rcases send_cases second (xs.drop k) with ⟨hsend, -⟩ | ⟨n, -, k', hk', hsend⟩
    · rw [hsend]
      exact ⟨k, le_rfl, by omega, rfl⟩
    · rw [hsend]
      dsimp only
      rw [List.length_drop] at hk'
      split_ifs with hpos
      · refine ⟨k + k', by omega, by omega, ?_⟩
        rw [List.take_add]
        rfl
      · exact ⟨k, le_rfl, by omega, rfl⟩
  · exact ⟨k, le_rfl, by omega, rfl⟩

theorem writeParts_sends (h : so.rcv.Holds xs) (second : Answer) :
    ∃ i iov1, writeParts so.rcv = (i, iov1) ∧ i ≤ xs.length ∧ (xs ≠ [] → 0 < i) ∧
      read Fault.outside so.rcv.data so.rcv.rptr i = .ok (xs.take i) ∧
      ∀ k ≤ i, ∃ k', k ≤ k' ∧ k' ≤ xs.length ∧
        sendSecond so i iov1 k (xs.take k) second = .ok ((k' : Int), xs.take k') := by
  rcases writeParts_eq h with ⟨hparts, hread⟩ | ⟨i, j, hparts, hij, hpos, hread, hread'⟩
  · refine ⟨_, _, hparts, le_rfl, List.length_pos_iff.mpr, ?_, fun k hk => ⟨k, le_rfl, hk, rfl⟩⟩
    rw [hread, List.take_length]
  · exact ⟨_, _, hparts, by omega, fun _ => hpos, hread, fun k hk => sendSecond_eq hij hread' hk⟩

/-- The host takes something whenever there is something for it. -/
def Answer.Takes : Answer → Prop
  | .count n => 0 < n
  | .again | .failed => False

/-- What a write did: the first bytes of the buffer went to the host. It shut down only when it
failed or nothing is left to send. -/
structure Wrote (so so' : Socket) (xs : List Byte) (k : Nat) (nn : Int) : Prop where
  sends : Sends so so' xs k
  shut : ShutFor so so' (nn = -1 ∨ so.state.fwdrain = true ∧ k = xs.length)

theorem writeRcv_wrote (h : so.rcv.Holds xs) (first second : Answer) :
    ∃ so' nn k, writeRcv so first second = .ok (so', nn) ∧ Wrote so so' xs k nn ∧
      so'.urgc = so.urgc ∧ (first.Takes → xs ≠ [] → Advances so so' xs k) := by
  obtain ⟨i, iov1, hparts, hi, hpos, hread, hsecond⟩ := writeParts_sends h second
  have hfirst : (xs.take i).length = i := by
    rw [List.length_take]
    omega
  have hnothing : Wrote so so xs 0 0 := ⟨.none h, .same rfl rfl⟩
  have hfailed : Wrote so (sofcantsendmore so) xs 0 (-1) :=
    ⟨(Sends.none h).cantsendmore, sofcantsendmore_shut so (.inl rfl)⟩
  rw [writeRcv, hparts]
  dsimp only
  rw [hread, Except.ok_bind]
  rcases send_cases first (xs.take i) with ⟨hsend, hnot⟩ | ⟨n, rfl, k, hk, hsend⟩
  · have htakes : ¬first.Takes := by
      cases first with
      | count n => exact absurd rfl (hnot n)
      | again => exact id
      | failed => exact id
    rw [hsend]
    dsimp only
    split_ifs
    · exact ⟨_, _, _, rfl, hnothing, rfl, fun ht => absurd ht htakes⟩
    · exact ⟨_, _, _, rfl, hfailed, sofcantsendmore_urgc so, fun ht => absurd ht htakes⟩
    · omega
  · have htakes (ht : (Answer.count n).Takes) (hxs : xs ≠ []) : 0 < k := by
      have hi := hpos hxs
      have hn : 0 < n := ht
      omega
    rw [hsend]
    dsimp only
    rw [if_neg (by simp)]
    split_ifs with hzero
    · refine ⟨_, _, _, rfl, hfailed, sofcantsendmore_urgc so, fun ht hxs => ?_⟩
      have hk := htakes ht hxs
      omega
    · obtain ⟨k', hle, hk', heq⟩ := hsecond k (by omega)
      obtain ⟨so', hso, hsends, hurgc, hshut, hadvances⟩ := wrote_sends h hk'
      rw [List.take_take, min_eq_left (by omega), heq, Except.ok_bind]
      exact ⟨so', k', k', hso, ⟨hsends, hshut.imp .inr⟩, hurgc,
        fun _ _ => hadvances (by omega)⟩

-- ---------------------------------------------------------------------------
-- Urgent data
-- ---------------------------------------------------------------------------

/-- Urgent data are the first bytes of the buffer. -/
theorem urgentBytes_eq {urgc : Nat} (h : so.rcv.Holds xs) (hurgc : urgc ≤ xs.length)
    (hsize : urgc ≤ oobSize) :
    ∃ left, urgentBytes so.rcv urgc = .ok (xs.take urgc, left) := by
  have hdata := h.datalen
  have hread := h.ring.read hurgc
  have hcases := h.ring.length_cases
  have hw := h.ring.write_lt
  have hr := h.ring.read_lt
  rw [urgentBytes]
  dsimp only
  split_ifs with hrw hrest hlarge
  · rw [if_pos hrw] at hread
    rw [read_ok (by omega), ← hread]
    exact ⟨none, rfl⟩
  all_goals rw [if_neg hrw] at hread
  · omega
  · have hfirst : (so.rcv.data.drop so.rcv.rptr).take (so.rcv.datalen - so.rcv.rptr) =
        (so.rcv.data.drop so.rcv.rptr).take urgc := by
      have htail : (so.rcv.data.drop so.rcv.rptr).length = so.rcv.datalen - so.rcv.rptr := by
        rw [List.length_drop, hdata]
      rw [List.take_of_length_le htail.le, List.take_of_length_le (by omega)]
    rw [min_eq_left (by omega), read_ok (by omega), Except.ok_bind, min_eq_right (by omega),
      read_ok (by omega), Except.ok_bind, hread, List.drop_zero, hfirst, hdata]
    exact ⟨some _, rfl⟩
  · rw [min_eq_right (by omega), read_ok (by omega), hread,
      show urgc - (so.rcv.data.length - so.rcv.rptr) = 0 by omega, List.take_zero, List.append_nil]
    exact ⟨some _, rfl⟩

/-- Urgent bytes that are in the buffer are sent like the others. -/
theorem sosendoob_sends (h : so.rcv.Holds xs) (hurgc : so.urgc ≤ xs.length) (n : Nat) :
    ∃ (so' : Socket) (k : Nat), sosendoob so (.count n) = .ok (so', (k : Int)) ∧
      Sends so so' xs k ∧ so'.shut = so.shut ∧ so'.state = so.state := by
  have hclamp : (if so.urgc > oobSize then oobSize else so.urgc) = min so.urgc oobSize := by
    split_ifs <;> omega
  have hle : min so.urgc oobSize ≤ xs.length := (min_le_left ..).trans hurgc
  obtain ⟨left, hbytes⟩ := urgentBytes_eq h hle (min_le_right ..)
  obtain ⟨-, hnot⟩ | ⟨n', -, k, hk, hsend⟩ :=
    send_cases (.count n) (xs.take (min so.urgc oobSize))
  · exact absurd rfl (hnot n)
  rw [List.length_take, min_eq_left hle] at hk
  have hsize : k ≤ min so.urgc oobSize := hk ▸ min_le_right ..
  have hfits : k ≤ xs.length := hsize.trans hle
  rw [sosendoob, hclamp]
  dsimp only
  rw [hbytes, Except.ok_bind]
  dsimp only
  rw [hsend, h.consumed_eq hfits, List.take_take, min_eq_left hsize]
  exact ⟨_, k, rfl, ⟨hfits, h.drop hfits, rfl, rfl, rfl, rfl, id⟩, rfl, rfl⟩

/-- The whole of a write: urgent data first, then the rest. -/
theorem sowrite_wrote (h : so.rcv.Holds xs) (hurgc : so.urgc ≤ xs.length)
    (hoob : so.urgc ≠ 0 → ∃ n, oob = .count n) (first second : Answer) :
    ∃ so' nn k, sowrite so oob first second = .ok (so', nn) ∧ Wrote so so' xs k nn ∧
      (so.urgc = 0 → so'.urgc = 0) ∧
      (so.urgc = 0 → first.Takes → xs ≠ [] → Advances so so' xs k) := by
  rw [sowrite]
  split_ifs with hurgent
  · obtain ⟨n, rfl⟩ := hoob hurgent
    obtain ⟨so₁, k, hoob, hsends, hshut₁, hstate₁⟩ := sosendoob_sends h hurgc n
    rw [hoob, Except.ok_bind]
    dsimp only
    split_ifs with hempty
    · exact ⟨so₁, 0, k, rfl, ⟨hsends, .same hshut₁ hstate₁⟩, fun h0 => absurd h0 hurgent,
        fun h0 => absurd h0 hurgent⟩
    · obtain ⟨so', nn, k', hwrite, ⟨hsends', hshut⟩, -, -⟩ :=
        writeRcv_wrote hsends.rcv first second
      refine ⟨so', nn, k + k', hwrite, ⟨hsends.trans hsends', ?_⟩, fun h0 => absurd h0 hurgent,
        fun h0 => absurd h0 hurgent⟩
      have hshut' : ShutFor so so' (nn = -1 ∨ so₁.state.fwdrain = true ∧ k' = (xs.drop k).length) :=
        ⟨hshut₁ ▸ hshut.noted, hstate₁ ▸ hshut.closed⟩
      refine hshut'.imp (Or.imp_right fun ⟨hdrain, hk'⟩ => ?_)
      have hk := hsends.fits
      rw [List.length_drop] at hk'
      exact ⟨hsends.drain hdrain, by omega⟩
  · obtain ⟨so', nn, k, hwrite, hwrote, hurgc', htakes⟩ := writeRcv_wrote h first second
    exact ⟨so', nn, k, hwrite, hwrote, fun h0 => hurgc'.trans h0, fun _ => htakes⟩

theorem appendUnsent_eq (h : so.rcv.Holds xs) (hroom : xs.length + m.length ≤ so.rcv.datalen)
    (hk : k ≤ m.length) (hempty : k ≠ 0 → xs = []) :
    ∃ rcv, appendUnsent so m k = .ok { so with rcv := rcv } ∧ rcv.Holds ((xs ++ m).drop k) ∧
      rcv.datalen = so.rcv.datalen := by
  rw [appendUnsent]
  rcases Nat.eq_zero_or_pos k with rfl | hpos
  · obtain ⟨rcv, happend, hrcv, hlen⟩ := h.append hroom
    rw [if_pos (by omega), happend]
    exact ⟨rcv, rfl, hrcv, hlen⟩
  · obtain rfl := hempty hpos.ne'
    rw [List.nil_append, if_neg (by omega), Int.toNat_natCast]
    split_ifs with hrest
    · obtain ⟨rcv, happend, hrcv, hlen⟩ := h.append (m := m.drop k)
        (by rw [List.length_nil, List.length_drop] at *; omega)
      rw [happend]
      exact ⟨rcv, rfl, hrcv, hlen⟩
    · rw [List.drop_eq_nil_of_le (by omega)]
      exact ⟨so.rcv, rfl, h, rfl⟩

/-- The data of a segment is sent at once or added to the buffer, in order. -/
theorem sbappend_sends (h : so.rcv.Holds xs) (hroom : xs.length + m.length ≤ so.rcv.datalen)
    (hurgc : so.urgc ≤ xs.length + m.length) (hoob : so.urgc ≠ 0 → ∃ n, oob = .count n)
    (ordinary : Answer) :
    ∃ so' k, sbappend so m ordinary oob = .ok so' ∧ Sends so so' (xs ++ m) k ∧
      (so.urgc = 0 → so'.urgc = 0) ∧ so'.shut = so.shut ∧ so'.state = so.state := by
  rw [sbappend]
  split_ifs with hm hurgent hcc
  · obtain rfl := List.length_eq_zero_iff.mp hm
    rw [List.append_nil]
    exact ⟨so, 0, rfl, .none h, id, rfl, rfl⟩
  · obtain ⟨n, rfl⟩ := hoob hurgent
    obtain ⟨rcv, happend, hrcv, hlen⟩ := h.append hroom
    have hurgc' : so.urgc ≤ (xs ++ m).length := by
      rw [List.length_append]
      exact hurgc
    have hholds : ({ so with rcv := rcv } : Socket).rcv.Holds (xs ++ m) := hrcv
    obtain ⟨so', k, hsent, hsends, hshut⟩ := sosendoob_sends hholds hurgc' n
    rw [happend, Except.ok_bind, hsent]
    exact ⟨so', k, rfl, { hsends with room := hsends.room.trans hlen }, fun h0 => absurd h0 hurgent,
      hshut⟩
  · obtain rfl : xs = [] := List.length_eq_zero_iff.mp (h.count ▸ hcc)
    have hrest (k : Nat) (hk : k ≤ m.length) : ∃ so', appendUnsent
        { so with sent := so.sent ++ m.take k } m k = .ok so' ∧ Sends so so' ([] ++ m) k ∧
          (so.urgc = 0 → so'.urgc = 0) ∧ so'.shut = so.shut ∧ so'.state = so.state := by
      have hholds : ({ so with sent := so.sent ++ m.take k } : Socket).rcv.Holds [] := h
      obtain ⟨rcv, happend, hrcv, hlen⟩ := appendUnsent_eq hholds hroom hk fun _ => rfl
      exact ⟨_, happend, ⟨hk, hrcv, hlen, rfl, rfl, rfl, id⟩, id, rfl, rfl⟩
    rcases send_cases ordinary m with ⟨hsend, -⟩ | ⟨n, -, k, hk, hsend⟩
    · rw [hsend]
      obtain ⟨so', hso⟩ := hrest 0 (Nat.zero_le _)
      exact ⟨so', 0, hso⟩
    · rw [hsend]
      obtain ⟨so', hso⟩ := hrest k (hk ▸ min_le_right ..)
      exact ⟨so', k, hso⟩
  · obtain ⟨rcv, happend, hrcv, hlen⟩ := appendUnsent_eq h hroom (Nat.zero_le _) (by simp)
    exact ⟨_, 0, happend, ⟨Nat.zero_le _, hrcv, hlen, by simp, rfl, rfl, id⟩, id, rfl, rfl⟩

-- ---------------------------------------------------------------------------
-- Receiving
-- ---------------------------------------------------------------------------

/-- The bytes `got` came from the host into `so_snd`; nothing went to it. -/
structure Receives (so so' : Socket) (ys got : List Byte) : Prop where
  snd : so'.snd.Holds (ys ++ got)
  room : so'.snd.datalen = so.snd.datalen
  received : so'.received = so.received ++ got
  rcv : so'.rcv = so.rcv
  sent : so'.sent = so.sent
  urgc : so'.urgc = so.urgc
  drain : so'.state.fwdrain = true → so.state.fwdrain = true
  closed : so'.state.fcantsendmore = true → so.state.fcantsendmore = true

theorem recv_cases (a : Input) (len : Nat) :
    recv a len = (-1, []) ∨
    ∃ got : List Byte, got.length ≤ len ∧ recv a len = ((got.length : Int), got) := by
  cases a with
  | bytes xs =>
    refine .inr ⟨xs.take len, ?_, rfl⟩
    rw [List.length_take]
    exact min_le_left ..
  | again => exact .inl rfl
  | failed => exact .inl rfl

theorem wholeSegments_le {n : Nat} (hmss : 0 < mss) : ∃ n' ≤ n, wholeSegments n mss = .ok n' := by
  rw [wholeSegments, modulo, if_neg hmss.ne']
  split_ifs
  · exact ⟨_, Nat.sub_le .., rfl⟩
  · exact ⟨n, le_rfl, rfl⟩

/-- The parts to read into are in the free room, and the second one begins where the first one
reached the end. -/
theorem readParts_room (h : sb.Holds ys) (hmss : 0 < mss) :
    ∃ i iov1, readParts sb mss = .ok (i, iov1) ∧ sb.wptr + i ≤ sb.data.length ∧
      ys.length + i ≤ sb.datalen ∧
      ∀ j ∈ iov1, sb.wptr + i = sb.data.length ∧ ys.length + i + j ≤ sb.datalen := by
  have hdata := h.datalen
  have hspace := h.sbspace_eq
  have hle := h.length_le
  have hw := h.ring.write_lt
  rw [readParts, hspace]
  dsimp only
  split_ifs with hwr hrest htotal
  · obtain ⟨i, hi, hseg⟩ := wholeSegments_le (n := min (sb.rptr - sb.wptr)
      (sb.datalen - ys.length)) hmss
    have hr := h.ring.read_lt
    rw [hseg]
    exact ⟨i, none, rfl, by omega, by omega, by simp⟩
  · rw [modulo, if_neg hmss.ne', Except.ok_bind]
    have hedge : min (sb.datalen - sb.wptr) (sb.datalen - ys.length) = sb.datalen - sb.wptr := by
      omega
    rw [hedge] at hrest ⊢
    split_ifs
    · refine ⟨_, _, rfl, by omega, by omega, ?_⟩
      rintro j ⟨⟩
      omega
    · exact ⟨_, none, rfl, by omega, by omega, by simp⟩
  · have hedge : min (sb.datalen - sb.wptr) (sb.datalen - ys.length) = sb.datalen - sb.wptr := by
      omega
    rw [hedge] at hrest ⊢
    refine ⟨_, _, rfl, by omega, by omega, ?_⟩
    rintro j ⟨⟩
    omega
  · obtain ⟨i, hi, hseg⟩ := wholeSegments_le (n := min (sb.datalen - sb.wptr)
      (sb.datalen - ys.length)) hmss
    rw [hseg]
    exact ⟨i, none, rfl, by omega, by omega, by simp⟩

theorem put_append_of_edge {data got more : List Byte} {w : Nat}
    (hedge : w + got.length = data.length) :
    put data w (got ++ more) = overwrite (put data w got) 0 more := by
  rw [put_of_fits hedge.le, put, show data.length - w = got.length by omega, List.take_left,
    List.drop_left]

theorem recvSecond_eq {data got : List Byte} {w i : Nat} {iov1 : Option Nat}
    (hiov1 : ∀ j ∈ iov1, w + i = data.length ∧ i + j ≤ data.length) (second : Input) :
    ∃ more, recvSecond (put data w got) i iov1 got.length got second =
        .ok (put data w (got ++ more), ((got ++ more).length : Int), got ++ more) ∧
      (more = [] ∨ ∃ j ∈ iov1, got.length = i ∧ more.length ≤ j) := by
  have hnone : (Except.ok (put data w got, (got.length : Int), got) :
      Except Fault (List Byte × Int × List Byte)) =
      .ok (put data w (got ++ []), ((got ++ []).length : Int), got ++ []) := by
    rw [List.append_nil]
  cases iov1 with
  | none => exact ⟨[], hnone, .inl rfl⟩
  | some j =>
    obtain ⟨hedge, hj⟩ := hiov1 j rfl
    rw [recvSecond]
    dsimp only
    by_cases hall : (got.length : Int) = i
    · have hput : (put data w got).length = data.length := length_put (by omega) (by omega)
      rw [if_pos hall]
      rcases recv_cases second j with hrecv | ⟨more, hmore, hrecv⟩
      · rw [hrecv]
        dsimp only
        rw [write_ok (by simp), overwrite_nil]
        exact ⟨[], hnone, .inl rfl⟩
      · rw [hrecv]
        dsimp only
        rw [write_ok (by omega), Except.ok_bind, ← put_append_of_edge (by omega)]
        refine ⟨more, ?_, .inr ⟨j, rfl, by omega, hmore⟩⟩
        split_ifs with hpos
        · rw [List.length_append, Nat.cast_add]
          rfl
        · rw [List.length_eq_zero_iff.mp (show more.length = 0 by omega), List.append_nil]
          rfl
    · rw [if_neg hall]
      exact ⟨[], hnone, .inl rfl⟩

theorem Receives.nothing (h : so.snd.Holds ys) : Receives so so ys [] where
  snd := by
    rw [List.append_nil]
    exact h
  room := rfl
  received := (List.append_nil _).symm
  rcv := rfl
  sent := rfl
  urgc := rfl
  drain := id
  closed := id

/-- Receiving was shut down, or nothing was. -/
def ShutReceive (so so' : Socket) : Prop :=
  so'.shut = so.shut ∨ so'.shut = so.shut ++ [(.receive, so.sent.length)]

theorem sofcantrcvmore_receives (h : so.snd.Holds ys) :
    Receives so (sofcantrcvmore so) ys [] ∧ ShutReceive so (sofcantrcvmore so) := by
  obtain ⟨state, shut, heq, hdrain, hclosed, hshut⟩ := sofcantrcvmore_eq so
  obtain ⟨hsnd, hroom, hrecv, hrcv, hsent, hurgc, -, -⟩ := Receives.nothing h
  rw [heq]
  exact ⟨⟨hsnd, hroom, hrecv, hrcv, hsent, hurgc, hdrain, hclosed⟩, hshut⟩

/-- A read adds what came from the host to the buffer, without touching what is in it. -/
theorem soread_receives (h : so.snd.Holds ys) (hmss : 0 < mss) (first second : Input) :
    ∃ so' nn got, soread so mss first second = .ok (so', nn) ∧ Receives so so' ys got ∧
      ShutReceive so so' := by
  obtain ⟨i, iov1, hparts, hi, hroom, hiov1⟩ := readParts_room h hmss
  have hdata := h.datalen
  obtain ⟨hfailed, hshut⟩ := sofcantrcvmore_receives h
  rw [soread, hparts, Except.ok_bind]
  dsimp only
  rcases recv_cases first i with hrecv | ⟨got, hgot, hrecv⟩
  · rw [hrecv]
    dsimp only
    rw [if_pos (by decide)]
    split_ifs
    · exact ⟨so, 0, [], rfl, .nothing h, .inl rfl⟩
    · exact ⟨_, -1, [], rfl, hfailed, hshut⟩
  · rw [hrecv]
    dsimp only
    split_ifs
    · exact ⟨so, 0, [], rfl, .nothing h, .inl rfl⟩
    · exact ⟨_, -1, [], rfl, hfailed, hshut⟩
    · have hfits : so.snd.wptr + got.length ≤ so.snd.data.length := by omega
      obtain ⟨more, hsecond, hmore⟩ := recvSecond_eq
        (fun j hj => ⟨(hiov1 j hj).1, by have hij := (hiov1 j hj).2; omega⟩) second
      have htotal : ys.length + (got ++ more).length ≤ so.snd.data.length := by
        rw [List.length_append]
        rcases hmore with rfl | ⟨j, hj, hall, hle⟩
        · rw [List.length_nil]
          omega
        · have hij := (hiov1 j hj).2
          omega
      rw [write_ok hfits, Except.ok_bind, ← put_of_fits hfits, hsecond, Except.ok_bind]
      exact ⟨_, _, got ++ more, rfl, ⟨h.filled (by omega), rfl, rfl, rfl, rfl, rfl, id, id⟩, .inl rfl⟩

end SheepShear.Slirp
