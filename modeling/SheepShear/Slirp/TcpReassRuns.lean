import SheepShear.Slirp.TcpReass

/-!
# Runs of a receiving connection

Segments of the guest's stream arrive in any order, more than once, overlapping and
cut in any way, while the host takes what it likes and the window is advertised. In
every run the host is sent a prefix of the stream, up to the first byte that is
missing, the FIN comes last, and there is room for everything that was promised.
-/

namespace SheepShear.Slirp

open Pieces SeqNum Steps

abbrev Segment := Piece Nat Byte Bool

/-- A part of the stream, with a FIN only at its end. -/
def SegOf (stream : List Byte) (p : Segment) : Prop :=
  p.data = (stream.drop p.off).take p.data.length ∧ p.stop ≤ stream.length ∧
    (p.tag = true → p.stop = stream.length)

instance instDecidableSegOf (stream : List Byte) (p : Segment) : Decidable (SegOf stream p) :=
  inferInstanceAs (Decidable (_ ∧ _ ∧ _))

variable {stream : List Byte} {base : Seq} {s s' : Rcv} {c c' : Conn} {p q : Segment}
  {qs qs' : List Segment} {e : Event} {n : Nat}

theorem SegOf.cut (h : SegOf stream p) (hn : n ≤ p.data.length) : SegOf stream (p.cut n) := by
  obtain ⟨hdata, hstop, hfin⟩ := h
  refine ⟨?_, ?_, ?_⟩
  · change p.data.drop n = (stream.drop (p.off + n)).take (p.data.drop n).length
    rw [List.length_drop, ← List.drop_drop, ← List.drop_take, ← hdata]
  · rw [Piece.cut_stop hn]
    exact hstop
  · rw [Piece.cut_stop hn]
    exact hfin

/-- The bytes behind an edge and the FIN are left out. -/
theorem SegOf.take (h : SegOf stream p) (n : Nat) :
    SegOf stream { p with data := p.data.take n, tag := false } := by
  obtain ⟨hdata, hstop, -⟩ := h
  refine ⟨?_, ?_, by simp⟩
  · change p.data.take n = (stream.drop p.off).take (p.data.take n).length
    conv_lhs => rw [hdata, List.take_take]
    rw [List.length_take]
  · rw [Piece.stop_nat] at *
    dsimp only
    rw [List.length_take]
    omega

theorem SegOf.clear (h : SegOf stream p) : SegOf stream { p with tag := false } :=
  ⟨h.1, h.2.1, by simp⟩

theorem SegOf.append (h : SegOf stream p) :
    stream.take p.off ++ p.data = stream.take p.stop := by
  rw [h.1, Piece.stop_nat, List.take_add]

-- ---------------------------------------------------------------------------
-- Calls on the socket
-- ---------------------------------------------------------------------------

/-- A call that added `n` bytes of the guest or came from the host. -/
structure Moves (c c' : Conn) (n : Nat) : Prop where
  intact : Intact c'
  finished : c'.finished = c.finished
  broken : c.broken = true → c'.broken = true
  urgc : c'.so.urgc = 0
  datalen : c'.so.rcv.datalen = c.so.rcv.datalen
  room : sbspace c.so.rcv ≤ sbspace c'.so.rcv + n

def Event.OfHost : Event → Prop
  | .write .. | .read .. | .acknowledge _ => True
  | .append .. | .urgent _ | .finish => False

instance instDecidableOfHost : (e : Event) → Decidable e.OfHost
  | .write .. | .read .. | .acknowledge _ => isTrue trivial
  | .append .. | .urgent _ | .finish => isFalse id

/-- Reads, writes and acknowledgements leave the guest's bytes, and room is only gained. -/
theorem host_moves (h : Intact c) (hurgc : c.so.urgc = 0) (hhost : e.OfHost)
    (hallowed : Allowed c e) :
    ∃ c', perform c e = .ok c' ∧ Moves c c' 0 ∧ c'.appended = c.appended := by
  obtain ⟨c', hperform, hc'⟩ := h.perform hallowed
  refine ⟨c', hperform, ?_⟩
  obtain ⟨xs, hxs, -⟩ := h.guest
  cases e with
  | append => exact hhost.elim
  | urgent => exact hhost.elim
  | finish => exact hhost.elim
  | write oob first second =>
    obtain ⟨so', nn, k, hso, ⟨hsends, -⟩, hurgc', -⟩ := sowrite_wrote hxs
      (by rw [hurgc]; exact Nat.zero_le _)
      (fun h0 => absurd hurgc h0 : c.so.urgc ≠ 0 → ∃ n, oob = .count n) first second
    rw [perform, hso] at hperform
    obtain rfl := Except.ok.inj hperform
    refine ⟨⟨hc', rfl, fun hb => by simp [hb], hurgc' hurgc, hsends.room, ?_⟩, rfl⟩
    dsimp only
    rw [hxs.sbspace_eq, hsends.rcv.sbspace_eq, hsends.room, List.length_drop]
    omega
  | read mss first second =>
    obtain ⟨so', nn, got, hso, hrecv, -⟩ := soread_receives h.host.1 hallowed first second
    rw [perform, hso] at hperform
    obtain rfl := Except.ok.inj hperform
    refine ⟨⟨hc', rfl, id, hrecv.urgc.trans hurgc, ?_, ?_⟩, rfl⟩
    · dsimp only
      rw [hrecv.rcv]
    · dsimp only
      rw [hrecv.rcv]
      omega
  | acknowledge num =>
    obtain rfl := Except.ok.inj hperform
    exact ⟨⟨hc', rfl, id, hurgc, rfl, Nat.le_add_right ..⟩, rfl⟩

/-- Data for which there is room is appended. -/
theorem append_moves (h : Intact c) (hurgc : c.so.urgc = 0) (hopen : c.finished = false)
    {data : List Byte} (hroom : data.length ≤ sbspace c.so.rcv) (ordinary : Answer) :
    ∃ c', perform c (.append data ordinary .again) = .ok c' ∧ Moves c c' data.length ∧
      c'.appended = c.appended ++ data := by
  obtain ⟨xs, hxs, -⟩ := h.guest
  have hle := hxs.length_le
  rw [hxs.sbspace_eq] at hroom
  have hallowed : Allowed c (.append data ordinary .again) := by
    refine ⟨?_, hopen, ?_, fun h0 => absurd hurgc h0⟩
    · rw [hxs.count]
      omega
    · rw [hurgc]
      exact Nat.zero_le _
  obtain ⟨c', hperform, hc'⟩ := h.perform hallowed
  have hfits : xs.length + data.length ≤ c.so.rcv.datalen := by omega
  obtain ⟨so', k, hso, hsends, hurgc', -, -⟩ := sbappend_sends hxs hfits
    (by rw [hurgc]; exact Nat.zero_le _)
    (fun h0 => absurd hurgc h0 : c.so.urgc ≠ 0 → ∃ n, Answer.again = .count n) ordinary
  refine ⟨c', hperform, ?_⟩
  rw [perform, hso] at hperform
  obtain rfl := Except.ok.inj hperform
  refine ⟨⟨hc', rfl, id, hurgc' hurgc, hsends.room, ?_⟩, rfl⟩
  dsimp only
  rw [hxs.sbspace_eq, hsends.rcv.sbspace_eq, hsends.room, List.length_drop, List.length_append]
  omega

-- ---------------------------------------------------------------------------
-- The receiver
-- ---------------------------------------------------------------------------

/-- The largest buffer for which sequence numbers are not ambiguous. -/
def maxRoom : Nat := 2 ^ 30

/-- The receiver took the stream up to `rcvd`, and what it promised is not more than its room. -/
structure Receiving (stream : List Byte) (base : Seq) (s : Rcv) : Prop where
  intact : Intact s.conn
  urgc : s.conn.so.urgc = 0
  size : s.conn.so.rcv.datalen ≤ maxRoom
  nxt : s.rcvNxt = pos base s.next
  adv : s.rcvAdv = pos base s.adv
  promised : s.adv ≤ s.next + sbspace s.conn.so.rcv
  bound : s.rcvd ≤ stream.length
  whole : s.conn.finished = true → s.rcvd = stream.length
  data : s.dropped = false → s.conn.appended = stream.take s.rcvd
  dropped : s.dropped = true → s.conn.broken = true

/-- The queue has pieces behind the first missing byte, for which there is room. -/
structure Queued (stream : List Byte) (base : Seq) (s : Rcv) (qs : List Segment) : Prop where
  segs : s.segs = qs.map (Piece.map (pos base))
  sorted : Sorted qs
  pieces : ∀ q ∈ qs, SegOf stream q
  room : ∀ q ∈ qs, s.next < q.off ∧ q.stop ≤ s.next + sbspace s.conn.so.rcv

theorem Rcv.next_open (h : s.conn.finished = false) : s.next = s.rcvd := by
  rw [Rcv.next, h]
  rfl

namespace Receiving

theorem sbspace_le (h : Receiving stream base s) : sbspace s.conn.so.rcv ≤ maxRoom := by
  obtain ⟨xs, hxs, -⟩ := h.intact.guest
  have hsize := h.size
  rw [hxs.sbspace_eq]
  omega

theorem next_le (h : Receiving stream base s) : s.next ≤ stream.length + 1 := by
  have hbound := h.bound
  rw [Rcv.next]
  split_ifs <;> omega

/-- A call that moves the socket by the `n` bytes by which the receiver moves. -/
theorem moved (h : Receiving stream base s) (hn : s.rcvd + n ≤ stream.length)
    (hmoves : Moves s.conn c n) {dropped : Bool}
    (hdata : dropped = false → c.appended = stream.take (s.rcvd + n))
    (hdropped : dropped = true → c.broken = true) {tState : TcpState} {segs : List Seg} :
    Receiving stream base
      { s with
        conn := c, tState := tState, rcvNxt := shift s.rcvNxt n, segs := segs
        rcvd := s.rcvd + n, dropped := dropped } := by
  have hnext : Rcv.next { s with
      conn := c, tState := tState, rcvNxt := shift s.rcvNxt n, segs := segs
      rcvd := s.rcvd + n, dropped := dropped } = s.next + n := by
    rw [Rcv.next, Rcv.next, hmoves.finished]
    dsimp only
    omega
  refine ⟨hmoves.intact, hmoves.urgc, ?_, ?_, h.adv, ?_, hn, ?_, hdata, hdropped⟩
  · rw [hmoves.datalen]
    exact h.size
  · rw [hnext]
    dsimp only
    rw [h.nxt, shift_serial, pos_add]
  · rw [hnext]
    dsimp only
    have hroom := hmoves.room
    have hpromised := h.promised
    omega
  · intro hfin
    dsimp only at hfin ⊢
    rw [hmoves.finished] at hfin
    have hrcvd := h.whole hfin
    omega

/-- The data of the next piece goes to the socket, or is dropped when the host takes no more. -/
theorem deliver (h : Receiving stream base s) (hopen : s.conn.finished = false)
    (hq : SegOf stream q) (hoff : q.off = s.next)
    (hroom : q.data.length ≤ sbspace s.conn.so.rcv) (answer : Answer) :
    ∃ c, appendData (advance s q.data.length) q.data answer =
        .ok { advance s q.data.length with conn := c } ∧
      Moves s.conn c q.data.length ∧
      Receiving stream base { advance s q.data.length with conn := c } := by
  obtain ⟨c, hperform, hmoves, happended⟩ := append_moves h.intact h.urgc hopen hroom answer
  have hstop := hq.2.1
  rw [Rcv.next_open hopen] at hoff
  rw [Piece.stop_nat, hoff] at hstop
  refine ⟨c, ?_, hmoves, h.moved hstop hmoves (fun hkept => ?_) fun hd => ?_⟩
  · rw [appendData]
    dsimp only [advance]
    rw [hperform]
    rfl
  · rw [happended, h.data hkept, ← hoff, hq.append, Piece.stop_nat]
  · exact hmoves.broken (h.dropped hd)

theorem discard (h : Receiving stream base s) (hopen : s.conn.finished = false)
    (hclosed : s.conn.so.state.fcantsendmore = true) (hn : s.rcvd + n ≤ stream.length) :
    Receiving stream base { advance s n with dropped := true } := by
  have hbroken : s.conn.broken = true := by
    rcases h.intact.closed hclosed with hb | hf
    · exact hb
    · rw [hopen] at hf
      exact absurd hf (by decide)
  exact h.moved hn ⟨h.intact, rfl, id, h.urgc, rfl, Nat.le_add_right ..⟩ (by simp) fun _ => hbroken

/-- The queue may be exchanged. -/
theorem withSegs (h : Receiving stream base s) (segs : List Seg) :
    Receiving stream base { s with segs := segs } :=
  ⟨h.intact, h.urgc, h.size, h.nxt, h.adv, h.promised, h.bound, h.whole, h.data, h.dropped⟩

theorem present_one (h : Receiving stream base s) (hopen : s.conn.finished = false)
    (hq : SegOf stream q) (hoff : q.off = s.next)
    (hroom : q.stop ≤ s.next + sbspace s.conn.so.rcv) (answer : Answer) :
    ∃ s₁, takeData (advance s q.data.length) q.data answer = .ok s₁ ∧
      Receiving stream base s₁ ∧ s₁.conn.finished = false ∧ s₁.tState = s.tState ∧
      s₁.rcvd = q.stop ∧
      s.next + sbspace s.conn.so.rcv ≤ s₁.next + sbspace s₁.conn.so.rcv := by
  have hnext := Rcv.next_open hopen
  have hlen := hq.2.1
  rw [Piece.stop_nat] at hroom hlen ⊢
  rw [takeData]
  split_ifs with hclosed
  · refine ⟨_, rfl, h.discard hopen hclosed (by omega), hopen, rfl, ?_, ?_⟩
    · dsimp only [advance]
      omega
    · rw [Rcv.next_open (s := { advance s q.data.length with dropped := true }) hopen]
      dsimp only [advance]
      omega
  · obtain ⟨c, happend, hmoves, hs₁⟩ := h.deliver hopen hq hoff (by omega) answer
    have hopen₁ := hmoves.finished.trans hopen
    refine ⟨_, happend, hs₁, hopen₁, rfl, ?_, ?_⟩
    · dsimp only [advance]
      omega
    · have hmore := hmoves.room
      rw [Rcv.next_open (s := { advance s q.data.length with conn := c }) hopen₁]
      dsimp only [advance]
      omega

end Receiving

/-- The receiver took the pieces up to the first gap, and the others wait. -/
structure Presented (stream : List Byte) (base : Seq) (s s' : Rcv) (qs qs' : List Segment)
    (fin : Bool) : Prop where
  receiving : Receiving stream base s'
  queued : Queued stream base s' qs'
  finished : s'.conn.finished = false
  state : s'.tState = s.tState
  fin : fin = true → s'.rcvd = stream.length
  took : ∀ i, i < s'.rcvd ∨ Covers qs' i ↔ i < s.rcvd ∨ Covers qs i

theorem present_spec (h : Receiving stream base s) (hopen : s.conn.finished = false)
    (hsorted : Sorted qs) (hpieces : ∀ q ∈ qs, SegOf stream q)
    (hroom : ∀ q ∈ qs, s.next ≤ q.off ∧ q.stop ≤ s.next + sbspace s.conn.so.rcv)
    {fin : Bool} (hfin : fin = true → s.rcvd = stream.length) (answers : List Answer) :
    ∃ s' qs' fin', present s fin (qs.map (Piece.map (pos base))) answers = .ok (s', fin') ∧
      Presented stream base s s' qs qs' fin' := by
  induction qs generalizing s fin answers with
  | nil =>
    exact ⟨_, [], fin, rfl, h.withSegs [], ⟨rfl, .nil, by simp, by simp⟩, hopen, rfl, hfin,
      fun _ => Iff.rfl⟩
  | cons q qs ih =>
    obtain ⟨hlater, hsorted'⟩ := sorted_cons.mp hsorted
    obtain ⟨hq, hpieces'⟩ := List.forall_mem_cons.mp hpieces
    obtain ⟨⟨hoff, hstop⟩, hroom'⟩ := List.forall_mem_cons.mp hroom
    have hle := q.off_le_stop
    have hspace := h.sbspace_le
    have hnext := Rcv.next_open hopen
    have hat : (q.map (pos base)).off = s.rcvNxt ↔ q.off = s.next := by
      rw [h.nxt]
      exact pos_inj (by rw [maxRoom] at hspace; omega) (by omega)
    rw [List.map_cons, present]
    by_cases hfirst : q.off = s.next
    · obtain ⟨s₁, hs₁, hr₁, hopen₁, hstate₁, hrcvd₁, hroom₁⟩ :=
        h.present_one hopen hq hfirst hstop (answers.headD .again)
      have hnext₁ := Rcv.next_open hopen₁
      obtain ⟨s', qs', fin', hpresent, hs'⟩ := ih hr₁ hopen₁ hsorted' hpieces'
        (fun q' hq' => ⟨by rw [hnext₁, hrcvd₁]; exact hlater q' hq',
          (hroom' q' hq').2.trans hroom₁⟩)
        (fun htag : q.tag = true => hrcvd₁.trans (hq.2.2 htag)) answers.tail
      rw [if_pos (hat.mpr hfirst)]
      refine ⟨s', qs', fin', ?_, ⟨hs'.receiving, hs'.queued, hs'.finished,
        hs'.state.trans hstate₁, hs'.fin, fun i => ?_⟩⟩
      · rw [show (q.map (pos base)).data = q.data from rfl, hs₁, Except.ok_bind]
        exact hpresent
      · rw [hs'.took, covers_cons, hrcvd₁]
        constructor
        · rintro (hi | hi)
          · rcases Nat.lt_or_ge i q.off with hlt | hge
            · exact .inl (by omega)
            · exact .inr (.inl ⟨hge, hi⟩)
          · exact .inr (.inr hi)
        · rintro (hi | hi | hi)
          · exact .inl (by omega)
          · exact .inl hi.2
          · exact .inr hi
    · rw [if_neg (hat.not.mpr hfirst)]
      refine ⟨_, q :: qs, fin, rfl, h.withSegs _, ⟨rfl, hsorted, hpieces, fun q' hq' => ?_⟩, hopen,
        rfl, hfin, fun _ => Iff.rfl⟩
      refine ⟨?_, (hroom q' hq').2⟩
      change s.next < q'.off
      rcases List.mem_cons.mp hq' with rfl | hq'
      · omega
      · have hq' := hlater q' hq'
        omega

/-- The next piece on an empty queue goes to the socket at once. -/
theorem appendData_spec (h : Receiving stream base s) (hopen : s.conn.finished = false)
    (hsegs : s.segs = []) (hp : SegOf stream p) (hoff : p.off = s.next)
    (hstop : p.stop ≤ s.next + sbspace s.conn.so.rcv) (answer : Answer) :
    ∃ s', appendData (advance s p.data.length) p.data answer = .ok s' ∧
      Presented stream base s s' [p] [] p.tag := by
  rw [Piece.stop_nat] at hstop
  obtain ⟨c, happend, hmoves, hs'⟩ := h.deliver hopen hp hoff (by omega) answer
  have hnext := Rcv.next_open hopen
  refine ⟨_, happend, ⟨hs', ⟨hsegs, .nil, by simp, by simp⟩, hmoves.finished.trans hopen, rfl, ?_,
    fun i => ?_⟩⟩
  · intro htag
    have hend := hp.2.2 htag
    rw [Piece.stop_nat] at hend
    dsimp only [advance]
    omega
  · rw [covers_cons, Piece.Covers, Piece.stop_nat]
    simp only [covers_nil, or_false, advance]
    omega

/-- The new segment is put in its place, and what is complete is presented. -/
theorem tcpReass_spec (h : Receiving stream base s) (hqs : Queued stream base s qs)
    (hopen : s.conn.finished = false) (hp : SegOf stream p) (hoff : s.next ≤ p.off)
    (hstop : p.stop ≤ s.next + sbspace s.conn.so.rcv) (answers : List Answer) :
    ∃ s' qs' fin, tcpReass s (p.map (pos base)) answers = .ok (s', fin) ∧
      Presented stream base s s' (p :: qs) qs' fin := by
  have hspace := h.sbspace_le
  rw [maxRoom] at hspace
  have hpos : Positions (pos base) s.next (s.next + sbspace s.conn.so.rcv) :=
    positions base (by omega)
  have hnofin : false = true → s.rcvd = stream.length := by simp
  have hwithin : ∀ q ∈ qs, q.Within s.next (s.next + sbspace s.conn.so.rcv) :=
    fun q hq => ⟨(hqs.room q hq).1.le, (hqs.room q hq).2⟩
  rw [tcpReass, hqs.segs, hpos.insert_map ⟨hoff, hstop⟩ hwithin]
  cases hinsert : Pieces.insert p qs with
  | none =>
    obtain ⟨s', qs', fin, hpresent, hs'⟩ := present_spec h hopen hqs.sorted hqs.pieces hwithin
      hnofin answers
    refine ⟨s', qs', fin, hpresent, { hs' with took := fun i => ?_ }⟩
    rw [hs'.took, covers_cons]
    refine or_congr_right ⟨.inr, fun hi => hi.elim (covers_of_insert_none hqs.sorted hinsert) id⟩
  | some qs₁ =>
    have hcut : CutStable fun q : Segment =>
        SegOf stream q ∧ s.next ≤ q.off ∧ q.stop ≤ s.next + sbspace s.conn.so.rcv := by
      rintro q n hn ⟨hq, hlo, hhi⟩
      refine ⟨hq.cut hn.le, ?_, ?_⟩
      · rw [Piece.cut_off]
        omega
      · rw [Piece.cut_stop hn.le]
        exact hhi
    have hall := forall_mem_insert hcut hqs.sorted
      (fun q hq => ⟨hqs.pieces q hq, hwithin q hq⟩) ⟨hp, hoff, hstop⟩ hinsert
    obtain ⟨s', qs', fin, hpresent, hs'⟩ := present_spec h hopen (insert_sorted hqs.sorted hinsert)
      (fun q hq => (hall q hq).1) (fun q hq => (hall q hq).2) hnofin answers
    refine ⟨s', qs', fin, hpresent, { hs' with took := fun i => ?_ }⟩
    rw [hs'.took, covers_insert hqs.sorted hinsert, covers_cons, or_comm (a := p.Covers i)]

theorem tcpReassMacro_spec (h : Receiving stream base s) (hqs : Queued stream base s qs)
    (hopen : s.conn.finished = false) (hp : SegOf stream p) (hoff : s.next ≤ p.off)
    (hstop : p.stop ≤ s.next + sbspace s.conn.so.rcv) (answers : List Answer) :
    ∃ s' qs' fin, tcpReassMacro s (p.map (pos base)) answers = .ok (s', fin) ∧
      Presented stream base s s' (p :: qs) qs' fin := by
  rw [tcpReassMacro]
  split_ifs with hcommon
  · obtain ⟨hat, hempty, -⟩ := hcommon
    have hspace := h.sbspace_le
    have hle := p.off_le_stop
    rw [maxRoom] at hspace
    rw [h.nxt] at hat
    have hat := (pos_inj (by omega) (by omega)).mp hat
    obtain rfl : qs = [] := List.map_eq_nil_iff.mp (hqs.segs.symm.trans hempty)
    obtain ⟨s', happend, hs'⟩ :=
      appendData_spec h hopen hempty hp hat hstop (answers.headD .again)
    exact ⟨s', [], p.tag, by rw [show (p.map (pos base)).data = p.data from rfl, happend]; rfl, hs'⟩
  · exact tcpReass_spec h hqs hopen hp hoff hstop answers

end SheepShear.Slirp
