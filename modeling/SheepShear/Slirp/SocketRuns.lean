import SheepShear.Lib.Steps
import SheepShear.Slirp.SocketSends

/-!
# The streams of a socket

In every run of the calls on a socket the host is sent the bytes of the guest in
order, each once, and `so_snd` has the bytes from the host that are not
acknowledged yet. Sending is shut down only when all was sent, unless a write
failed. Urgent data is part of the stream only when `so_urgc` does not count more
than there is, and when the host takes it.
-/

namespace SheepShear.Slirp

open Steps

/-- A socket, with the data of the guest's segments and the number of acknowledged bytes. -/
structure Conn where
  so : Socket
  appended : List Byte
  acked : Nat
  /-- The guest sent its FIN. -/
  finished : Bool
  /-- A write failed. -/
  broken : Bool
deriving DecidableEq, Repr

/-- `ahead` is how far the urgent pointer is beyond the segments received so far. -/
inductive Event where
  | append (m : List Byte) (ordinary oob : Answer)
  | urgent (ahead : Nat)
  | write (oob first second : Answer)
  | finish
  | read (mss : Nat) (first second : Input)
  | acknowledge (num : Nat)
deriving DecidableEq, Repr

def perform (c : Conn) : Event → Except Fault Conn
  | .append m ordinary oob => do
    let so ← sbappend c.so m ordinary oob
    return { c with so := so, appended := c.appended ++ m }
  | .urgent ahead => return { c with so := { c.so with urgc := c.so.rcv.cc + ahead } }
  | .write oob first second => do
    let (so, nn) ← sowrite c.so oob first second
    return { c with so := so, broken := c.broken || nn = -1 }
  | .finish => return { c with so := sofwdrain c.so, finished := true }
  | .read mss first second => do
    let (so, _) ← soread c.so mss first second
    return { c with so := so }
  | .acknowledge num =>
    return { c with
      so := { c.so with snd := sbdrop c.so.snd num }
      acked := c.acked + min num c.so.snd.cc }

def step (c : Conn) (e : Event) : Option Conn := (perform c e).toOption

/-- A connected socket, its buffers reserved. -/
def Conn.start (sndspace rcvspace : List Byte) : Conn where
  so :=
    { urgc := 0
      state := ⟨false, false, true, false, false, false⟩
      rcv := sbreserve Sbuf.zero rcvspace.length (some rcvspace)
      snd := sbreserve Sbuf.zero sndspace.length (some sndspace)
      sent := []
      received := []
      shut := [] }
  appended := []
  acked := 0
  finished := false
  broken := false

/-- The host takes urgent data, though maybe none of it now. -/
def Answer.IsCount : Answer → Prop
  | .count _ => True
  | .again | .failed => False

instance instDecidableIsCount : (a : Answer) → Decidable a.IsCount
  | .count _ => isTrue trivial
  | .again | .failed => isFalse id

/-- Data is appended when there is room for it and the guest did not finish, segments have a size,
and urgent data is in the buffer when it is sent. -/
def Allowed (c : Conn) : Event → Prop
  | .append m _ oob =>
    c.so.rcv.cc + m.length ≤ c.so.rcv.datalen ∧ c.finished = false ∧
      c.so.urgc ≤ c.so.rcv.cc + m.length ∧ (c.so.urgc ≠ 0 → oob.IsCount)
  | .write oob _ _ => c.so.urgc ≤ c.so.rcv.cc ∧ (c.so.urgc ≠ 0 → oob.IsCount)
  | .read mss _ _ => 0 < mss
  | .urgent _ | .finish | .acknowledge _ => True

instance instDecidableAllowed (c : Conn) : (e : Event) → Decidable (Allowed c e)
  | .append .. => inferInstanceAs (Decidable (_ ∧ _ ∧ _ ∧ _))
  | .write .. => inferInstanceAs (Decidable (_ ∧ _))
  | .read .. => inferInstanceAs (Decidable (_ < _))
  | .urgent _ | .finish | .acknowledge _ => isTrue trivial

variable {c c' : Conn} {e : Event} {a : Answer} {xs ys sndspace rcvspace : List Byte} {n : Nat}

theorem Answer.IsCount.exists (h : a.IsCount) : ∃ n, a = .count n := by
  cases a with
  | count n => exact ⟨n, rfl⟩
  | again => exact h.elim
  | failed => exact h.elim

/-- What was sent, what is buffered and what was appended agree, and so do what came in, what is
buffered and what was acknowledged. -/
structure Intact (c : Conn) : Prop where
  guest : ∃ xs, c.so.rcv.Holds xs ∧ c.so.sent ++ xs = c.appended
  host : c.so.snd.Holds (c.so.received.drop c.acked) ∧ c.acked ≤ c.so.received.length
  drain : c.so.state.fwdrain = true → c.finished = true
  closed : c.so.state.fcantsendmore = true → c.broken = true ∨ c.finished = true
  shut : ∀ n, (.send, n) ∈ c.so.shut →
    c.broken = true ∨ c.finished = true ∧ n = c.appended.length

theorem start_intact (hsnd : 0 < sndspace.length) (hrcv : 0 < rcvspace.length)
    (hsnd' : sndspace.length < uintSize) (hrcv' : rcvspace.length < uintSize) :
    Intact (Conn.start sndspace rcvspace) where
  guest := ⟨[], .reserve rfl hrcv hrcv', rfl⟩
  host := ⟨.reserve rfl hsnd hsnd', le_rfl⟩
  drain := id
  closed := by simp [Conn.start]
  shut := by simp [Conn.start]

namespace Intact

theorem append (h : Intact c) {m : List Byte} {ordinary oob : Answer}
    (hallowed : Allowed c (.append m ordinary oob)) :
    ∃ c', perform c (.append m ordinary oob) = .ok c' ∧ Intact c' := by
  obtain ⟨hroom, hopen, hurgc, hoob⟩ := hallowed
  obtain ⟨xs, hxs, hstream⟩ := h.guest
  rw [hxs.count] at hroom hurgc
  obtain ⟨so', k, hso, hsends, -, hshut, hstate⟩ :=
    sbappend_sends hxs hroom hurgc (fun h0 => (hoob h0).exists) ordinary
  refine ⟨_, by rw [perform, hso]; rfl, ⟨_, hsends.rcv, ?_⟩, ?_, ?_, ?_, ?_⟩
  · rw [hsends.sent, List.append_assoc, List.take_append_drop, ← List.append_assoc, hstream]
  · dsimp only
    rw [hsends.snd, hsends.received]
    exact h.host
  · exact fun hd => h.drain (hsends.drain hd)
  · exact fun hd => h.closed (hstate ▸ hd)
  · intro n hn
    rw [hshut] at hn
    refine (h.shut n hn).imp_right fun hfin => ?_
    rw [hopen] at hfin
    exact absurd hfin.1 (by decide)

theorem write (h : Intact c) {oob first second : Answer}
    (hallowed : Allowed c (.write oob first second)) :
    ∃ c', perform c (.write oob first second) = .ok c' ∧ Intact c' := by
  obtain ⟨hurgc, hoob⟩ := hallowed
  obtain ⟨xs, hxs, hstream⟩ := h.guest
  rw [hxs.count] at hurgc
  obtain ⟨so', nn, k, hso, ⟨hsends, hshut⟩, -, -⟩ :=
    sowrite_wrote hxs hurgc (fun h0 => (hoob h0).exists) first second
  refine ⟨_, by rw [perform, hso]; rfl, ⟨_, hsends.rcv, ?_⟩, ?_, ?_, ?_, ?_⟩
  · rw [hsends.sent, List.append_assoc, List.take_append_drop, hstream]
  · dsimp only
    rw [hsends.snd, hsends.received]
    exact h.host
  · exact fun hd => h.drain (hsends.drain hd)
  · intro hd
    dsimp only
    rcases hshut.closed hd with hd | hfail | ⟨hdrain, -⟩
    · exact (h.closed hd).imp_left fun hb => by rw [hb, Bool.true_or]
    · exact .inl (by simp [hfail])
    · exact .inr (h.drain hdrain)
  · intro n hn
    have hold (hn : (.send, n) ∈ c.so.shut) : (c.broken || decide (nn = -1)) = true ∨
        c.finished = true ∧ n = c.appended.length :=
      (h.shut n hn).imp_left fun hb => by rw [hb, Bool.true_or]
    rcases hshut.noted with hsame | ⟨hnew, hwhy⟩
    · rw [hsame] at hn
      exact hold hn
    · rw [hnew, List.mem_append] at hn
      rcases hn with hn | hn
      · exact hold hn
      · obtain rfl : n = so'.sent.length := (Prod.mk.inj (List.mem_singleton.mp hn)).2
        rcases hwhy with hfail | ⟨hdrain, rfl⟩
        · exact .inl (by simp [hfail])
        · refine .inr ⟨h.drain hdrain, ?_⟩
          rw [hsends.sent, List.take_length, hstream]

theorem finish (h : Intact c) : ∃ c', perform c .finish = .ok c' ∧ Intact c' := by
  obtain ⟨xs, hxs, hstream⟩ := h.guest
  refine ⟨_, rfl, ?_⟩
  have hold : ∀ n, (.send, n) ∈ c.so.shut → c.broken = true ∨ true = true ∧ n = c.appended.length :=
    fun n hn => (h.shut n hn).imp_right fun hfin => ⟨rfl, hfin.2⟩
  rw [sofwdrain]
  split_ifs with hcc
  · exact ⟨⟨xs, hxs, hstream⟩, h.host, fun _ => rfl, fun _ => .inr rfl, hold⟩
  · obtain ⟨state, shut, heq, hdrain, hshut⟩ := sofcantsendmore_eq c.so
    rw [heq]
    refine ⟨⟨xs, hxs, hstream⟩, h.host, fun _ => rfl, fun _ => .inr rfl, fun n hn => ?_⟩
    rcases hshut with rfl | rfl
    · exact hold n hn
    · rcases List.mem_append.mp hn with hn | hn
      · exact hold n hn
      · refine .inr ⟨rfl, ?_⟩
        have hempty : xs = [] := List.length_eq_zero_iff.mp (hxs.count ▸ not_not.mp hcc)
        rw [(Prod.mk.inj (List.mem_singleton.mp hn)).2, ← hstream, hempty, List.append_nil]

theorem read (h : Intact c) {mss : Nat} {first second : Input}
    (hallowed : Allowed c (.read mss first second)) :
    ∃ c', perform c (.read mss first second) = .ok c' ∧ Intact c' := by
  obtain ⟨hhost, hacked⟩ := h.host
  obtain ⟨so', nn, got, hso, hrecv, hshut⟩ := soread_receives hhost hallowed first second
  obtain ⟨xs, hxs, hstream⟩ := h.guest
  refine ⟨_, by rw [perform, hso]; rfl, ⟨xs, ?_, ?_⟩, ⟨?_, ?_⟩, ?_, ?_, ?_⟩
  · dsimp only
    rw [hrecv.rcv]
    exact hxs
  · dsimp only
    rw [hrecv.sent]
    exact hstream
  · dsimp only
    rw [hrecv.received, List.drop_append_of_le_length hacked]
    exact hrecv.snd
  · dsimp only
    rw [hrecv.received, List.length_append]
    omega
  · exact fun hd => h.drain (hrecv.drain hd)
  · exact fun hd => h.closed (hrecv.closed hd)
  · intro n hn
    refine h.shut n ?_
    rcases hshut with hsame | hnew
    · exact hsame ▸ hn
    · rw [hnew, List.mem_append] at hn
      rcases hn with hn | hn
      · exact hn
      · exact absurd (Prod.mk.inj (List.mem_singleton.mp hn)).1 (by decide)

theorem acknowledge (h : Intact c) (num : Nat) :
    ∃ c', perform c (.acknowledge num) = .ok c' ∧ Intact c' := by
  obtain ⟨hhost, hacked⟩ := h.host
  have hcount := hhost.count
  rw [List.length_drop] at hcount
  refine ⟨_, rfl, h.guest, ⟨?_, ?_⟩, h.drain, h.closed, h.shut⟩
  · dsimp only
    rw [← List.drop_drop]
    rcases Nat.lt_or_ge (c.so.received.drop c.acked).length num with hlt | hle
    · have hmin : min num c.so.snd.cc = (c.so.received.drop c.acked).length := by
        rw [List.length_drop] at hlt ⊢
        omega
      rw [hhost.drop_all hlt, hmin]
      exact hhost.drop le_rfl
    · have hmin : min num c.so.snd.cc = num := by
        rw [List.length_drop] at hle
        omega
      rw [hmin]
      exact hhost.drop hle
  · dsimp only
    omega

/-- What every call keeps. -/
theorem perform (h : Intact c) (hallowed : Allowed c e) :
    ∃ c', Slirp.perform c e = .ok c' ∧ Intact c' := by
  cases e with
  | append m ordinary oob => exact h.append hallowed
  | urgent ahead => exact ⟨_, rfl, h.guest, h.host, h.drain, h.closed, h.shut⟩
  | write oob first second => exact h.write hallowed
  | finish => exact h.finish
  | read mss first second => exact h.read hallowed
  | acknowledge num => exact h.acknowledge num

theorem step (h : Intact c) (hallowed : Allowed c e) (hstep : step c e = some c') : Intact c' := by
  obtain ⟨c₁, hperform, hc₁⟩ := h.perform hallowed
  rw [Slirp.step, hperform] at hstep
  exact Option.some.inj hstep ▸ hc₁

end Intact

theorem intact_of_reaches (hsnd : 0 < sndspace.length) (hrcv : 0 < rcvspace.length)
    (hsnd' : sndspace.length < uintSize) (hrcv' : rcvspace.length < uintSize)
    (h : Reaches step Allowed (Conn.start sndspace rcvspace) c) : Intact c :=
  h.invariant (start_intact hsnd hrcv hsnd' hrcv') fun hc ha hs => hc.step ha hs

/-- Four bytes of room each way. -/
def smallRoom : List Byte := List.replicate 4 0

/-- The host takes one byte of three, gives two, and the guest finishes. -/
def session : List Event :=
  [.append [1, 2, 3] (.count 1) .again, .read 4 (.bytes [9, 8]) .again, .acknowledge 1, .finish]

/-- `CONN_CANFSEND`. -/
def canfsend (so : Socket) : Bool := !so.state.fcantsendmore && so.state.isfconnected

/-- The part of `slirp_select_poll` for a socket that the host can take data from; it was selected
for writing when it could send and had something to send. -/
def pollWrite (c : Conn) (oob first second : Answer) : Except Fault Conn :=
  if canfsend c.so = true ∧ c.so.rcv.cc ≠ 0 then perform c (.write oob first second) else .ok c

def pollWrites (c : Conn) : List (Answer × Answer × Answer) → Except Fault Conn
  | [] => .ok c
  | (oob, first, second) :: rest => do
    let c ← pollWrite c oob first second
    pollWrites c rest

theorem pollWrites_idle (hcc : c.so.rcv.cc = 0) (turns : List (Answer × Answer × Answer)) :
    pollWrites c turns = .ok c := by
  induction turns with
  | nil => rfl
  | cons turn turns ih =>
    rw [pollWrites, pollWrite, if_neg (by simp [hcc]), Except.ok_bind]
    exact ih

theorem Intact.sent_eq (h : Intact c) (hcc : c.so.rcv.cc = 0) : c.so.sent = c.appended := by
  obtain ⟨xs, hxs, hstream⟩ := h.guest
  obtain rfl : xs = [] := List.length_eq_zero_iff.mp (hxs.count ▸ hcc)
  rw [← hstream, List.append_nil]

theorem Intact.drains {turns : List (Answer × Answer × Answer)} (h : Intact c) (hurgc : c.so.urgc = 0)
    (hsend : canfsend c.so = true) (hfd : c.so.state.nofdref = false)
    (hempty : c.so.state.fwdrain = true → c.so.rcv.cc ≠ 0)
    (htakes : ∀ turn ∈ turns, turn.2.1.Takes) (hturns : c.so.rcv.cc ≤ turns.length) :
    ∃ c', pollWrites c turns = .ok c' ∧ c'.so.sent = c.appended ∧ c'.so.rcv.cc = 0 ∧
      (c.so.state.fwdrain = true → (.send, c.appended.length) ∈ c'.so.shut) := by
  induction turns generalizing c with
  | nil =>
    have hcc : c.so.rcv.cc = 0 := Nat.le_zero.mp hturns
    exact ⟨c, rfl, h.sent_eq hcc, hcc, fun hdrain => absurd hcc (hempty hdrain)⟩
  | cons turn turns ih =>
    obtain ⟨oob, first, second⟩ := turn
    obtain ⟨htake, htakes⟩ := List.forall_mem_cons.mp htakes
    by_cases hcc : c.so.rcv.cc = 0
    · exact ⟨c, pollWrites_idle hcc _, h.sent_eq hcc, hcc,
        fun hdrain => absurd hcc (hempty hdrain)⟩
    have hallowed : Allowed c (.write oob first second) := by
      rw [Allowed, hurgc]
      exact ⟨Nat.zero_le _, fun h0 => absurd rfl h0⟩
    obtain ⟨xs, hxs, hstream⟩ := h.guest
    have hne : xs ≠ [] := List.ne_nil_of_length_pos (by rw [← hxs.count]; omega)
    obtain ⟨so', nn, k, hso, ⟨hsends, -⟩, hurgc', hadvances⟩ :=
      sowrite_wrote hxs (by rw [hurgc]; exact Nat.zero_le _)
        (fun h0 => absurd hurgc h0 : c.so.urgc ≠ 0 → ∃ n, oob = .count n) first second
    obtain ⟨hpos, hkept, hends⟩ := hadvances hurgc htake hne
    obtain ⟨c', hperform, hc'⟩ := h.write hallowed
    obtain rfl : c' = { c with so := so', broken := c.broken || decide (nn = -1) } := by
      rw [Slirp.perform, hso] at hperform
      exact (Except.ok.inj hperform).symm
    have hcount := hsends.rcv.count
    have hfits := hsends.fits
    have hxscount := hxs.count
    rw [List.length_drop] at hcount
    rw [pollWrites, pollWrite, if_pos ⟨hsend, hcc⟩, hperform, Except.ok_bind]
    by_cases hlast : c.so.state.fwdrain = false ∨ k < xs.length
    · have hstate := hkept hlast
      rw [List.length_cons] at hturns
      obtain ⟨c₁, hpoll, hsent, hcc₁, hshut⟩ := ih hc' (hurgc' hurgc)
        (by rw [canfsend, hstate]; exact hsend) (by rw [hstate]; exact hfd)
        (fun hdrain => by
          rw [hstate] at hdrain
          rcases hlast with hlast | hlast
          · rw [hdrain] at hlast
            exact absurd hlast (by decide)
          · dsimp only
            omega)
        htakes (by dsimp only; omega)
      refine ⟨c₁, hpoll, hsent, hcc₁, fun hdrain => hshut ?_⟩
      rw [hstate]
      exact hdrain
    · obtain ⟨hdrain, hall⟩ := not_or.mp hlast
      have hk : k = xs.length := by omega
      have hcc' : so'.rcv.cc = 0 := by omega
      have hsent := hc'.sent_eq hcc'
      refine ⟨_, pollWrites_idle hcc' turns, hsent, hcc', fun hdrain => ?_⟩
      have hshut := hends hdrain hk hfd
      dsimp only at hsent
      rw [hsent] at hshut
      exact hshut

end SheepShear.Slirp
