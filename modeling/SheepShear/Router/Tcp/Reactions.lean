import SheepShear.Lib.Steps
import SheepShear.Router.Tcp.Events

/-!
# What an event does to a slot

Each event is taken apart into what becomes of one slot. As long as a slot is
free when one is needed, a slot changes in one of a few ways: it is released by
`find_socket`, given to a new connection, or handles an event of its own
connection.
-/

namespace SheepShear.Router.Tcp

variable {s : State} {t i : Index} {ftpPorts : List Port} {seg : Segment} {h : Host}

-- ---------------------------------------------------------------------------
-- What stays
-- ---------------------------------------------------------------------------

variable {c c' c'' : Conn}

/-- The slot belongs to the same connection, and its log grows. -/
structure SameSlot (c c' : Conn) : Prop where
  srcPort : c'.srcPort = c.srcPort
  destPort : c'.destPort = c.destPort
  child : c'.child = c.child
  inUse : c'.inUse = c.inUse
  log : c.log <+: c'.log

theorem SameSlot.trans (h : SameSlot c c') (h' : SameSlot c' c'') : SameSlot c c'' :=
  ⟨h'.srcPort.trans h.srcPort, h'.destPort.trans h.destPort, h'.child.trans h.child,
    h'.inUse.trans h.inUse, h.log.trans h'.log⟩

theorem bRecfrom_sameSlot (c : Conn) (h : Host) : SameSlot c (c.bRecfrom h) := by
  unfold Conn.bRecfrom
  split
  · split <;> exact ⟨rfl, rfl, rfl, rfl, List.prefix_append ..⟩
  · exact ⟨rfl, rfl, rfl, rfl, List.prefix_rfl⟩

theorem sendBuffer_sameSlot (c : Conn) (resending : Bool) :
    SameSlot c (c.sendBuffer resending) := by
  unfold Conn.sendBuffer
  split_ifs
  · exact ⟨rfl, rfl, rfl, rfl, List.prefix_rfl⟩
  · exact ⟨rfl, rfl, rfl, rfl, List.prefix_append ..⟩
  · exact ⟨rfl, rfl, rfl, rfl, List.prefix_append ..⟩

theorem reply_sameSlot (c : Conn) (flags : Flags) (state : TcpState) :
    SameSlot c ((c.tcpReply flags).enter state) :=
  ⟨rfl, rfl, rfl, rfl, (List.prefix_append ..).trans (List.prefix_append ..)⟩

theorem replyAndEnter_sameSlot (c : Conn) (flags : Flags) (state : TcpState) :
    SameSlot c (c.replyAndEnter flags state) :=
  ⟨rfl, rfl, rfl, rfl, (List.prefix_append ..).trans (List.prefix_append ..)⟩

theorem readSwitch_sameSlot (c : Conn) (data : List Byte) (now : Word) :
    SameSlot c (c.readSwitch data now) := by
  have hsame : SameSlot c c := ⟨rfl, rfl, rfl, rfl, List.prefix_rfl⟩
  unfold Conn.readSwitch
  split
  · split_ifs
    · exact replyAndEnter_sameSlot ..
    · exact hsame
  · split_ifs
    · exact replyAndEnter_sameSlot ..
    · exact hsame
  · have hsyn := replyAndEnter_sameSlot c { syn := true } .synSent
    exact ⟨hsyn.srcPort, hsyn.destPort, hsyn.child, hsyn.inUse, hsyn.log⟩
  · have hfin := replyAndEnter_sameSlot c { ack := true, fin := true } .lastAck
    dsimp only
    split_ifs
    · exact ⟨hfin.srcPort, hfin.destPort, hfin.child, hfin.inUse, hfin.log⟩
    · exact hfin
    · exact hsame
  · exact hsame

theorem passOn_sameSlot (c : Conn) (data : List Byte) : SameSlot c (c.passOn data) := by
  unfold Conn.passOn
  split_ifs
  · exact ⟨rfl, rfl, rfl, rfl, List.prefix_rfl⟩
  · have hemit : SameSlot c (c.emit (.received data)) :=
      ⟨rfl, rfl, rfl, rfl, List.prefix_append ..⟩
    exact hemit.trans (sendBuffer_sameSlot _ false)

theorem filled_sameSlot (c : Conn) (data : List Byte) : SameSlot c (c.filled data) :=
  ⟨rfl, rfl, rfl, rfl, List.prefix_rfl⟩

theorem readDone_sameSlot (c : Conn) (data : List Byte) (h : Host) :
    SameSlot c (c.readDone data h) := by
  have hswitch := (passOn_sameSlot c data).trans (readSwitch_sameSlot _ data h.now)
  unfold Conn.readDone
  dsimp only
  split_ifs
  · exact hswitch.trans (bRecfrom_sameSlot _ h)
  · exact hswitch

theorem tcpWriteCompletion_sameSlot (c : Conn) (bytesWritten : Word) (h : Host) :
    SameSlot c (c.tcpWriteCompletion bytesWritten h) := by
  unfold Conn.tcpWriteCompletion
  dsimp only
  split_ifs
  · exact ⟨rfl, rfl, rfl, rfl, List.prefix_append ..⟩
  · exact ⟨rfl, rfl, rfl, rfl, List.prefix_append ..⟩
  · exact ⟨rfl, rfl, rfl, rfl, (List.prefix_append ..).trans (List.prefix_append ..)⟩
  · exact ⟨rfl, rfl, rfl, rfl, (List.prefix_append ..).trans (List.prefix_append ..)⟩

theorem tcpConnectCallback_sameSlot (c : Conn) : SameSlot c c.tcpConnectCallback := by
  unfold Conn.tcpConnectCallback
  split
  · exact replyAndEnter_sameSlot ..
  · exact ⟨rfl, rfl, rfl, rfl, List.prefix_rfl⟩

theorem resend_sameSlot (c : Conn) (now : Word) : SameSlot c (c.resend now) := by
  have hstalled : SameSlot c { c with streamToMacStalledUntil := now + c.resendTimeout } :=
    ⟨rfl, rfl, rfl, rfl, List.prefix_rfl⟩
  exact hstalled.trans (sendBuffer_sameSlot _ true)

theorem receive_sameSlot (c : Conn) (seg : Segment) : SameSlot c (c.receive seg).unstall := by
  have hreceive : SameSlot c (c.receive seg) := by
    unfold Conn.receive
    dsimp only
    split_ifs <;> exact ⟨rfl, rfl, rfl, rfl, List.prefix_append ..⟩
  unfold Conn.unstall
  split_ifs
  · exact ⟨hreceive.srcPort, hreceive.destPort, hreceive.child, hreceive.inUse, hreceive.log⟩
  · exact hreceive

theorem ackFin_sameSlot (c : Conn) (state : TcpState) :
    SameSlot c (c.ackFin.closeOrShutdown.enter state) := by
  have hfin : SameSlot c c.ackFin := ⟨rfl, rfl, rfl, rfl, List.prefix_append ..⟩
  have hclose : SameSlot c c.ackFin.closeOrShutdown := by
    unfold Conn.closeOrShutdown
    split_ifs
    · exact ⟨hfin.srcPort, hfin.destPort, hfin.child, hfin.inUse, hfin.log⟩
    · exact hfin
  exact ⟨hclose.srcPort, hclose.destPort, hclose.child, hclose.inUse,
    hclose.log.trans (List.prefix_append ..)⟩

/-- The state switch, for a segment with the ports of the connection. -/
theorem stateSwitch_sameSlot (now : Word) (hsrc : c.srcPort = seg.srcPort)
    (hdest : c.destPort = seg.destPort) : SameSlot c (c.stateSwitch seg now).conn := by
  have hsame : SameSlot c c := ⟨rfl, rfl, rfl, rfl, List.prefix_rfl⟩
  have henter : ∀ state, SameSlot c (c.enter state) :=
    fun state => ⟨rfl, rfl, rfl, rfl, List.prefix_append ..⟩
  unfold Conn.stateSwitch
  dsimp only
  split
  case h_1 =>
    split_ifs
    · exact ⟨hsrc.symm, hdest.symm, rfl, rfl, List.prefix_append ..⟩
    · exact ⟨hsrc.symm, hdest.symm, rfl, rfl, List.prefix_rfl⟩
  case h_2 => exact hsame
  case h_3 =>
    split_ifs
    · exact ⟨rfl, rfl, rfl, rfl, (List.prefix_append ..).trans (List.prefix_append ..)⟩
    · exact ⟨rfl, rfl, rfl, rfl, (List.prefix_append ..).trans (List.prefix_append ..)⟩
    · exact ⟨rfl, rfl, rfl, rfl, List.prefix_append ..⟩
    · exact hsame
  case h_4 =>
    split_ifs
    · exact ⟨rfl, rfl, rfl, rfl, List.prefix_append ..⟩
    · exact hsame
  case h_5 =>
    split_ifs
    · exact ⟨rfl, rfl, rfl, rfl, (List.prefix_append ..).trans (List.prefix_append ..)⟩
    · exact hsame
  case h_6 => exact hsame
  case h_7 => exact hsame
  case h_8 =>
    have hfin := ackFin_sameSlot c .timeWait
    split_ifs
    · exact ⟨hfin.srcPort, hfin.destPort, hfin.child, hfin.inUse, hfin.log⟩
    · exact ackFin_sameSlot c .closing
    · exact henter .finwait2
    · exact hsame
  case h_9 =>
    have hfin := ackFin_sameSlot c .timeWait
    split_ifs
    · exact ⟨hfin.srcPort, hfin.destPort, hfin.child, hfin.inUse, hfin.log⟩
    · exact hsame
  case h_10 =>
    split_ifs
    · exact ⟨rfl, rfl, rfl, rfl, List.prefix_append ..⟩
    · exact hsame
  case h_11 => exact hsame

-- ---------------------------------------------------------------------------
-- Segments that free the slot
-- ---------------------------------------------------------------------------

theorem unstall_state (c : Conn) : c.unstall.state = c.state := by
  unfold Conn.unstall
  split_ifs <;> rfl

/-- A segment is only the end of a closed connection or one that waits for the last ACK. -/
theorem stateSwitch_freed {now : Word} (hfreed : (c.stateSwitch seg now).freed = true) :
    (c.state = .closed ∨ c.state = .lastAck) ∧ (c.stateSwitch seg now).handleData = false ∧
      (c.stateSwitch seg now).initiateRead = false := by
  cases hstate : c.state with
  | closed =>
    refine ⟨.inl rfl, ?_⟩
    simp only [Conn.stateSwitch, hstate]
    split_ifs <;> exact ⟨rfl, rfl⟩
  | lastAck => exact ⟨.inr rfl, by simp [Conn.stateSwitch, hstate]⟩
  | _ =>
    simp only [Conn.stateSwitch, hstate] at hfreed
    first | exact absurd hfreed Bool.false_ne_true | split_ifs at hfreed

/-- A segment that frees the slot does nothing else. -/
theorem arrive_freed {now : Word} (hfreed : (c.arrive seg now).freed = true) :
    (c.arrive seg now).handleData = false ∧ (c.arrive seg now).initiateRead = false := by
  obtain ⟨hstate, hdata, hread⟩ := stateSwitch_freed hfreed
  rw [unstall_state] at hstate
  refine ⟨hdata, ?_⟩
  have hresumes : (c.receive seg).resumes = false := by
    unfold Conn.resumes
    rcases hstate with hs | hs
    · simp [hs]
    · simp [hs]
  simp [Conn.arrive, hresumes, hread]

theorem arrive_conn_of_freed {now : Word} (hfreed : (c.arrive seg now).freed = true) :
    (c.arrive seg now).conn = ((c.receive seg).unstall.stateSwitch seg now).conn.free :=
  if_pos hfreed

theorem arrive_conn_of_not_freed {now : Word} (hfreed : ¬(c.arrive seg now).freed = true) :
    (c.arrive seg now).conn = ((c.receive seg).unstall.stateSwitch seg now).conn :=
  if_neg hfreed

theorem writeTcp_freed {lst : Option Index} (hfreed : (c.arrive seg h.now).freed = true) :
    c.writeTcp ftpPorts seg lst h = (c.arrive seg h.now).conn := by
  obtain ⟨hdata, hread⟩ := arrive_freed hfreed
  simp [Conn.writeTcp, Conn.handleSegment, hdata, hread]

-- ---------------------------------------------------------------------------
-- The tables
-- ---------------------------------------------------------------------------

@[simp] theorem act_self (f : Conn → Conn) : (s.act t f).sockets t = f (s.sockets t) :=
  Function.update_self ..

theorem act_of_ne (f : Conn → Conn) (hne : i ≠ t) : (s.act t f).sockets i = s.sockets i :=
  Function.update_of_ne hne ..

@[simp] theorem act_lSockets (f : Conn → Conn) : (s.act t f).lSockets = s.lSockets := rfl

@[simp] theorem setListener_sockets (l : Listener) : (s.setListener i l).sockets = s.sockets := rfl

@[simp] theorem closeListener_sockets : (closeListener s i).sockets = s.sockets := rfl

@[simp] theorem closeChild_sockets : (closeChild s t).sockets = s.sockets := by
  unfold closeChild
  split <;> rfl

@[simp] theorem freeSocket_self : (freeSocket s t).sockets t = (s.sockets t).free := by
  simp [freeSocket]

theorem freeSocket_of_ne (hne : i ≠ t) : (freeSocket s t).sockets i = s.sockets i := by
  rw [freeSocket, act_of_ne _ hne, closeChild_sockets]

@[simp] theorem allocListenSocket_sockets (port : Port) (ip iface : Word) (once : Bool) :
    (allocListenSocket s port ip iface once).2.sockets = s.sockets := by
  unfold allocListenSocket
  split <;> rfl

@[simp] theorem tcpStartListen_sockets (sock : Option Nat) :
    (tcpStartListen s i sock).sockets = s.sockets := by
  unfold tcpStartListen
  split <;> rfl

@[simp] theorem openFtpListener_sockets (port : Port) (ip : Word) :
    (openFtpListener s t port ip h).2.sockets = s.sockets := by
  have hs := allocListenSocket_sockets (s := s) port ip 0 true
  unfold openFtpListener
  generalize allocListenSocket s port ip 0 true = r at hs
  obtain ⟨lst, s'⟩ := r
  cases lst with
  | none => exact hs
  | some i =>
    dsimp only at hs ⊢
    rw [setListener_sockets, tcpStartListen_sockets, hs]

@[simp] theorem listenersForData_sockets (c : Conn) :
    (listenersForData s ftpPorts t c h).2.sockets = s.sockets := by
  have hr : (if c.ftpDataPort ftpPorts = 0 then (some 1, s)
      else openFtpListener s t (c.ftpDataPort ftpPorts) c.ipDest h).2.sockets = s.sockets := by
    split
    · rfl
    · exact openFtpListener_sockets ..
  unfold listenersForData
  dsimp only
  split
  · exact hr
  · exact hr

theorem start_sockets (ports : List (Port × Word)) (socks : Index → Option Nat) :
    (State.start ports socks).sockets = fun _ => {} := by
  have hlisten : ∀ (is : List Index) (s : State),
      (is.foldl (fun s i => tcpStartListen s i (socks i)) s).sockets = s.sockets := by
    intro is
    induction is with
    | nil => exact fun s => rfl
    | cons i is ih => exact fun s => (ih _).trans (tcpStartListen_sockets _)
  have hports : ∀ (ports : List (Port × Word)) (s : State),
      (initTcpListenPorts s ports).sockets = s.sockets := by
    intro ports
    induction ports with
    | nil => exact fun s => rfl
    | cons p ports ih =>
      intro s
      refine (ih _).trans ?_
      dsimp only
      split_ifs
      · rfl
      · exact allocListenSocket_sockets ..
  exact (hlisten _ _).trans (hports ports State.init)

/-- The loop over the table finds a free entry if there is one. -/
theorem probe_free (last : Option Index) {free : Index → Bool} (hfree : ∃ i, free i = true) :
    free (probe last free) = true := by
  obtain ⟨i, hi⟩ := hfree
  have hmem : i ∈ probes last := by
    exact List.mem_map.mpr ⟨i - last.elim 0 (· + 1), List.mem_finRange _, add_sub_cancel ..⟩
  unfold probe
  cases hfind : (probes last).find? free with
  | none => exact absurd hi (List.find?_eq_none.mp hfind i hmem)
  | some j => exact List.find?_some hfind

theorem getSocketIndex_some {srcPort destPort : Port}
    (hfound : getSocketIndex s srcPort destPort = some t) :
    (s.sockets t).inUse = true ∧ (s.sockets t).srcPort = srcPort ∧
      (s.sockets t).destPort = destPort := by
  have ht := List.find?_some hfound
  simpa [and_assoc] using ht

theorem getSocketIndex_none {srcPort destPort : Port}
    (hnone : getSocketIndex s srcPort destPort = none) (hused : (s.sockets t).inUse = true)
    (hsrc : (s.sockets t).srcPort = srcPort) : (s.sockets t).destPort ≠ destPort := by
  have ht := List.find?_eq_none.mp hnone t (List.mem_finRange t)
  simpa [hused, hsrc] using ht

theorem getSocketIndexBySource_some {srcPort : Port}
    (hfound : getSocketIndexBySource s srcPort = some t) :
    (s.sockets t).inUse = true ∧ (s.sockets t).srcPort = srcPort := by
  have ht := List.find?_some hfound
  simpa using ht

-- ---------------------------------------------------------------------------
-- Releasing and allocating
-- ---------------------------------------------------------------------------

/-- What `find_socket` does to slot `t` when no connection has the ports. -/
inductive Released (s : State) (srcPort : Port) (t : Index) : Conn → Prop where
  | same : Released s srcPort t (s.sockets t)
  | reused : getSocketIndexBySource s srcPort = some t → (s.sockets t).s = none →
    Released s srcPort t { s.sockets t with inUse := false }
  | forced : getSocketIndexBySource s srcPort = some t → (s.sockets t).s ≠ none →
    Released s srcPort t (s.sockets t).free

theorem findSocket_of_some {srcPort destPort : Port}
    (hfound : getSocketIndex s srcPort destPort = some t) :
    findSocket s srcPort destPort = (some t, s) := by
  rw [findSocket, hfound]

theorem findSocket_of_none {srcPort destPort : Port}
    (hnone : getSocketIndex s srcPort destPort = none) :
    (findSocket s srcPort destPort).1 = none ∧
      ∀ t, Released s srcPort t ((findSocket s srcPort destPort).2.sockets t) := by
  unfold findSocket
  rw [hnone]
  dsimp only
  cases hsource : getSocketIndexBySource s srcPort with
  | none => exact ⟨rfl, fun t => .same⟩
  | some i =>
    dsimp only
    split
    case isTrue hs =>
      refine ⟨rfl, fun t => ?_⟩
      rcases eq_or_ne t i with rfl | hne
      · rw [act_self]
        exact .reused hsource hs
      · rw [act_of_ne _ hne]
        exact .same
    case isFalse hs =>
      refine ⟨rfl, fun t => ?_⟩
      rcases eq_or_ne t i with rfl | hne
      · rw [freeSocket_self]
        exact .forced hsource hs
      · rw [freeSocket_of_ne hne]
        exact .same

/-- The slot is given to a connection. -/
def Conn.opened (c : Conn) (sock : Nat) (srcPort destPort : Port) (ipDest : Word) : Conn :=
  c.alloc.bindNew sock srcPort destPort ipDest

/-- What an attempt to allocate that fails does to a free slot. -/
inductive OpenFailed (c : Conn) : Conn → Prop where
  | socket : OpenFailed c c.alloc.free
  | bind {sock : Nat} {srcPort destPort : Port} {ipDest : Word} :
    OpenFailed c (c.opened sock srcPort destPort ipDest).free

theorem allocSocket_of_room (hroom : ∃ i, (s.sockets i).inUse = false) :
    ∃ t, (s.sockets t).inUse = false ∧
      allocSocket s = (some t, { s.act t Conn.alloc with lastAllocatedSocket := some t }) := by
  have hroom : ∃ i, (!(s.sockets i).inUse) = true := by simpa using hroom
  have hfree := probe_free s.lastAllocatedSocket hroom
  rw [Bool.not_eq_true'] at hfree
  refine ⟨_, hfree, ?_⟩
  unfold allocSocket
  dsimp only
  rw [if_neg (Nat.ne_of_lt (Fin.isLt _)), if_neg (by rw [hfree]; decide)]

theorem allocNewSocket_of_room (srcPort destPort : Port) (ipDest : Word) (h : Host)
    (hroom : ∃ i, (s.sockets i).inUse = false) :
    ∃ t, (s.sockets t).inUse = false ∧ (allocSocket s).1 = some t ∧
      (∀ i, i ≠ t →
        (allocNewSocket s srcPort destPort ipDest h).2.sockets i = s.sockets i) ∧
      (allocNewSocket s srcPort destPort ipDest h).2.lSockets = s.lSockets ∧
      ((∃ sock, (allocNewSocket s srcPort destPort ipDest h).1 = some t ∧
          (allocNewSocket s srcPort destPort ipDest h).2.sockets t =
            (s.sockets t).opened sock srcPort destPort ipDest) ∨
        (allocNewSocket s srcPort destPort ipDest h).1 = none ∧
          OpenFailed (s.sockets t)
            ((allocNewSocket s srcPort destPort ipDest h).2.sockets t)) := by
  obtain ⟨t, hfree, halloc⟩ := allocSocket_of_room hroom
  refine ⟨t, hfree, by rw [halloc], ?_⟩
  unfold allocNewSocket
  rw [halloc]
  dsimp only
  cases h.socket with
  | none =>
    dsimp only
    refine ⟨fun i hne => ?_, ?_, .inr ⟨rfl, ?_⟩⟩
    · rw [freeSocket_of_ne hne, act_of_ne _ hne]
      exact act_of_ne _ hne
    · simp [freeSocket, closeChild, Conn.alloc, State.act]
    · rw [freeSocket_self, act_self]
      change OpenFailed _ { (s.act t Conn.alloc).sockets t with s := none }.free
      rw [act_self]
      exact .socket
  | some sock =>
    dsimp only
    split
    · refine ⟨fun i hne => ?_, rfl, .inl ⟨sock, rfl, ?_⟩⟩
      · rw [act_of_ne _ hne]
        exact act_of_ne _ hne
      · simp [State.act, Conn.opened]
    · refine ⟨fun i hne => ?_, ?_, .inr ⟨rfl, ?_⟩⟩
      · rw [freeSocket_of_ne hne, act_of_ne _ hne]
        exact act_of_ne _ hne
      · simp [freeSocket, closeChild, Conn.alloc, Conn.bindNew, State.act]
      · rw [freeSocket_self, act_self]
        change OpenFailed _ (((s.act t Conn.alloc).sockets t).bindNew sock srcPort destPort ipDest).free
        rw [act_self]
        exact .bind

-- ---------------------------------------------------------------------------
-- Reactions
-- ---------------------------------------------------------------------------

/-- A slot is free whenever the event needs one. -/
def Room (s : State) : Event → Prop
  | .write seg _ => getSocketIndex s seg.srcPort seg.destPort = none →
    ∃ i, ((findSocket s seg.srcPort seg.destPort).2.sockets i).inUse = false
  | .listener lst (.accept (some r)) _ => (s.lSockets lst).ip = 0 ∨ (s.lSockets lst).ip = r.addr →
    ∃ i, (s.sockets i).inUse = false
  | _ => True

instance (s : State) : (e : Event) → Decidable (Room s e)
  | .write seg _ => inferInstanceAs (Decidable (getSocketIndex s seg.srcPort seg.destPort = none →
    ∃ i, ((findSocket s seg.srcPort seg.destPort).2.sockets i).inUse = false))
  | .listener lst (.accept (some r)) _ => inferInstanceAs (Decidable
    ((s.lSockets lst).ip = 0 ∨ (s.lSockets lst).ip = r.addr → ∃ i, (s.sockets i).inUse = false))
  | .listener _ (.accept none) _ => isTrue trivial
  | .listener _ .acceptError _ => isTrue trivial
  | .listener _ .other _ => isTrue trivial
  | .listener _ .failed _ => isTrue trivial
  | .readCompletion _ _ _ _ => isTrue trivial
  | .writeCompletion _ _ _ => isTrue trivial
  | .network _ _ => isTrue trivial
  | .timer _ => isTrue trivial

/-- The slot that the event opens a connection in, if it does. -/
def opens (s : State) : Event → Option Index
  | .write seg _ => (allocSocket (findSocket s seg.srcPort seg.destPort).2).1
  | .listener _ _ _ => (allocSocket s).1
  | _ => none

/-- What becomes of slot `t`. -/
inductive Reaction (ftpPorts : List Port) (s : State) (t : Index) : Event → Conn → Prop where
  | same {e : Event} : Reaction ftpPorts s t e (s.sockets t)
  | released {seg : Segment} {h : Host} {c : Conn} :
    getSocketIndex s seg.srcPort seg.destPort = none → Released s seg.srcPort t c →
    Reaction ftpPorts s t (.write seg h) c
  | openFailed {seg : Segment} {h : Host} {c c' : Conn} :
    getSocketIndex s seg.srcPort seg.destPort = none → Released s seg.srcPort t c →
    opens s (.write seg h) = some t → c.inUse = false → OpenFailed c c' →
    Reaction ftpPorts s t (.write seg h) c'
  | openReset {seg : Segment} {h : Host} {c : Conn} {sock : Nat} :
    getSocketIndex s seg.srcPort seg.destPort = none → Released s seg.srcPort t c →
    opens s (.write seg h) = some t → c.inUse = false → seg.flags.rst = true →
    Reaction ftpPorts s t (.write seg h) (c.opened sock seg.srcPort seg.destPort seg.ipDest).free
  | openWrite {seg : Segment} {h : Host} {c : Conn} {sock : Nat} {lst : Option Index} :
    getSocketIndex s seg.srcPort seg.destPort = none → Released s seg.srcPort t c →
    opens s (.write seg h) = some t → c.inUse = false → seg.flags.rst = false →
    Reaction ftpPorts s t (.write seg h)
      ((c.opened sock seg.srcPort seg.destPort seg.ipDest).writeTcp ftpPorts seg lst h)
  | reset {seg : Segment} {h : Host} :
    getSocketIndex s seg.srcPort seg.destPort = some t → seg.flags.rst = true →
    Reaction ftpPorts s t (.write seg h) (s.sockets t).free
  | write {seg : Segment} {h : Host} {lst : Option Index} :
    getSocketIndex s seg.srcPort seg.destPort = some t → seg.flags.rst = false →
    Reaction ftpPorts s t (.write seg h) ((s.sockets t).writeTcp ftpPorts seg lst h)
  | canceled {error : Bool} {data : List Byte} {h : Host} : (s.sockets t).inUse = false →
    Reaction ftpPorts s t (.readCompletion t error data h) ((s.sockets t).filled data)
  | readError {data : List Byte} {h : Host} : (s.sockets t).inUse = true →
    Reaction ftpPorts s t (.readCompletion t true data h)
      (((s.sockets t).filled data).tcpReply { rst := true }).free
  | readDone {data : List Byte} {h : Host} : (s.sockets t).inUse = true →
    Reaction ftpPorts s t (.readCompletion t false data h)
      (((s.sockets t).filled data).readDone data h)
  | writeDone {bytesWritten : Word} {h : Host} :
    Reaction ftpPorts s t (.writeCompletion t bytesWritten h)
      ((s.sockets t).tcpWriteCompletion bytesWritten h)
  | connect : (s.sockets t).inUse = true →
    Reaction ftpPorts s t (.network t (.connect false)) (s.sockets t).tcpConnectCallback
  | close : (s.sockets t).inUse = true →
    Reaction ftpPorts s t (.network t .close) { s.sockets t with remoteClosed := true }
  | lost : (s.sockets t).inUse = true →
    Reaction ftpPorts s t (.network t .failed) (s.sockets t).free
  | expired {now : Word} : (s.sockets t).inUse = true → (s.sockets t).timeWait ≠ 0 →
    (s.sockets t).timeWait ≤ now → Reaction ftpPorts s t (.timer now) (s.sockets t).free
  | resent {now : Word} : (s.sockets t).inUse = true → (s.sockets t).timeWait = 0 →
    (s.sockets t).streamToMacStalledUntil ≠ 0 → (s.sockets t).state = .established →
    (s.sockets t).streamToMacStalledUntil ≤ now →
    Reaction ftpPorts s t (.timer now) ((s.sockets t).resend now)
  | unstalled {now : Word} : (s.sockets t).inUse = true → (s.sockets t).state ≠ .established →
    Reaction ftpPorts s t (.timer now) { s.sockets t with streamToMacStalledUntil := 0 }
  | acceptFailed {lst : Index} {r : Incoming} {h : Host} {c : Conn} :
    opens s (.listener lst (.accept (some r)) h) = some t → (s.sockets t).inUse = false →
    OpenFailed (s.sockets t) c → Reaction ftpPorts s t (.listener lst (.accept (some r)) h) c
  | accepted {lst : Index} {r : Incoming} {h : Host} {sock : Nat} :
    opens s (.listener lst (.accept (some r)) h) = some t → (s.sockets t).inUse = false →
    Reaction ftpPorts s t (.listener lst (.accept (some r)) h)
      (((s.sockets t).opened sock (s.lSockets lst).port r.port r.addr).accepted r.sock
        (s.lSockets lst).port r.port r.addr h)
  | orphaned {lst : Index} {what : ListenEvents} {h : Host} {c : Conn} :
    (s.lSockets lst).parent = some t → (s.lSockets lst).once = true →
    Reaction ftpPorts s t (.listener lst what h) c →
    Reaction ftpPorts s t (.listener lst what h) { c with child := none }

@[simp] theorem segmentListeners_sockets :
    (segmentListeners s ftpPorts t seg h).2.sockets = s.sockets := by
  unfold segmentListeners
  dsimp only
  split <;> split <;> simp

theorem writeSegment_self (hrst : seg.flags.rst = false) :
    ∃ lst, (writeSegment s ftpPorts t seg h).sockets t =
      (s.sockets t).writeTcp ftpPorts seg lst h := by
  refine ⟨(segmentListeners s ftpPorts t seg h).1, ?_⟩
  rw [writeSegment, if_neg (by rw [hrst]; decide), act_self, segmentListeners_sockets]

theorem writeSegment_of_ne (hne : i ≠ t) :
    (writeSegment s ftpPorts t seg h).sockets i = s.sockets i := by
  unfold writeSegment
  split
  · exact freeSocket_of_ne hne
  · rw [act_of_ne _ hne, segmentListeners_sockets]

theorem writeTcp_reaction (hroom : Room s (.write seg h)) :
    Reaction ftpPorts s t (.write seg h) ((writeTcp s ftpPorts seg h).sockets t) := by
  unfold writeTcp
  cases hfound : getSocketIndex s seg.srcPort seg.destPort with
  | some i =>
    rw [findSocket_of_some hfound]
    dsimp only
    rcases eq_or_ne t i with rfl | hne
    · cases hrst : seg.flags.rst with
      | true =>
        rw [writeSegment, if_pos hrst, freeSocket_self]
        exact .reset hfound hrst
      | false =>
        obtain ⟨lst, hwrite⟩ := writeSegment_self hrst
        rw [hwrite]
        exact .write hfound hrst
    · rw [writeSegment_of_ne hne]
      exact .same
  | none =>
    obtain ⟨hnone, hreleased⟩ := findSocket_of_none hfound
    have hroom := hroom hfound
    have hopens : opens s (.write seg h) =
        (allocSocket (findSocket s seg.srcPort seg.destPort).2).1 := rfl
    generalize findSocket s seg.srcPort seg.destPort = r at hnone hreleased hroom hopens
    obtain ⟨o, s'⟩ := r
    dsimp only at hnone hreleased hroom hopens
    subst hnone
    dsimp only
    obtain ⟨i, hfree, halloc, hother, -, hcases⟩ :=
      allocNewSocket_of_room seg.srcPort seg.destPort seg.ipDest h hroom
    rw [halloc] at hopens
    generalize allocNewSocket s' seg.srcPort seg.destPort seg.ipDest h = r at hother hcases
    obtain ⟨o, s''⟩ := r
    dsimp only at hother hcases
    rcases hcases with ⟨sock, rfl, hopened⟩ | ⟨rfl, hfailed⟩
    · dsimp only
      rcases eq_or_ne t i with rfl | hne
      · cases hrst : seg.flags.rst with
        | true =>
          rw [writeSegment, if_pos hrst, freeSocket_self, hopened]
          exact .openReset hfound (hreleased t) hopens hfree hrst
        | false =>
          obtain ⟨lst, hwrite⟩ := writeSegment_self hrst
          rw [hwrite, hopened]
          exact .openWrite hfound (hreleased t) hopens hfree hrst
      · rw [writeSegment_of_ne hne, hother t hne]
        exact .released hfound (hreleased t)
    · dsimp only
      rcases eq_or_ne t i with rfl | hne
      · exact .openFailed hfound (hreleased t) hopens hfree hfailed
      · rw [hother t hne]
        exact .released hfound (hreleased t)

/-- The timeouts of a slot, as far as the slot goes. -/
def Conn.timedOut (c : Conn) (now : Word) : Conn :=
  if c.inUse = false then c
  else if c.timeWait ≠ 0 then if c.timeWait ≤ now then c.free else c
  else if c.streamToMacStalledUntil ≠ 0 then
    if c.state = .established then if c.streamToMacStalledUntil ≤ now then c.resend now else c
    else { c with streamToMacStalledUntil := 0 }
  else c

theorem timeout_self (now : Word) : (timeout s now t).sockets t = (s.sockets t).timedOut now := by
  unfold timeout Conn.timedOut
  dsimp only
  split_ifs <;> first | rfl | exact freeSocket_self | exact act_self _

theorem timeout_of_ne (now : Word) (hne : i ≠ t) :
    (timeout s now t).sockets i = s.sockets i := by
  unfold timeout
  dsimp only
  split_ifs <;> first | rfl | exact freeSocket_of_ne hne | exact act_of_ne _ hne

theorem foldl_timeout (now : Word) {is : List Index} (hnodup : is.Nodup) (t : Index) :
    ((is.foldl (fun s i => timeout s now i) s).sockets t) =
      if t ∈ is then (s.sockets t).timedOut now else s.sockets t := by
  induction is generalizing s with
  | nil => rfl
  | cons i is ih =>
    obtain ⟨hi, hnodup⟩ := List.nodup_cons.mp hnodup
    rw [List.foldl_cons, ih hnodup]
    rcases eq_or_ne t i with rfl | hne
    · rw [if_neg hi, if_pos List.mem_cons_self, timeout_self]
    · rw [timeout_of_ne now hne]
      simp only [List.mem_cons, hne, false_or]

theorem timeouts_sockets (now : Word) (t : Index) :
    (timeouts s now).sockets t = (s.sockets t).timedOut now := by
  rw [timeouts, foldl_timeout now (List.nodup_finRange 64), if_pos (List.mem_finRange t)]

theorem timeouts_reaction (now : Word) :
    Reaction ftpPorts s t (.timer now) ((timeouts s now).sockets t) := by
  rw [timeouts_sockets]
  unfold Conn.timedOut
  split_ifs with hfree hwait hexpired hstalled hstate hresend
  · exact .same
  · exact .expired (Bool.not_eq_false _ ▸ hfree) hwait hexpired
  · exact .same
  · exact .resent (Bool.not_eq_false _ ▸ hfree) (not_not.mp hwait) hstalled hstate hresend
  · exact .same
  · exact .unstalled (Bool.not_eq_false _ ▸ hfree) hstate
  · exact .same

theorem readCompletion_reaction (i : Index) (error : Bool) (data : List Byte) :
    Reaction ftpPorts s t (.readCompletion i error data h)
      ((tcpReadCompletion s i error data h).sockets t) := by
  unfold tcpReadCompletion
  dsimp only
  rcases eq_or_ne t i with rfl | hne
  · rw [act_self]
    split_ifs with hfree herror
    · rw [act_self]
      exact .canceled hfree
    · rw [freeSocket_self, act_self, act_self]
      subst herror
      exact .readError (by simpa [Conn.filled] using hfree)
    · rw [act_self, act_self]
      rw [Bool.not_eq_true] at herror
      subst herror
      exact .readDone (by simpa [Conn.filled] using hfree)
  · split_ifs
    · rw [act_of_ne _ hne]
      exact .same
    · rw [freeSocket_of_ne hne, act_of_ne _ hne, act_of_ne _ hne]
      exact .same
    · rw [act_of_ne _ hne, act_of_ne _ hne]
      exact .same

theorem networkEvent_of_ne (what : NetworkEvents) (hne : i ≠ t) :
    (networkEvent s t what).sockets i = s.sockets i := by
  unfold networkEvent
  split_ifs
  · rfl
  · cases what with
    | connect error =>
      dsimp only
      split
      · rfl
      · exact act_of_ne _ hne
    | close => exact act_of_ne _ hne
    | other => rfl
    | notSock => rfl
    | failed => exact freeSocket_of_ne hne

theorem networkEvent_reaction (i : Index) (what : NetworkEvents) :
    Reaction ftpPorts s t (.network i what) ((networkEvent s i what).sockets t) := by
  rcases eq_or_ne t i with rfl | hne
  · unfold networkEvent
    split_ifs with hfree
    · exact .same
    have hused : (s.sockets t).inUse = true := by simpa using hfree
    cases what with
    | connect error =>
      cases error with
      | true => exact .same
      | false =>
        dsimp only
        rw [if_neg Bool.false_ne_true, act_self]
        exact .connect hused
    | close =>
      dsimp only
      rw [act_self]
      exact .close hused
    | other => exact .same
    | notSock => exact .same
    | failed =>
      dsimp only
      rw [freeSocket_self]
      exact .lost hused
  · rw [networkEvent_of_ne what hne]
    exact .same

theorem tcpAcceptCallback_reaction {lst : Index} {incoming : Option Incoming}
    (hroom : Room s (.listener lst (.accept incoming) h)) :
    (tcpAcceptCallback s lst incoming h).lSockets = s.lSockets ∧
      ∀ t, Reaction ftpPorts s t (.listener lst (.accept incoming) h)
        ((tcpAcceptCallback s lst incoming h).sockets t) := by
  cases incoming with
  | none => exact ⟨rfl, fun t => .same⟩
  | some r =>
    unfold tcpAcceptCallback
    dsimp only
    split_ifs with hauth
    · exact ⟨rfl, fun t => .same⟩
    have hroom := hroom (by
      rw [not_and_or, not_not, not_not] at hauth
      exact hauth)
    obtain ⟨i, hfree, halloc, hother, hlisteners, hcases⟩ :=
      allocNewSocket_of_room (s.lSockets lst).port r.port r.addr h hroom
    generalize allocNewSocket s (s.lSockets lst).port r.port r.addr h = q
      at hother hlisteners hcases
    obtain ⟨o, s'⟩ := q
    dsimp only at hother hlisteners hcases
    rcases hcases with ⟨sock, rfl, hopened⟩ | ⟨rfl, hfailed⟩
    · refine ⟨hlisteners, fun t => ?_⟩
      dsimp only
      rcases eq_or_ne t i with rfl | hne
      · rw [act_self, hopened]
        exact .accepted halloc hfree
      · rw [act_of_ne _ hne, hother t hne]
        exact .same
    · refine ⟨hlisteners, fun t => ?_⟩
      dsimp only
      rcases eq_or_ne t i with rfl | hne
      · exact .acceptFailed halloc hfree hfailed
      · rw [hother t hne]
        exact .same

theorem handleAccept_reaction {lst : Index} {what : ListenEvents}
    (hroom : Room s (.listener lst what h)) :
    (handleAccept s lst what h).lSockets = s.lSockets ∧
      ∀ t, Reaction ftpPorts s t (.listener lst what h) ((handleAccept s lst what h).sockets t) := by
  cases what with
  | accept incoming => exact tcpAcceptCallback_reaction hroom
  | acceptError => exact ⟨rfl, fun t => .same⟩
  | other => exact ⟨rfl, fun t => .same⟩
  | failed => exact ⟨rfl, fun t => .same⟩

theorem listenEvent_reaction {lst : Index} {what : ListenEvents}
    (hroom : Room s (.listener lst what h)) :
    Reaction ftpPorts s t (.listener lst what h) ((listenEvent s lst what h).sockets t) := by
  obtain ⟨hlisteners, hreact⟩ := handleAccept_reaction hroom
  unfold listenEvent closeOnce
  rw [hlisteners]
  split_ifs with honce
  · cases hparent : (s.lSockets lst).parent with
    | none => exact hreact t
    | some i =>
      dsimp only
      rw [closeListener_sockets]
      rcases eq_or_ne t i with rfl | hne
      · rw [act_self]
        exact .orphaned hparent honce (hreact t)
      · rw [act_of_ne _ hne]
        exact hreact t
  · exact hreact t

theorem writeCompletion_reaction (i : Index) (bytesWritten : Word) :
    Reaction ftpPorts s t (.writeCompletion i bytesWritten h)
      ((s.act i fun c => c.tcpWriteCompletion bytesWritten h).sockets t) := by
  rcases eq_or_ne t i with rfl | hne
  · rw [act_self]
    exact .writeDone
  · rw [act_of_ne _ hne]
    exact .same

theorem handle_reaction {e : Event} (hroom : Room s e) (t : Index) :
    Reaction ftpPorts s t e ((handle s ftpPorts e).sockets t) := by
  cases e with
  | write seg h => exact writeTcp_reaction hroom
  | readCompletion i error data h => exact readCompletion_reaction i error data
  | writeCompletion i bytesWritten h => exact writeCompletion_reaction i bytesWritten
  | network i what => exact networkEvent_reaction i what
  | timer now =>
    rw [handle]
    exact timeouts_reaction now
  | listener lst what h => exact listenEvent_reaction hroom

/-- The state after a sequence of events. -/
def State.after (ftpPorts : List Port) (s : State) (es : List Event) : State :=
  es.foldl (fun s e => handle s ftpPorts e) s

theorem run_after (ftpPorts : List Port) (s : State) (es : List Event) :
    Steps.run (step ftpPorts) s es = some (s.after ftpPorts es) := by
  induction es generalizing s with
  | nil => rfl
  | cons e es ih => exact ih (handle s ftpPorts e)

theorem reaches_after {guard : State → Event → Prop} {es : List Event}
    (hguard : Steps.Guarded (step ftpPorts) guard s es) :
    Steps.Reaches (step ftpPorts) guard s (s.after ftpPorts es) :=
  Steps.Reaches.start.run_append (run_after ftpPorts s es) hguard

theorem guarded_nil (ftpPorts : List Port) (guard : State → Event → Prop) (s : State) :
    Steps.Guarded (step ftpPorts) guard s [] := trivial

theorem guarded_cons {guard : State → Event → Prop} {e : Event} {es : List Event} (he : guard s e)
    (hes : Steps.Guarded (step ftpPorts) guard (handle s ftpPorts e) es) :
    Steps.Guarded (step ftpPorts) guard s (e :: es) := ⟨he, hes⟩

end SheepShear.Router.Tcp
