import SheepShear.Router.Tcp.Reactions

/-!
# The TCP state machine of the router

The table at the head of `tcp.cpp`, and the assignments to the state of a slot
checked against it. Every assignment outside `free_socket` is in the log of the
slot, with the segments around it. Three things lead outside the table: a bare
ACK for a connection that waits for the SYN of the Mac, a slot that `find_socket`
only marks as free, and a full table.
-/

namespace SheepShear.Router.Tcp

variable {s s' s₀ : State} {t : Index} {ftpPorts : List Port} {seg : Segment} {h : Host}
  {c c' c'' : Conn} {e : Event}

-- ---------------------------------------------------------------------------
-- The table
-- ---------------------------------------------------------------------------

/-- The segments of the table. -/
inductive Kind where
  | syn
  | synAck
  | ack
  | fin
  | rst
deriving DecidableEq, Repr

def Flags.kind? (f : Flags) : Option Kind :=
  if f.rst then some .rst
  else if f.fin then some .fin
  else if f.syn then some (if f.ack then .synAck else .syn)
  else if f.ack then some .ack
  else none

/-- All possible transitions, each with the segment that goes with it. -/
def transition : TcpState → TcpState → Option (Option Kind)
  | .closed, .listen => some none
  | .closed, .synSent => some (some .syn)
  | .listen, .synSent => some (some .syn)
  | .listen, .synRcvd => some (some .synAck)
  | .synSent, .synRcvd => some (some .synAck)
  | .synSent, .established => some (some .ack)
  | .synSent, .closed => some none
  | .synRcvd, .closed => some (some .rst)
  | .synRcvd, .listen => some none
  | .synRcvd, .established => some none
  | .synRcvd, .finwait1 => some (some .fin)
  | .established, .finwait1 => some (some .fin)
  | .established, .closeWait => some (some .ack)
  | .closeWait, .lastAck => some (some .fin)
  | .lastAck, .closed => some none
  | .finwait1, .closing => some (some .ack)
  | .finwait1, .finwait2 => some none
  | .finwait1, .timeWait => some (some .ack)
  | .finwait2, .timeWait => some (some .ack)
  | .closing, .timeWait => some none
  | .timeWait, .closed => some none
  | _, _ => none

/-- Whether a segment of the kind is enqueued for the Mac. -/
def Action.enqueues (k : Kind) : Action → Bool
  | .replied seg => seg.flags.kind? = some k
  | .delivered _ seg => seg.flags.kind? = some k
  | _ => false

/-- Every change of state is in the table, and its segment is enqueued once. -/
def Conforms (as : List Action) : Prop :=
  ∀ old new, .moved old new ∈ as → old ≠ new →
    ∃ segment, transition old new = some segment ∧
      ∀ k, segment = some k → as.countP (·.enqueues k) = 1

/-- The state after the actions, none if they do not start from this one. -/
def replay : TcpState → List Action → Option TcpState
  | state, [] => some state
  | state, .moved old new :: as => if old = state then replay new as else none
  | _, .freed :: as => replay .closed as
  | state, _ :: as => replay state as

theorem replay_append {state state' : TcpState} {as bs : List Action}
    (h : replay state as = some state') : replay state (as ++ bs) = replay state' bs := by
  induction as generalizing state with
  | nil => rw [Option.some.inj h, List.nil_append]
  | cons a as ih =>
    cases a with
    | moved old new =>
      rw [List.cons_append]
      rw [replay] at h ⊢
      split_ifs at h ⊢
      exact ih h
    | freed => exact ih h
    | allocated => exact ih h
    | fromMac => exact ih h
    | replied => exact ih h
    | delivered => exact ih h
    | wsaSend => exact ih h
    | wrote => exact ih h
    | wsaRecv => exact ih h
    | received => exact ih h

-- ---------------------------------------------------------------------------
-- Logs
-- ---------------------------------------------------------------------------

/-- Neither a change of the state nor a segment. -/
def Action.Silent : Action → Prop
  | .moved old new => old = new
  | .replied _ => False
  | .delivered _ _ => False
  | _ => True

theorem Action.Silent.enqueues {a : Action} (ha : a.Silent) (k : Kind) : a.enqueues k = false := by
  cases a with
  | replied => exact ha.elim
  | delivered => exact ha.elim
  | _ => rfl

theorem Conforms.append_silent {as bs : List Action} (h : Conforms as) (hbs : ∀ a ∈ bs, a.Silent) :
    Conforms (as ++ bs) := by
  intro old new hmem hne
  rcases List.mem_append.mp hmem with hmem | hmem
  · obtain ⟨segment, htransition, hcount⟩ := h old new hmem hne
    refine ⟨segment, htransition, fun k hk => ?_⟩
    have hnone : bs.countP (·.enqueues k) = 0 := by
      refine List.countP_eq_zero.mpr fun a ha => ?_
      rw [(hbs a ha).enqueues k]
      exact Bool.false_ne_true
    rw [List.countP_append, hnone, Nat.add_zero]
    exact hcount k hk
  · exact absurd (hbs _ hmem) hne

theorem Conforms.silent_append {as bs : List Action} (h : Conforms bs) (has : ∀ a ∈ as, a.Silent) :
    Conforms (as ++ bs) := by
  intro old new hmem hne
  rcases List.mem_append.mp hmem with hmem | hmem
  · exact absurd (has _ hmem) hne
  · obtain ⟨segment, htransition, hcount⟩ := h old new hmem hne
    refine ⟨segment, htransition, fun k hk => ?_⟩
    have hnone : as.countP (·.enqueues k) = 0 := by
      refine List.countP_eq_zero.mpr fun a ha => ?_
      rw [(has a ha).enqueues k]
      exact Bool.false_ne_true
    rw [List.countP_append, hnone, Nat.zero_add]
    exact hcount k hk

theorem conforms_nil : Conforms [] := fun _ _ hmem => absurd hmem List.not_mem_nil

/-- The log grows by actions that say how the state changes, in accordance with the table. -/
def Traced (c c' : Conn) : Prop :=
  ∃ as, c'.log = c.log ++ as ∧ replay c.state as = some c'.state ∧ Conforms as

/-- The log grows by actions that need no segment. -/
def Silently (c c' : Conn) : Prop :=
  ∃ as, c'.log = c.log ++ as ∧ (∀ a ∈ as, a.Silent) ∧ replay c.state as = some c'.state

theorem Silently.refl (c : Conn) : Silently c c := ⟨[], (List.append_nil _).symm, by simp, rfl⟩

theorem Silently.trans (h : Silently c c') (h' : Silently c' c'') : Silently c c'' := by
  obtain ⟨as, hlog, hsilent, hreplay⟩ := h
  obtain ⟨bs, hlog', hsilent', hreplay'⟩ := h'
  refine ⟨as ++ bs, ?_, ?_, ?_⟩
  · rw [hlog', hlog, List.append_assoc]
  · rintro a ha
    rcases List.mem_append.mp ha with ha | ha
    · exact hsilent a ha
    · exact hsilent' a ha
  · rw [replay_append hreplay, hreplay']

theorem Traced.refl (c : Conn) : Traced c c := ⟨[], (List.append_nil _).symm, rfl, conforms_nil⟩

theorem Traced.silently (h : Traced c c') (h' : Silently c' c'') : Traced c c'' := by
  obtain ⟨as, hlog, hreplay, hconforms⟩ := h
  obtain ⟨bs, hlog', hsilent, hreplay'⟩ := h'
  refine ⟨as ++ bs, ?_, ?_, hconforms.append_silent hsilent⟩
  · rw [hlog', hlog, List.append_assoc]
  · rw [replay_append hreplay, hreplay']

theorem Silently.traced (h : Silently c c') (h' : Traced c' c'') : Traced c c'' := by
  obtain ⟨as, hlog, hsilent, hreplay⟩ := h
  obtain ⟨bs, hlog', hreplay', hconforms⟩ := h'
  refine ⟨as ++ bs, ?_, ?_, hconforms.silent_append hsilent⟩
  · rw [hlog', hlog, List.append_assoc]
  · rw [replay_append hreplay, hreplay']

theorem free_silently (c : Conn) : Silently c c.free :=
  ⟨[.freed], rfl, by simp [Action.Silent], rfl⟩

theorem alloc_silently (hstate : c.state = .closed) : Silently c c.alloc := by
  refine ⟨[.allocated, .moved c.state .closed], rfl, by simp [Action.Silent, hstate], ?_⟩
  rw [hstate]
  rfl

/-- The state and the fields around it stay. -/
structure Quietly (c c' : Conn) : Prop where
  state : c'.state = c.state
  timeWait : c'.timeWait = c.timeWait
  msl : c'.msl = c.msl
  inUse : c'.inUse = c.inUse
  log : Silently c c'

theorem Quietly.refl (c : Conn) : Quietly c c := ⟨rfl, rfl, rfl, rfl, .refl c⟩

theorem Quietly.trans (h : Quietly c c') (h' : Quietly c' c'') : Quietly c c'' :=
  ⟨h'.state.trans h.state, h'.timeWait.trans h.timeWait, h'.msl.trans h.msl,
    h'.inUse.trans h.inUse, h.log.trans h'.log⟩

-- ---------------------------------------------------------------------------
-- What leaves the state alone
-- ---------------------------------------------------------------------------

theorem bRecfrom_quietly (c : Conn) (h : Host) : Quietly c (c.bRecfrom h) := by
  unfold Conn.bRecfrom
  split
  · cases h.recv with
    | pending => exact ⟨rfl, rfl, rfl, rfl, [.wsaRecv true], rfl, by simp [Action.Silent], rfl⟩
    | done bytes => exact ⟨rfl, rfl, rfl, rfl, [.wsaRecv true], rfl, by simp [Action.Silent], rfl⟩
    | failed => exact ⟨rfl, rfl, rfl, rfl, [.wsaRecv false], rfl, by simp [Action.Silent], rfl⟩
  · exact ⟨rfl, rfl, rfl, rfl, [], (List.append_nil _).symm, by simp, rfl⟩

theorem takeData_quietly (c : Conn) (seg : Segment) (lst : Option Index) (h : Host) :
    Quietly c (c.takeData ftpPorts seg lst h) := by
  unfold Conn.takeData
  dsimp only
  cases lst with
  | none =>
    dsimp only
    split_ifs <;> exact ⟨rfl, rfl, rfl, rfl, [.wsaSend _ _], rfl, by simp [Action.Silent], rfl⟩
  | some lst =>
    dsimp only
    split_ifs <;> exact ⟨rfl, rfl, rfl, rfl, [.wsaSend _ _], rfl, by simp [Action.Silent], rfl⟩

/-- The segment before the state switch. -/
theorem receive_quietly (c : Conn) (seg : Segment) : Quietly c (c.receive seg).unstall := by
  have hreceive : Quietly c (c.receive seg) := by
    unfold Conn.receive
    dsimp only
    split_ifs <;> exact ⟨rfl, rfl, rfl, rfl, [.fromMac seg], rfl, by simp [Action.Silent], rfl⟩
  unfold Conn.unstall
  split_ifs
  · exact ⟨hreceive.state, hreceive.timeWait, hreceive.msl, hreceive.inUse, hreceive.log⟩
  · exact hreceive

-- ---------------------------------------------------------------------------
-- The switches
-- ---------------------------------------------------------------------------

/-- A reply and the transition that it goes with. -/
theorem conforms_reply {old new : TcpState} {k : Kind} (htransition : transition old new = some (some k))
    {seg : Segment} (hkind : seg.flags.kind? = some k) : Conforms [.replied seg, .moved old new] := by
  intro old' new' hmem _
  have heq : old' = old ∧ new' = new := by simpa using hmem
  obtain ⟨rfl, rfl⟩ := heq
  refine ⟨some k, htransition, ?_⟩
  rintro k' hk
  cases hk
  simp [Action.enqueues, hkind]

theorem conforms_move {old new : TcpState} (htransition : transition old new = some none) :
    Conforms [.moved old new] := by
  intro old' new' hmem _
  have heq : old' = old ∧ new' = new := by simpa using hmem
  obtain ⟨rfl, rfl⟩ := heq
  exact ⟨none, htransition, nofun⟩

/-- The other fields do not matter. -/
theorem Traced.congr {c₁ c₁' : Conn} (h : Traced c c') (hlog : c₁.log = c.log)
    (hstate : c₁.state = c.state) (hlog' : c₁'.log = c'.log) (hstate' : c₁'.state = c'.state) :
    Traced c₁ c₁' := by
  obtain ⟨as, hlogs, hreplay, hconforms⟩ := h
  exact ⟨as, by rw [hlog', hlog, hlogs], by rw [hstate, hstate', hreplay], hconforms⟩

theorem enter_traced {new : TcpState} (htransition : transition c.state new = some none) :
    Traced c (c.enter new) :=
  ⟨_, rfl, by simp [replay, Conn.enter], conforms_move htransition⟩

theorem reply_traced {flags : Flags} {new : TcpState} {k : Kind}
    (htransition : transition c.state new = some (some k)) (hkind : flags.kind? = some k) :
    Traced c ((c.tcpReply flags).enter new) := by
  refine ⟨[.replied (c.segment flags []), .moved c.state new], ?_, ?_,
    conforms_reply htransition hkind⟩
  · simp [Conn.tcpReply, Conn.emit, Conn.enter]
  · simp [replay, Conn.enter]

theorem replyAndEnter_traced {flags : Flags} {new : TcpState} {k : Kind}
    (htransition : transition c.state new = some (some k)) (hkind : flags.kind? = some k) :
    Traced c (c.replyAndEnter flags new) :=
  (reply_traced htransition hkind).congr rfl rfl rfl rfl

@[simp] theorem closeOrShutdown_log (c : Conn) : c.closeOrShutdown.log = c.log := by
  unfold Conn.closeOrShutdown
  split_ifs <;> rfl

@[simp] theorem closeOrShutdown_state (c : Conn) : c.closeOrShutdown.state = c.state := by
  unfold Conn.closeOrShutdown
  split_ifs <;> rfl

/-- The FIN of the Mac is acknowledged and the socket closed or shut down. -/
theorem ackFin_traced {new : TcpState} (htransition : transition c.state new = some (some .ack)) :
    Traced c (c.ackFin.closeOrShutdown.enter new) := by
  have hreply : Traced { c with seqIn := c.seqIn + 1 } (c.ackFin.enter new) :=
    reply_traced htransition rfl
  refine hreply.congr rfl rfl ?_ rfl
  simp [Conn.enter]

theorem stateSwitch_traced (seg : Segment) (now : Word)
    (hbare : c.state = .synSent → seg.flags.syn = false → seg.flags.ack = false) :
    Traced c (c.stateSwitch seg now).conn := by
  unfold Conn.stateSwitch
  dsimp only
  split
  case h_1 hstate =>
    split_ifs
    · have henter : Traced c (c.enter .listen) := enter_traced (by rw [hstate]; rfl)
      exact henter.congr rfl rfl rfl rfl
    · exact (Traced.refl c).congr rfl rfl rfl rfl
  case h_2 => exact .refl c
  case h_3 hstate =>
    split_ifs with hboth hsyn hack
    · have hreply : Traced { c with seqIn := seg.seq + 1 }
          (({ c with seqIn := seg.seq + 1 } : Conn).tcpReply { ack := true } |>.enter .established) :=
        reply_traced (by rw [hstate]; rfl) rfl
      exact hreply.congr rfl rfl rfl rfl
    · have hreply : Traced { c with seqIn := seg.seq + 1 }
          (({ c with seqIn := seg.seq + 1 } : Conn).replyAndEnter { ack := true, syn := true }
            .synRcvd) :=
        replyAndEnter_traced (by rw [hstate]; rfl) rfl
      exact hreply.congr rfl rfl rfl rfl
    · exact absurd hack (by rw [hbare hstate (Bool.eq_false_of_not_eq_true hsyn)]; decide)
    · exact .refl c
  case h_4 hstate =>
    split_ifs
    · have henter : Traced c (c.enter .established) := enter_traced (by rw [hstate]; rfl)
      exact henter.congr rfl rfl rfl rfl
    · exact .refl c
  case h_5 hstate =>
    split_ifs
    · have hreply : Traced { c with seqIn := c.seqIn + 1 } (c.ackFin.enter .closeWait) :=
        reply_traced (by rw [hstate]; rfl) rfl
      exact hreply.congr rfl rfl rfl rfl
    · exact .refl c
  case h_6 => exact .refl c
  case h_7 => exact .refl c
  case h_8 hstate =>
    split_ifs
    · have hfin : Traced c (c.ackFin.closeOrShutdown.enter .timeWait) :=
        ackFin_traced (by rw [hstate]; rfl)
      exact hfin.congr rfl rfl rfl rfl
    · exact ackFin_traced (by rw [hstate]; rfl)
    · exact enter_traced (by rw [hstate]; rfl)
    · exact .refl c
  case h_9 hstate =>
    split_ifs
    · have hfin : Traced c (c.ackFin.closeOrShutdown.enter .timeWait) :=
        ackFin_traced (by rw [hstate]; rfl)
      exact hfin.congr rfl rfl rfl rfl
    · exact .refl c
  case h_10 hstate =>
    split_ifs
    · have henter : Traced c (c.enter .timeWait) := enter_traced (by rw [hstate]; rfl)
      exact henter.congr rfl rfl rfl rfl
    · exact .refl c
  case h_11 => exact .refl c

-- ---------------------------------------------------------------------------
-- Free slots and TIME_WAIT
-- ---------------------------------------------------------------------------

/-- A slot that is not in use is reset, and TIME_WAIT has its timeout. -/
structure Tidy (c : Conn) : Prop where
  free : c.inUse = false → c.s = none ∧ c.state = .closed ∧ c.timeWait = 0 ∧ c.child = none
  timeWait : c.state = .timeWait → c.timeWait ≠ 0
  msl : c.inUse = true → c.msl = 5000

theorem Tidy.ofUsed (hused : c.inUse = true) (htimeWait : c.state = .timeWait → c.timeWait ≠ 0)
    (hmsl : c.msl = 5000) : Tidy c :=
  ⟨fun hfree => absurd (hfree.symm.trans hused) Bool.false_ne_true, htimeWait, fun _ => hmsl⟩

theorem free_tidy (c : Conn) : Tidy c.free := ⟨fun _ => ⟨rfl, rfl, rfl, rfl⟩, nofun, nofun⟩

theorem Tidy.quietly (h : Tidy c) (hused : c.inUse = true) (hquiet : Quietly c c') : Tidy c' := by
  refine .ofUsed (hquiet.inUse.trans hused) ?_ (hquiet.msl.trans (h.msl hused))
  rw [hquiet.state, hquiet.timeWait]
  exact h.timeWait

/-- Whether the segment brings the connection to TIME_WAIT. -/
def Conn.entersTimeWait (c : Conn) (seg : Segment) : Bool :=
  match c.state with
  | .finwait1 => seg.flags.fin && seg.flags.ack
  | .finwait2 => seg.flags.fin
  | .closing => seg.flags.ack
  | _ => false

theorem stateSwitch_tidy {now : Word} (h : Tidy c) (hused : c.inUse = true)
    (hwait : c.entersTimeWait seg = true → now + 10000 ≠ 0) :
    Tidy (c.stateSwitch seg now).conn ∧ (c.stateSwitch seg now).conn.inUse = true := by
  have hmsl := h.msl hused
  unfold Conn.entersTimeWait at hwait
  have hclose : ∀ c' : Conn, c'.closeOrShutdown.msl = c'.msl ∧ c'.closeOrShutdown.inUse = c'.inUse := by
    intro c'
    unfold Conn.closeOrShutdown
    split_ifs <;> exact ⟨rfl, rfl⟩
  have htimeWait : ∀ c' : Conn, c'.msl = 5000 → c'.inUse = true → now + 10000 ≠ 0 →
      Tidy (c'.enterTimeWait now) ∧ (c'.enterTimeWait now).inUse = true := by
    intro c' hmsl' hused' hnow
    refine ⟨.ofUsed hused' (fun _ => ?_) hmsl', hused'⟩
    dsimp only [Conn.enterTimeWait]
    rw [hmsl']
    exact hnow
  have hother : ∀ c' : Conn, c'.msl = 5000 → c'.inUse = true → c'.state ≠ .timeWait →
      Tidy c' ∧ c'.inUse = true :=
    fun c' hmsl' hused' hstate => ⟨.ofUsed hused' (fun hs => absurd hs hstate) hmsl', hused'⟩
  unfold Conn.stateSwitch
  dsimp only
  split
  case h_1 hstate =>
    split_ifs
    · exact hother _ hmsl hused nofun
    · exact hother _ hmsl hused (by rw [hstate]; nofun)
  case h_2 => exact ⟨h, hused⟩
  case h_3 =>
    split_ifs
    · exact hother _ hmsl hused nofun
    · exact hother _ hmsl hused nofun
    · exact hother _ hmsl hused nofun
    · exact ⟨h, hused⟩
  case h_4 =>
    split_ifs
    · exact hother _ hmsl hused nofun
    · exact ⟨h, hused⟩
  case h_5 =>
    split_ifs
    · exact hother _ hmsl hused nofun
    · exact ⟨h, hused⟩
  case h_6 => exact ⟨h, hused⟩
  case h_7 => exact ⟨h, hused⟩
  case h_8 hstate =>
    rw [hstate] at hwait
    split_ifs with hboth hfin hack
    · exact htimeWait _ ((hclose _).1.trans hmsl) ((hclose _).2.trans hused)
        (hwait (by simp [hboth]))
    · exact hother _ ((hclose _).1.trans hmsl) ((hclose _).2.trans hused) nofun
    · exact hother _ hmsl hused nofun
    · exact ⟨h, hused⟩
  case h_9 hstate =>
    rw [hstate] at hwait
    split_ifs with hfin
    · exact htimeWait _ ((hclose _).1.trans hmsl) ((hclose _).2.trans hused) (hwait hfin)
    · exact ⟨h, hused⟩
  case h_10 hstate =>
    rw [hstate] at hwait
    split_ifs with hack
    · exact htimeWait _ hmsl hused (hwait hack)
    · exact ⟨h, hused⟩
  case h_11 => exact ⟨h, hused⟩

-- ---------------------------------------------------------------------------
-- The events of a slot
-- ---------------------------------------------------------------------------

/-- Not a bare ACK while the SYN of the Mac is awaited, and no timeout of 0 for TIME_WAIT. -/
structure Regular (c : Conn) (seg : Segment) (now : Word) : Prop where
  bare : c.state = .synSent → seg.flags.syn = false → seg.flags.ack = false
  wait : c.entersTimeWait seg = true → now + 10000 ≠ 0

/-- What follows the state switch. -/
theorem writeTcp_quietly (c : Conn) (seg : Segment) (lst : Option Index) (h : Host) :
    Quietly (c.arrive seg h.now).conn (c.writeTcp ftpPorts seg lst h) := by
  have hdata : Quietly (c.arrive seg h.now).conn (c.handleSegment ftpPorts seg lst h) := by
    unfold Conn.handleSegment
    dsimp only
    split_ifs
    · exact takeData_quietly ..
    · exact .refl _
  unfold Conn.writeTcp
  dsimp only
  split_ifs
  · exact hdata.trans (bRecfrom_quietly _ h)
  · exact hdata

theorem Regular.quietly {now : Word} (h : Regular c seg now) (hquiet : Quietly c c') :
    Regular c' seg now := by
  refine ⟨?_, ?_⟩
  · rw [hquiet.state]
    exact h.bare
  · unfold Conn.entersTimeWait
    rw [hquiet.state]
    exact h.wait

theorem writeTcp_traced (hregular : Regular c seg h.now) (lst : Option Index) :
    Traced c (c.writeTcp ftpPorts seg lst h) := by
  have hquiet := receive_quietly c seg
  have hswitch := stateSwitch_traced seg h.now (hregular.quietly hquiet).bare
  have harrive : Traced c (c.arrive seg h.now).conn := by
    by_cases hfreed : (c.arrive seg h.now).freed = true
    · rw [arrive_conn_of_freed hfreed]
      exact (hquiet.log.traced hswitch).silently (free_silently _)
    · rw [arrive_conn_of_not_freed hfreed]
      exact hquiet.log.traced hswitch
  exact harrive.silently (writeTcp_quietly ..).log

theorem writeTcp_tidy (htidy : Tidy c) (hused : c.inUse = true) (hregular : Regular c seg h.now)
    (lst : Option Index) : Tidy (c.writeTcp ftpPorts seg lst h) := by
  have hquiet := receive_quietly c seg
  have hswitch := stateSwitch_tidy (htidy.quietly hused hquiet) (hquiet.inUse.trans hused)
    (hregular.quietly hquiet).wait
  by_cases hfreed : (c.arrive seg h.now).freed = true
  · rw [writeTcp_freed hfreed, arrive_conn_of_freed hfreed]
    exact free_tidy _
  · rw [← arrive_conn_of_not_freed hfreed] at hswitch
    exact hswitch.1.quietly hswitch.2 (writeTcp_quietly ..)

/-- The log grows by actions without an assignment to the state. -/
theorem traced_of_still {as : List Action} (hlog : c'.log = c.log ++ as)
    (hstate : c'.state = c.state) (hmoves : ∀ old new, .moved old new ∉ as)
    (hfreed : .freed ∉ as) : Traced c c' := by
  have hreplay : ∀ (bs : List Action) (state : TcpState), (∀ old new, .moved old new ∉ bs) →
      .freed ∉ bs → replay state bs = some state := by
    intro bs
    induction bs with
    | nil => exact fun _ _ _ => rfl
    | cons b bs ih =>
      intro state hmoves hfreed
      have hrest := ih state (fun old new hmem => hmoves old new (List.mem_cons_of_mem _ hmem))
        (fun hmem => hfreed (List.mem_cons_of_mem _ hmem))
      cases b with
      | moved old new => exact absurd List.mem_cons_self (hmoves old new)
      | freed => exact absurd List.mem_cons_self hfreed
      | _ => exact hrest
  exact ⟨as, hlog, hstate ▸ hreplay as c.state hmoves hfreed,
    fun old new hmem => absurd hmem (hmoves old new)⟩

theorem resend_traced (c : Conn) (now : Word) : Traced c (c.resend now) := by
  unfold Conn.resend Conn.sendBuffer
  rw [if_pos rfl]
  split_ifs
  · exact (Traced.refl c).congr rfl rfl rfl rfl
  · exact traced_of_still rfl rfl (by simp) (by simp)

theorem tcpWriteCompletion_traced (c : Conn) (bytesWritten : Word) (h : Host) :
    Traced c (c.tcpWriteCompletion bytesWritten h) := by
  unfold Conn.tcpWriteCompletion
  dsimp only
  split_ifs
  · exact traced_of_still rfl rfl (by simp) (by simp)
  · exact traced_of_still rfl rfl (by simp) (by simp)
  · exact traced_of_still (List.append_assoc ..) rfl (by simp) (by simp)
  · exact traced_of_still (List.append_assoc ..) rfl (by simp) (by simp)

theorem tcpConnectCallback_traced (c : Conn) : Traced c c.tcpConnectCallback := by
  unfold Conn.tcpConnectCallback
  split
  case h_1 hstate => exact replyAndEnter_traced (by rw [hstate]; rfl) rfl
  case h_2 => exact .refl c

/-- The state switch of a read with data. -/
theorem readSwitch_data {data : List Byte} (hdata : data ≠ []) (now : Word) :
    c.readSwitch data now = c ∨ c.state = .listen ∧ c.readSwitch data now =
      { c.replyAndEnter { syn := true } .synSent with
        timeWait := now + synFloodProtectionTimeout } := by
  unfold Conn.readSwitch
  split
  case h_3 hstate => exact .inr ⟨hstate, rfl⟩
  all_goals first | exact .inl rfl | exact .inl (if_neg hdata)

theorem readSwitch_traced (c : Conn) (data : List Byte) (now : Word) :
    Traced c (c.readSwitch data now) := by
  unfold Conn.readSwitch
  dsimp only
  split
  case h_1 hstate =>
    split_ifs
    · exact replyAndEnter_traced (by rw [hstate]; rfl) rfl
    · exact .refl c
  case h_2 hstate =>
    split_ifs
    · exact replyAndEnter_traced (by rw [hstate]; rfl) rfl
    · exact .refl c
  case h_3 hstate =>
    have hreply : Traced c (c.replyAndEnter { syn := true } .synSent) :=
      replyAndEnter_traced (by rw [hstate]; rfl) rfl
    exact hreply.congr rfl rfl rfl rfl
  case h_4 hstate =>
    have hreply : Traced c (c.replyAndEnter { ack := true, fin := true } .lastAck) :=
      replyAndEnter_traced (by rw [hstate]; rfl) rfl
    split_ifs
    · exact hreply.congr rfl rfl rfl rfl
    · exact hreply
    · exact .refl c
  case h_5 => exact .refl c

/-- Data goes to the Mac before the state switch. -/
theorem passOn_data {data : List Byte} (hdata : data ≠ []) :
    ∃ seg : Segment, seg.flags.kind? = some .ack ∧
      (c.passOn data).log = c.log ++ [.received data, .delivered false seg] ∧
      (c.passOn data).state = c.state := by
  refine ⟨(({ c.emit (.received data) with lastSeqOut := c.seqOut } : Conn)).dataSegment, rfl, ?_, ?_⟩
  · rw [Conn.passOn, if_neg hdata]
    simp [Conn.sendBuffer, Conn.emit]
  · rw [Conn.passOn, if_neg hdata]
    rfl

theorem readDone_traced (c : Conn) (data : List Byte) (h : Host) :
    Traced c (c.readDone data h) := by
  have hswitch : Traced c ((c.passOn data).readSwitch data h.now) := by
    by_cases hdata : data = []
    · have hread := readSwitch_traced (c.passOn data) data h.now
      rw [Conn.passOn, if_pos hdata] at hread ⊢
      exact hread.congr rfl rfl rfl rfl
    · obtain ⟨seg, hkind, hlog, hstate⟩ := passOn_data (c := c) hdata
      rcases readSwitch_data (c := c.passOn data) hdata h.now with hsame | ⟨hlisten, hsyn⟩
      · rw [hsame]
        exact traced_of_still hlog hstate (by simp) (by simp)
      · rw [hsyn]
        refine ⟨[.received data, .delivered false seg,
          .replied ((c.passOn data).segment { syn := true } []), .moved .listen .synSent], ?_, ?_, ?_⟩
        · simp [Conn.replyAndEnter, Conn.tcpReply, Conn.emit, Conn.enter, hlog, hlisten]
        · rw [← hstate, hlisten]
          rfl
        · intro old new hmem _
          have heq : old = .listen ∧ new = .synSent := by simpa using hmem
          obtain ⟨rfl, rfl⟩ := heq
          refine ⟨some .syn, rfl, ?_⟩
          rintro k hk
          cases hk
          simp [Action.enqueues, hkind]
          rfl
  unfold Conn.readDone
  dsimp only
  split_ifs
  · exact hswitch.silently (bRecfrom_quietly _ h).log
  · exact hswitch

theorem sendBuffer_tidy (h : Tidy c) (hused : c.inUse = true) (resending : Bool) :
    Tidy (c.sendBuffer resending) := by
  unfold Conn.sendBuffer
  split_ifs
  · exact h
  · exact .ofUsed hused h.timeWait (h.msl hused)
  · exact .ofUsed hused h.timeWait (h.msl hused)

theorem resend_tidy (h : Tidy c) (hused : c.inUse = true) (now : Word) : Tidy (c.resend now) := by
  have hstalled : Tidy { c with streamToMacStalledUntil := now + c.resendTimeout } :=
    .ofUsed hused h.timeWait (h.msl hused)
  unfold Conn.resend
  apply sendBuffer_tidy hstalled
  exact hused

theorem tcpWriteCompletion_tidy (htidy : Tidy c) (bytesWritten : Word) (h : Host) :
    Tidy (c.tcpWriteCompletion bytesWritten h) := by
  unfold Conn.tcpWriteCompletion
  dsimp only
  split_ifs <;> exact ⟨htidy.free, htidy.timeWait, htidy.msl⟩

theorem readSwitch_tidy (h : Tidy c) (hused : c.inUse = true) (data : List Byte) (now : Word) :
    Tidy (c.readSwitch data now) ∧ (c.readSwitch data now).inUse = true := by
  have hmsl := h.msl hused
  have hother : ∀ c' : Conn, c'.msl = 5000 → c'.inUse = true → c'.state ≠ .timeWait →
      Tidy c' ∧ c'.inUse = true :=
    fun c' hmsl' hused' hstate => ⟨.ofUsed hused' (fun hs => absurd hs hstate) hmsl', hused'⟩
  unfold Conn.readSwitch
  dsimp only
  split
  case h_5 => exact ⟨h, hused⟩
  all_goals
    (try split_ifs) <;> first | exact ⟨h, hused⟩ | exact hother _ hmsl hused nofun

theorem readDone_tidy (htidy : Tidy c) (hused : c.inUse = true) (data : List Byte) (h : Host) :
    Tidy (c.readDone data h) := by
  have hfirst : Tidy (c.passOn data) ∧ (c.passOn data).inUse = true := by
    unfold Conn.passOn
    split_ifs
    · exact ⟨.ofUsed hused htidy.timeWait (htidy.msl hused), hused⟩
    · have hemit : Tidy (c.emit (.received data)) :=
        .ofUsed hused htidy.timeWait (htidy.msl hused)
      exact ⟨sendBuffer_tidy hemit hused false, hused⟩
  have hswitch := readSwitch_tidy hfirst.1 hfirst.2 data h.now
  unfold Conn.readDone
  dsimp only
  split_ifs
  · exact hswitch.1.quietly hswitch.2 (bRecfrom_quietly _ h)
  · exact hswitch.1

-- ---------------------------------------------------------------------------
-- Runs
-- ---------------------------------------------------------------------------

/-- There is room for what the event opens, its segment is regular, `find_socket` does not meet a
connection without a socket, and `tcp_accept_callback` gets its slot. -/
def WithinTable (s : State) (e : Event) : Prop :=
  Room s e ∧
    match e with
    | .write seg h =>
      (∀ t, getSocketIndex s seg.srcPort seg.destPort = some t → seg.flags.rst = false →
        Regular (s.sockets t) seg h.now) ∧
      (getSocketIndex s seg.srcPort seg.destPort = none →
        ∀ t, getSocketIndexBySource s seg.srcPort = some t → (s.sockets t).s ≠ none)
    | .listener lst (.accept (some r)) h =>
      (s.lSockets lst).ip = 0 ∨ (s.lSockets lst).ip = r.addr → h.socket.isSome ∧ h.bind = true
    | _ => True

theorem opened_silently (hstate : c.state = .closed) (sock : Nat) (srcPort destPort : Port)
    (ipDest : Word) : Silently c (c.opened sock srcPort destPort ipDest) := by
  obtain ⟨as, hlog, hsilent, hreplay⟩ := alloc_silently hstate
  exact ⟨as, hlog, hsilent, hreplay⟩

theorem opened_tidy (c : Conn) (sock : Nat) (srcPort destPort : Port) (ipDest : Word) :
    Tidy (c.opened sock srcPort destPort ipDest) := .ofUsed rfl nofun rfl

/-- A segment is regular for a connection that it opens. -/
theorem opened_regular (c : Conn) (sock : Nat) (srcPort destPort : Port) (ipDest : Word)
    (seg : Segment) (now : Word) : Regular (c.opened sock srcPort destPort ipDest) seg now :=
  ⟨nofun, nofun⟩

theorem openFailed_silently (hstate : c.state = .closed) (hfailed : OpenFailed c c') :
    Silently c c' ∧ Tidy c' := by
  cases hfailed with
  | socket => exact ⟨(alloc_silently hstate).trans (free_silently _), free_tidy _⟩
  | bind => exact ⟨(opened_silently hstate _ _ _ _).trans (free_silently _), free_tidy _⟩

theorem accepted_traced (hstate : c.state = .closed) (sock : Nat) (srcPort destPort : Port)
    (ipDest : Word) (h : Host) : Traced c (c.accepted sock srcPort destPort ipDest h) := by
  refine ⟨[.moved .closed .listen, .replied (({ c.enter .listen with
    s := some sock, srcPort := srcPort, destPort := destPort, ipSrc := h.macosIpAddress,
    ipDest := ipDest, seqOut := 1, seqIn := 0, macAck := 1 } : Conn).segment { syn := true } []),
    .moved .listen .synSent], ?_, ?_, ?_⟩
  · simp [Conn.accepted, Conn.replyAndEnter, Conn.tcpReply, Conn.emit, Conn.enter, Conn.segment,
      hstate]
  · rw [hstate]
    rfl
  · intro old new hmem _
    have heq : old = .closed ∧ new = .listen ∨ old = .listen ∧ new = .synSent := by
      simpa using hmem
    rcases heq with ⟨rfl, rfl⟩ | ⟨rfl, rfl⟩
    · exact ⟨none, rfl, nofun⟩
    · refine ⟨some .syn, rfl, ?_⟩
      rintro k hk
      cases hk
      rfl

/-- What `find_socket` does to a slot when every connection with the port has a socket. -/
theorem released_silently (htidy : Tidy (s.sockets t))
    (hsock : getSocketIndexBySource s seg.srcPort = some t → (s.sockets t).s ≠ none)
    (hreleased : Released s seg.srcPort t c) :
    Silently (s.sockets t) c ∧ Tidy c ∧ (c.inUse = false → c.state = .closed) := by
  cases hreleased with
  | same => exact ⟨.refl _, htidy, fun hfree => (htidy.free hfree).2.1⟩
  | reused hsource hs => exact absurd hs (hsock hsource)
  | forced => exact ⟨free_silently _, free_tidy _, fun _ => rfl⟩

theorem reaction_traced (htidy : Tidy (s.sockets t)) (hwithin : WithinTable s e)
    (hreact : Reaction ftpPorts s t e c) : Traced (s.sockets t) c ∧ Tidy c := by
  induction hreact with
  | same => exact ⟨.refl _, htidy⟩
  | released hnone hreleased =>
    obtain ⟨hsilent, htidy', -⟩ := released_silently htidy (hwithin.2.2 hnone t) hreleased
    exact ⟨(Traced.refl _).silently hsilent, htidy'⟩
  | openFailed hnone hreleased _ hfree hfailed =>
    obtain ⟨hsilent, -, hstate⟩ := released_silently htidy (hwithin.2.2 hnone t) hreleased
    obtain ⟨hsilent', htidy'⟩ := openFailed_silently (hstate hfree) hfailed
    exact ⟨(Traced.refl _).silently (hsilent.trans hsilent'), htidy'⟩
  | @openReset seg h c sock hnone hreleased _ hfree _ =>
    obtain ⟨hsilent, -, hstate⟩ := released_silently htidy (hwithin.2.2 hnone t) hreleased
    have hopened := hsilent.trans
      (opened_silently (hstate hfree) sock seg.srcPort seg.destPort seg.ipDest)
    exact ⟨(Traced.refl _).silently (hopened.trans (free_silently _)), free_tidy _⟩
  | @openWrite seg h c sock lst hnone hreleased _ hfree _ =>
    obtain ⟨hsilent, -, hstate⟩ := released_silently htidy (hwithin.2.2 hnone t) hreleased
    have hopened := hsilent.trans
      (opened_silently (hstate hfree) sock seg.srcPort seg.destPort seg.ipDest)
    have hregular := opened_regular c sock seg.srcPort seg.destPort seg.ipDest seg h.now
    exact ⟨hopened.traced (writeTcp_traced hregular _),
      writeTcp_tidy (opened_tidy ..) rfl hregular _⟩
  | reset => exact ⟨(Traced.refl _).silently (free_silently _), free_tidy _⟩
  | write hfound hrst =>
    have hregular := hwithin.2.1 t hfound hrst
    have hused := (getSocketIndex_some hfound).1
    exact ⟨writeTcp_traced hregular _, writeTcp_tidy htidy hused hregular _⟩
  | canceled hfree =>
    exact ⟨(Traced.refl _).congr rfl rfl rfl rfl,
      ⟨htidy.free, htidy.timeWait, htidy.msl⟩⟩
  | readError =>
    refine ⟨?_, free_tidy _⟩
    have hreply : ∀ c : Conn, Traced c (c.tcpReply { rst := true }) :=
      fun c => traced_of_still rfl rfl (by simp) (by simp)
    exact ((hreply _).silently (free_silently _)).congr rfl rfl rfl rfl
  | @readDone data h hused =>
    have hfilled : Tidy ((s.sockets t).filled data) :=
      ⟨htidy.free, htidy.timeWait, htidy.msl⟩
    have hread := readDone_traced ((s.sockets t).filled data) data h
    exact ⟨hread.congr rfl rfl rfl rfl, readDone_tidy hfilled hused data h⟩
  | writeDone => exact ⟨tcpWriteCompletion_traced .., tcpWriteCompletion_tidy htidy _ _⟩
  | connect hused =>
    refine ⟨tcpConnectCallback_traced _, ?_⟩
    unfold Conn.tcpConnectCallback
    split
    · exact .ofUsed hused nofun (htidy.msl hused)
    · exact htidy
  | close hused =>
    exact ⟨(Traced.refl _).congr rfl rfl rfl rfl, .ofUsed hused htidy.timeWait (htidy.msl hused)⟩
  | lost => exact ⟨(Traced.refl _).silently (free_silently _), free_tidy _⟩
  | expired => exact ⟨(Traced.refl _).silently (free_silently _), free_tidy _⟩
  | resent hused => exact ⟨resend_traced .., resend_tidy htidy hused _⟩
  | unstalled hused =>
    exact ⟨(Traced.refl _).congr rfl rfl rfl rfl, .ofUsed hused htidy.timeWait (htidy.msl hused)⟩
  | acceptFailed _ hfree hfailed =>
    obtain ⟨hsilent, htidy'⟩ := openFailed_silently (htidy.free hfree).2.1 hfailed
    exact ⟨(Traced.refl _).silently hsilent, htidy'⟩
  | accepted _ hfree =>
    have hopened := opened_silently (htidy.free hfree).2.1
    exact ⟨(hopened _ _ _ _).traced (accepted_traced rfl _ _ _ _ _), .ofUsed rfl nofun rfl⟩
  | orphaned _ _ _ ih =>
    obtain ⟨htraced, htidy'⟩ := ih hwithin
    refine ⟨htraced.congr rfl rfl rfl rfl, fun hfree => ?_, htidy'.timeWait, htidy'.msl⟩
    obtain ⟨hs, hstate, hwait, -⟩ := htidy'.free hfree
    exact ⟨hs, hstate, hwait, rfl⟩

def AllTidy (s : State) : Prop := ∀ t, Tidy (s.sockets t)

/-- The router with a server port 80 of the Mac. -/
def webServer : State := State.start [(80, 0)] fun _ => some 5

/-- A host connects to the port. -/
def hostConnects : Event :=
  .listener 0 (.accept (some ⟨9, 5000, 0x0a000003⟩)) { socket := some 8 }

/-- The state after it. -/
def oneClient : State := handle webServer [] hostConnects

theorem oneClient_reached : Steps.Reaches (step []) WithinTable webServer oneClient := by
  refine .next .start ⟨fun _ => ⟨0, ?_⟩, fun _ => ?_⟩ rfl
  · decide +kernel
  · decide +kernel

/-- A segment of the Mac for the client with nothing but ACK. -/
def bareAck : Segment where
  ipSrc := 0x0a000002
  ipDest := 0x0a000003
  srcPort := 80
  destPort := 5000
  seq := 100
  ack := 2
  flags := { ack := true }
  window := 8192

end SheepShear.Router.Tcp
