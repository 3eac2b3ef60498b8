import SheepShear.Router.Tcp.Reactions

/-!
# FTP listeners and their control connections

A listener for an FTP data connection is the child of the control connection
that asked for it. The two links agree as long as no connection asks for a
second listener while it has one, no send fails for data that asked for none
(the router then closes listener 1, whoever it belongs to), and `find_socket`
does not drop a connection that has a listener. Under these conditions a
listener is closed by its own event or with its connection, and the listeners
of the preferences stay open.
-/

namespace SheepShear.Router.Tcp

variable {s s' s'' s₀ : State} {t i : Index} {ftpPorts : List Port} {seg : Segment} {h : Host}
  {c c' : Conn} {e : Event}

structure Linked (s : State) : Prop where
  link : ∀ t i, (s.sockets t).child = some i ↔ (s.lSockets i).parent = some t
  live : ∀ t, (s.sockets t).child ≠ none → (s.sockets t).inUse = true
  closed : ∀ i, (s.lSockets i).port = 0 → (s.lSockets i).s = none ∧ (s.lSockets i).parent = none
  parent : ∀ i, (s.lSockets i).once = true → (s.lSockets i).port ≠ 0 →
    (s.lSockets i).parent ≠ none
  once : ∀ i, (s.lSockets i).parent ≠ none → (s.lSockets i).once = true

/-- How often the slot was freed. -/
def State.freed (s : State) (t : Index) : Nat := (s.sockets t).log.count .freed

/-- An open listener stays as it is, unless its connection is freed. -/
structure Careful (s s' : State) : Prop where
  grows : ∀ t, s.freed t ≤ s'.freed t
  keeps : ∀ i, (s.lSockets i).s ≠ none → s'.lSockets i = s.lSockets i ∨
    ∃ t, (s.lSockets i).parent = some t ∧ s.freed t < s'.freed t

theorem Careful.trans (h : Careful s s') (h' : Careful s' s'') : Careful s s'' := by
  refine ⟨fun t => (h.grows t).trans (h'.grows t), fun i hopen => ?_⟩
  rcases h.keeps i hopen with hsame | ⟨t, hparent, hfreed⟩
  · rcases h'.keeps i (hsame ▸ hopen) with hsame' | ⟨t, hparent, hfreed⟩
    · exact .inl (hsame'.trans hsame)
    · exact .inr ⟨t, hsame ▸ hparent, (h.grows t).trans_lt hfreed⟩
  · exact .inr ⟨t, hparent, hfreed.trans_le (h'.grows t)⟩

/-- The links stay as they are, and the listeners are taken care of. -/
def Tended (s s' : State) : Prop := Linked s' ∧ Careful s s'

theorem Tended.trans (h : Tended s s') (h' : Linked s' → Tended s' s'') : Tended s s'' :=
  ⟨(h' h.1).1, h.2.trans (h' h.1).2⟩

-- ---------------------------------------------------------------------------
-- Changes of the links
-- ---------------------------------------------------------------------------

/-- The children stay, and no listener changes except from closed to closed. -/
theorem Linked.tended_of_idle (h : Linked s)
    (hlisteners : ∀ i, s'.lSockets i = s.lSockets i ∨ (s.lSockets i).port = 0 ∧
      (s'.lSockets i).port = 0 ∧ (s'.lSockets i).s = none ∧ (s'.lSockets i).parent = none)
    (hchild : ∀ t, (s'.sockets t).child = (s.sockets t).child)
    (hlive : ∀ t, (s.sockets t).child ≠ none → (s'.sockets t).inUse = true)
    (hlog : ∀ t, s.freed t ≤ s'.freed t) : Tended s s' := by
  have hparent : ∀ i, (s'.lSockets i).parent = (s.lSockets i).parent := by
    intro i
    rcases hlisteners i with hsame | ⟨hport, -, -, hnone⟩
    · rw [hsame]
    · rw [hnone, (h.closed i hport).2]
  refine ⟨⟨?_, ?_, ?_, ?_, ?_⟩, hlog, ?_⟩
  · intro t i
    rw [hchild, hparent]
    exact h.link t i
  · intro t hsome
    rw [hchild] at hsome
    exact hlive t hsome
  · intro i hport
    rcases hlisteners i with hsame | ⟨-, -, hs, hnone⟩
    · rw [hsame] at hport ⊢
      exact h.closed i hport
    · exact ⟨hs, hnone⟩
  · intro i honce hport
    rcases hlisteners i with hsame | ⟨-, hzero, -, -⟩
    · rw [hsame] at honce hport ⊢
      exact h.parent i honce hport
    · exact absurd hzero hport
  · intro i hsome
    rcases hlisteners i with hsame | ⟨-, -, -, hnone⟩
    · rw [hsame] at hsome ⊢
      exact h.once i hsome
    · exact absurd hnone hsome
  · intro i hopen
    rcases hlisteners i with hsame | ⟨hport, -, -, -⟩
    · exact .inl hsame
    · exact absurd (h.closed i hport).1 hopen

/-- The listeners and the children stay. -/
theorem Linked.tended_of_same (h : Linked s) (hlisteners : s'.lSockets = s.lSockets)
    (hchild : ∀ t, (s'.sockets t).child = (s.sockets t).child)
    (hlive : ∀ t, (s.sockets t).child ≠ none → (s'.sockets t).inUse = true)
    (hlog : ∀ t, s.freed t ≤ s'.freed t) : Tended s s' :=
  h.tended_of_idle (fun i => .inl (by rw [hlisteners])) hchild hlive hlog

theorem SameSlot.freed (h : SameSlot c c') : c.log.count .freed ≤ c'.log.count .freed :=
  h.log.sublist.count_le _

/-- One slot does something that leaves its child alone. -/
theorem Linked.act (hlinked : Linked s) (t : Index) (f : Conn → Conn)
    (hf : SameSlot (s.sockets t) (f (s.sockets t))) : Tended s (s.act t f) := by
  refine hlinked.tended_of_same rfl ?_ ?_ ?_
  · intro t'
    rcases eq_or_ne t' t with rfl | hne
    · rw [act_self, hf.child]
    · rw [act_of_ne _ hne]
  · intro t' hsome
    rcases eq_or_ne t' t with rfl | hne
    · rw [act_self, hf.inUse]
      exact hlinked.live t' hsome
    · rw [act_of_ne _ hne]
      exact hlinked.live t' hsome
  · intro t'
    rcases eq_or_ne t' t with rfl | hne
    · rw [State.freed, State.freed, act_self]
      exact hf.freed
    · rw [State.freed, State.freed, act_of_ne _ hne]

/-- A connection loses its listener, which is closed. -/
theorem Linked.unlink (hlinked : Linked s) (hchild : (s.sockets t).child = some i)
    (hother : ∀ t', t' ≠ t → s'.sockets t' = s.sockets t') (hnone : (s'.sockets t).child = none)
    (hlisteners : ∀ i', i' ≠ i → s'.lSockets i' = s.lSockets i')
    (hclosed : (s'.lSockets i).port = 0 ∧ (s'.lSockets i).s = none ∧
      (s'.lSockets i).parent = none) : Linked s' := by
  obtain ⟨hport, hs, hparent⟩ := hclosed
  have hlink := (hlinked.link t i).mp hchild
  refine ⟨?_, ?_, ?_, ?_, ?_⟩
  · intro t' i'
    rcases eq_or_ne t' t with rfl | hne
    · rw [hnone]
      refine ⟨nofun, fun hp => ?_⟩
      rcases eq_or_ne i' i with rfl | hnei
      · rw [hparent] at hp
        cases hp
      · rw [hlisteners i' hnei] at hp
        exact absurd (Option.some.inj (((hlinked.link t' i').mpr hp).symm.trans hchild)) hnei
    · rw [hother t' hne]
      rcases eq_or_ne i' i with rfl | hnei
      · rw [hparent]
        refine ⟨fun hc => ?_, nofun⟩
        exact absurd (Option.some.inj (((hlinked.link t' i').mp hc).symm.trans hlink)) hne
      · rw [hlisteners i' hnei]
        exact hlinked.link t' i'
  · intro t' hsome
    rcases eq_or_ne t' t with rfl | hne
    · exact absurd hnone hsome
    · rw [hother t' hne] at hsome ⊢
      exact hlinked.live t' hsome
  · intro i' hi'
    rcases eq_or_ne i' i with rfl | hnei
    · exact ⟨hs, hparent⟩
    · rw [hlisteners i' hnei] at hi' ⊢
      exact hlinked.closed i' hi'
  · intro i' honce hi'
    rcases eq_or_ne i' i with rfl | hnei
    · exact absurd hport hi'
    · rw [hlisteners i' hnei] at honce hi' ⊢
      exact hlinked.parent i' honce hi'
  · intro i' hsome
    rcases eq_or_ne i' i with rfl | hnei
    · exact absurd hparent hsome
    · rw [hlisteners i' hnei] at hsome ⊢
      exact hlinked.once i' hsome

/-- A connection without a listener gets one that was closed. -/
theorem Linked.join (hlinked : Linked s)
    (hnone : (s.sockets t).child = none) (hport : (s.lSockets i).port = 0)
    (hother : ∀ t', t' ≠ t → s'.sockets t' = s.sockets t')
    (hchild : (s'.sockets t).child = some i) (hused' : (s'.sockets t).inUse = true)
    (hlisteners : ∀ i', i' ≠ i → s'.lSockets i' = s.lSockets i')
    (hopened : (s'.lSockets i).port ≠ 0 ∧ (s'.lSockets i).once = true ∧
      (s'.lSockets i).parent = some t) : Linked s' := by
  obtain ⟨hport', honce, hparent⟩ := hopened
  have hbefore := (hlinked.closed i hport).2
  refine ⟨?_, ?_, ?_, ?_, ?_⟩
  · intro t' i'
    rcases eq_or_ne t' t with rfl | hne
    · rw [hchild]
      rcases eq_or_ne i' i with rfl | hnei
      · rw [hparent]
        exact ⟨fun _ => rfl, fun _ => rfl⟩
      · rw [hlisteners i' hnei]
        refine ⟨fun hc => absurd (Option.some.inj hc).symm hnei, fun hp => ?_⟩
        rw [(hlinked.link t' i').mpr hp] at hnone
        cases hnone
    · rw [hother t' hne]
      rcases eq_or_ne i' i with rfl | hnei
      · rw [hparent]
        refine ⟨fun hc => ?_, fun hp => absurd (Option.some.inj hp).symm hne⟩
        rw [(hlinked.link t' i').mp hc] at hbefore
        cases hbefore
      · rw [hlisteners i' hnei]
        exact hlinked.link t' i'
  · intro t' hsome
    rcases eq_or_ne t' t with rfl | hne
    · exact hused'
    · rw [hother t' hne] at hsome ⊢
      exact hlinked.live t' hsome
  · intro i' hi'
    rcases eq_or_ne i' i with rfl | hnei
    · exact absurd hi' hport'
    · rw [hlisteners i' hnei] at hi' ⊢
      exact hlinked.closed i' hi'
  · intro i' ho hi'
    rcases eq_or_ne i' i with rfl | hnei
    · rw [hparent]
      exact nofun
    · rw [hlisteners i' hnei] at ho hi' ⊢
      exact hlinked.parent i' ho hi'
  · intro i' hsome
    rcases eq_or_ne i' i with rfl | hnei
    · exact honce
    · rw [hlisteners i' hnei] at hsome ⊢
      exact hlinked.once i' hsome

-- ---------------------------------------------------------------------------
-- Freeing a slot
-- ---------------------------------------------------------------------------

theorem closeChild_of_none (hnone : (s.sockets t).child = none) : closeChild s t = s := by
  rw [closeChild, hnone]

theorem closeChild_of_some (hchild : (s.sockets t).child = some i) :
    closeChild s t =
      s.setListener i { s.lSockets i with s := none, port := 0, parent := none } := by
  rw [closeChild, hchild]

/-- The slot is freed, and its listener closed with it. -/
theorem Linked.release (hlinked : Linked s) (hlisteners : s'.lSockets = (closeChild s t).lSockets)
    (hother : ∀ t', t' ≠ t → s'.sockets t' = s.sockets t') (hnone : (s'.sockets t).child = none)
    (hfreed : s.freed t < s'.freed t) : Tended s s' := by
  have hgrows : ∀ t', s.freed t' ≤ s'.freed t' := by
    intro t'
    rcases eq_or_ne t' t with rfl | hne
    · exact hfreed.le
    · rw [State.freed, State.freed, hother t' hne]
  cases hchild : (s.sockets t).child with
  | none =>
    rw [closeChild_of_none hchild] at hlisteners
    refine hlinked.tended_of_same hlisteners ?_ ?_ hgrows
    · intro t'
      rcases eq_or_ne t' t with rfl | hne
      · rw [hnone, hchild]
      · rw [hother t' hne]
    · intro t' hsome
      rcases eq_or_ne t' t with rfl | hne
      · exact absurd hchild hsome
      · rw [hother t' hne]
        exact hlinked.live t' hsome
  | some i =>
    rw [closeChild_of_some hchild] at hlisteners
    have hself : s'.lSockets i = { s.lSockets i with s := none, port := 0, parent := none } := by
      rw [hlisteners]
      exact Function.update_self ..
    have hrest : ∀ i', i' ≠ i → s'.lSockets i' = s.lSockets i' := by
      intro i' hne
      rw [hlisteners]
      exact Function.update_of_ne hne ..
    refine ⟨hlinked.unlink hchild hother hnone hrest ?_, hgrows, fun i' _ => ?_⟩
    · rw [hself]
      exact ⟨rfl, rfl, rfl⟩
    · rcases eq_or_ne i' i with rfl | hne
      · exact .inr ⟨t, (hlinked.link t i').mp hchild, hfreed⟩
      · exact .inl (hrest i' hne)

theorem Conn.free_count (c : Conn) : c.log.count .freed < c.free.log.count .freed := by
  rw [Conn.free, List.count_append]
  simp

theorem Linked.freeSocket (hlinked : Linked s) (t : Index) : Tended s (freeSocket s t) := by
  refine hlinked.release rfl (fun t' hne => freeSocket_of_ne hne) ?_ ?_
  · rw [freeSocket_self]
    rfl
  · rw [State.freed, State.freed, freeSocket_self]
    exact Conn.free_count _

-- ---------------------------------------------------------------------------
-- Completions, network events and timeouts
-- ---------------------------------------------------------------------------

theorem Linked.readCompletion (hlinked : Linked s) (t : Index) (error : Bool) (data : List Byte)
    (h : Host) : Tended s (tcpReadCompletion s t error data h) := by
  have hfilled := hlinked.act t (fun c => c.filled data) (filled_sameSlot ..)
  unfold tcpReadCompletion
  dsimp only
  split_ifs
  · exact hfilled
  · refine hfilled.trans fun hlinked => ?_
    refine (hlinked.act t _ ?_).trans fun hlinked => hlinked.freeSocket t
    exact ⟨rfl, rfl, rfl, rfl, List.prefix_append ..⟩
  · exact hfilled.trans fun hlinked => hlinked.act t _ (readDone_sameSlot ..)

theorem Linked.refl (hlinked : Linked s) : Tended s s :=
  ⟨hlinked, fun _ => le_rfl, fun _ _ => .inl rfl⟩

theorem Linked.networkEvent (hlinked : Linked s) (t : Index) (what : NetworkEvents) :
    Tended s (networkEvent s t what) := by
  unfold Tcp.networkEvent
  split_ifs
  · exact hlinked.refl
  · cases what with
    | connect error =>
      dsimp only
      split_ifs
      · exact hlinked.refl
      · exact hlinked.act t _ (tcpConnectCallback_sameSlot _)
    | close => exact hlinked.act t _ ⟨rfl, rfl, rfl, rfl, List.prefix_rfl⟩
    | other => exact hlinked.refl
    | notSock => exact hlinked.refl
    | failed => exact hlinked.freeSocket t

theorem Linked.timeout (hlinked : Linked s) (now : Word) (t : Index) :
    Tended s (timeout s now t) := by
  unfold Tcp.timeout
  dsimp only
  split_ifs
  · exact hlinked.refl
  · exact hlinked.freeSocket t
  · exact hlinked.refl
  · exact hlinked.act t _ (resend_sameSlot ..)
  · exact hlinked.refl
  · exact hlinked.act t _ ⟨rfl, rfl, rfl, rfl, List.prefix_rfl⟩
  · exact hlinked.refl

theorem Linked.timeouts (hlinked : Linked s) (now : Word) : Tended s (timeouts s now) := by
  unfold Tcp.timeouts
  generalize List.finRange 64 = is
  induction is generalizing s with
  | nil => exact hlinked.refl
  | cons i is ih => exact (hlinked.timeout now i).trans fun hlinked => ih hlinked

-- ---------------------------------------------------------------------------
-- New connections
-- ---------------------------------------------------------------------------

/-- A slot without a connection has no listener. -/
theorem Linked.child_of_free (hlinked : Linked s) (hfree : (s.sockets t).inUse = false) :
    (s.sockets t).child = none := by
  by_contra hsome
  exact absurd (hfree.symm.trans (hlinked.live t hsome)) Bool.false_ne_true

/-- Nothing is left of the log of a slot that is given to a connection, except that it grows. -/
theorem opened_log (c : Conn) (sock : Nat) (srcPort destPort : Port) (ipDest : Word) :
    c.log.count .freed ≤ (c.opened sock srcPort destPort ipDest).log.count .freed :=
  (List.prefix_append ..).sublist.count_le _

theorem openFailed_slot (hfailed : OpenFailed c c') :
    c'.child = none ∧ c.log.count .freed ≤ c'.log.count .freed := by
  cases hfailed with
  | socket =>
    refine ⟨rfl, ?_⟩
    exact ((List.prefix_append ..).trans (List.prefix_append ..)).sublist.count_le _
  | bind =>
    refine ⟨rfl, ?_⟩
    exact ((List.prefix_append ..).trans (List.prefix_append ..)).sublist.count_le _

theorem Linked.allocNewSocket (hlinked : Linked s) (hroom : ∃ i, (s.sockets i).inUse = false)
    (srcPort destPort : Port) (ipDest : Word) (h : Host) :
    Tended s (allocNewSocket s srcPort destPort ipDest h).2 := by
  obtain ⟨t, hfree, -, hother, hlisteners, hcases⟩ :=
    allocNewSocket_of_room srcPort destPort ipDest h hroom
  generalize Tcp.allocNewSocket s srcPort destPort ipDest h = r at hother hlisteners hcases ⊢
  obtain ⟨o, s'⟩ := r
  dsimp only at hother hlisteners hcases ⊢
  have hslot : (s'.sockets t).child = none ∧ s.freed t ≤ s'.freed t := by
    unfold State.freed
    rcases hcases with ⟨sock, -, hopened⟩ | ⟨-, hfailed⟩
    · rw [hopened]
      exact ⟨rfl, opened_log ..⟩
    · exact openFailed_slot hfailed
  refine hlinked.tended_of_same hlisteners ?_ ?_ ?_
  · intro t'
    rcases eq_or_ne t' t with rfl | hne
    · rw [hslot.1, hlinked.child_of_free hfree]
    · rw [hother t' hne]
  · intro t' hsome
    rcases eq_or_ne t' t with rfl | hne
    · exact absurd (hlinked.child_of_free hfree) hsome
    · rw [hother t' hne]
      exact hlinked.live t' hsome
  · intro t'
    rcases eq_or_ne t' t with rfl | hne
    · exact hslot.2
    · rw [State.freed, State.freed, hother t' hne]

theorem Linked.findSocket (hlinked : Linked s) {srcPort destPort : Port}
    (hreuse : getSocketIndex s srcPort destPort = none →
      ∀ t, getSocketIndexBySource s srcPort = some t → (s.sockets t).s = none →
        (s.sockets t).child = none) :
    Tended s (findSocket s srcPort destPort).2 := by
  unfold Tcp.findSocket
  cases hfound : getSocketIndex s srcPort destPort with
  | some i => exact hlinked.refl
  | none =>
    dsimp only
    cases hsource : getSocketIndexBySource s srcPort with
    | none => exact hlinked.refl
    | some i =>
      dsimp only
      split_ifs with hs
      · have hchild := hreuse hfound i hsource hs
        refine hlinked.tended_of_same rfl ?_ ?_ ?_
        · intro t'
          rcases eq_or_ne t' i with rfl | hne
          · rw [act_self]
          · rw [act_of_ne _ hne]
        · intro t' hsome
          rcases eq_or_ne t' i with rfl | hne
          · exact absurd hchild hsome
          · rw [act_of_ne _ hne]
            exact hlinked.live t' hsome
        · intro t'
          rcases eq_or_ne t' i with rfl | hne
          · rw [State.freed, State.freed, act_self]
          · rw [State.freed, State.freed, act_of_ne _ hne]
      · exact hlinked.freeSocket i

-- ---------------------------------------------------------------------------
-- Segments
-- ---------------------------------------------------------------------------

/-- Data that is taken asks for a listener only if the connection has none, and is sent unless it
asks for one. -/
def FtpOrderly (ftpPorts : List Port) (c : Conn) (seg : Segment) (h : Host) : Prop :=
  ((c.arrive seg h.now).handleData && (c.arrive seg h.now).conn.takes seg) = true →
    (((c.arrive seg h.now).conn.fillWrite seg).ftpDataPort ftpPorts = 0 → h.send = true) ∧
      (((c.arrive seg h.now).conn.fillWrite seg).ftpDataPort ftpPorts ≠ 0 → c.child = none)

instance (ftpPorts : List Port) (c : Conn) (seg : Segment) (h : Host) :
    Decidable (FtpOrderly ftpPorts c seg h) :=
  inferInstanceAs (Decidable (_ → (_ → _) ∧ (_ → _)))

theorem takeData_slot (ftpPorts : List Port) (c : Conn) (seg : Segment) (lst : Option Index) (h : Host) :
    (c.takeData ftpPorts seg lst h).inUse = c.inUse ∧
      c.log <+: (c.takeData ftpPorts seg lst h).log := by
  unfold Conn.takeData
  dsimp only
  cases lst with
  | none =>
    dsimp only
    split_ifs <;> exact ⟨rfl, List.prefix_append ..⟩
  | some i =>
    dsimp only
    split_ifs <;> exact ⟨rfl, List.prefix_append ..⟩

theorem takeData_child_none (c : Conn) (seg : Segment) (h : Host) :
    (c.takeData ftpPorts seg none h).child = c.child := by
  unfold Conn.takeData
  dsimp only
  split_ifs with hfail
  · exact absurd hfail.2 Bool.false_ne_true
  · rfl

theorem takeData_child_send (hsend : h.send = true) (seg : Segment) (i : Index) :
    (c.takeData ftpPorts seg (some i) h).child =
      if (c.fillWrite seg).ftpDataPort ftpPorts ≠ 0 then some i else c.child := by
  unfold Conn.takeData
  dsimp only
  rw [if_neg (fun hfail => Bool.false_ne_true (hfail.1.symm.trans hsend))]
  split_ifs <;> rfl

theorem takeData_child_failed (hsend : h.send = false) (seg : Segment) (i : Index) :
    (c.takeData ftpPorts seg (some i) h).child = none := by
  unfold Conn.takeData
  dsimp only
  rw [if_pos ⟨hsend, rfl⟩]

/-- What follows the state switch leaves the slot in use, and only data changes its child. -/
theorem writeTcp_slot (ftpPorts : List Port) (hfreed : ¬(c.arrive seg h.now).freed = true) (hsrc : c.srcPort = seg.srcPort)
    (hdest : c.destPort = seg.destPort) (lst : Option Index) :
    (c.writeTcp ftpPorts seg lst h).inUse = c.inUse ∧
      c.log.count .freed ≤ (c.writeTcp ftpPorts seg lst h).log.count .freed ∧
      (c.writeTcp ftpPorts seg lst h).child =
        if ((c.arrive seg h.now).handleData && (c.arrive seg h.now).conn.takes seg) = true then
          ((c.arrive seg h.now).conn.takeData ftpPorts seg lst h).child
        else c.child := by
  have hreceive := receive_sameSlot c seg
  have harrive : SameSlot c (c.arrive seg h.now).conn := by
    rw [arrive_conn_of_not_freed hfreed]
    exact hreceive.trans (stateSwitch_sameSlot h.now (hreceive.srcPort.trans hsrc)
      (hreceive.destPort.trans hdest))
  have hdata : (c.handleSegment ftpPorts seg lst h).inUse = c.inUse ∧
      c.log <+: (c.handleSegment ftpPorts seg lst h).log ∧
      (c.handleSegment ftpPorts seg lst h).child =
        if ((c.arrive seg h.now).handleData && (c.arrive seg h.now).conn.takes seg) = true then
          ((c.arrive seg h.now).conn.takeData ftpPorts seg lst h).child
        else c.child := by
    unfold Conn.handleSegment
    dsimp only
    split_ifs
    · obtain ⟨hused, hlog⟩ := takeData_slot ftpPorts (c.arrive seg h.now).conn seg lst h
      exact ⟨hused.trans harrive.inUse, harrive.log.trans hlog, rfl⟩
    · exact ⟨harrive.inUse, harrive.log, harrive.child⟩
  obtain ⟨hused, hlog, hchild⟩ := hdata
  have hrecv := bRecfrom_sameSlot (c.handleSegment ftpPorts seg lst h) h
  by_cases hread : (c.arrive seg h.now).initiateRead = true
  · rw [Conn.writeTcp, if_pos hread]
    exact ⟨hrecv.inUse.trans hused, (hlog.trans hrecv.log).sublist.count_le _,
      hrecv.child.trans hchild⟩
  · rw [Conn.writeTcp, if_neg hread]
    exact ⟨hused, hlog.sublist.count_le _, hchild⟩

/-- The listener for an FTP command, if there is a free one. -/
theorem openFtpListener_spec (s : State) (t : Index) (port : Port) (ip : Word) (h : Host)
    (hport : port ≠ 0) :
    openFtpListener s t port ip h = (none, s) ∨
      ∃ i s', openFtpListener s t port ip h = (some i, s') ∧ (s.lSockets i).port = 0 ∧
        s'.sockets = s.sockets ∧ (∀ i', i' ≠ i → s'.lSockets i' = s.lSockets i') ∧
        s'.lSockets i = { s := h.listenSocket, port := port, ip := ip, iface := 0, once := true,
                          parent := some t } := by
  have hsockets := openFtpListener_sockets (s := s) (t := t) (h := h) port ip
  unfold openFtpListener allocListenSocket at hsockets ⊢
  cases hfind : (probes s.lastListenSocket).find? fun i => (s.lSockets i).port = 0 with
  | none => exact .inl rfl
  | some i =>
    have hfree : (s.lSockets i).port = 0 := by simpa using List.find?_some hfind
    rw [hfind] at hsockets
    have hport : ¬port = 0#16 := hport
    refine .inr ⟨i, _, rfl, hfree, hsockets, fun i' hne => ?_, ?_⟩
    · simp [tcpStartListen, State.setListener, hport, hne]
    · simp [tcpStartListen, State.setListener, hport]

theorem arrive_sameSlot (hfreed : ¬(c.arrive seg h.now).freed = true)
    (hsrc : c.srcPort = seg.srcPort) (hdest : c.destPort = seg.destPort) :
    SameSlot c (c.arrive seg h.now).conn := by
  have hreceive := receive_sameSlot c seg
  rw [arrive_conn_of_not_freed hfreed]
  exact hreceive.trans (stateSwitch_sameSlot h.now (hreceive.srcPort.trans hsrc)
    (hreceive.destPort.trans hdest))

/-- A segment that frees its slot. -/
theorem Linked.writeSegment_freed (hlinked : Linked s) (hrst : seg.flags.rst = false)
    (hsrc : (s.sockets t).srcPort = seg.srcPort) (hdest : (s.sockets t).destPort = seg.destPort)
    (hfreed : ((s.sockets t).arrive seg h.now).freed = true) :
    Tended s (writeSegment s ftpPorts t seg h) := by
  have hlisteners : segmentListeners s ftpPorts t seg h = (some 1, closeChild s t) := by
    unfold segmentListeners
    dsimp only
    rw [(arrive_freed hfreed).1, if_pos hfreed, Bool.false_and, if_neg Bool.false_ne_true]
  have hreceive := receive_sameSlot (s.sockets t) seg
  have hswitch := hreceive.trans (stateSwitch_sameSlot h.now (hreceive.srcPort.trans hsrc)
    (hreceive.destPort.trans hdest))
  unfold Tcp.writeSegment
  rw [if_neg (by rw [hrst]; decide), hlisteners]
  dsimp only
  refine hlinked.release rfl ?_ ?_ ?_
  · intro t' hne
    rw [act_of_ne _ hne, closeChild_sockets]
  · rw [act_self, closeChild_sockets, writeTcp_freed hfreed, arrive_conn_of_freed hfreed]
    rfl
  · rw [State.freed, State.freed, act_self, closeChild_sockets, writeTcp_freed hfreed,
      arrive_conn_of_freed hfreed]
    exact hswitch.freed.trans_lt (Conn.free_count _)

/-- The segment changes nothing about the links. -/
theorem Linked.act_writeTcp (hlinked : Linked s) (hused : (s.sockets t).inUse = true)
    (hfreed : ¬((s.sockets t).arrive seg h.now).freed = true)
    (hsrc : (s.sockets t).srcPort = seg.srcPort) (hdest : (s.sockets t).destPort = seg.destPort)
    {lst : Option Index}
    (hlisteners : ∀ i, s'.lSockets i = s.lSockets i ∨ (s.lSockets i).port = 0 ∧
      (s'.lSockets i).port = 0 ∧ (s'.lSockets i).s = none ∧ (s'.lSockets i).parent = none)
    (hsockets : s'.sockets = s.sockets)
    (hchild : ((s.sockets t).writeTcp ftpPorts seg lst h).child = (s.sockets t).child) :
    Tended s (s'.act t fun c => c.writeTcp ftpPorts seg lst h) := by
  obtain ⟨hused', hlog, -⟩ := writeTcp_slot ftpPorts hfreed hsrc hdest lst
  refine hlinked.tended_of_idle hlisteners ?_ ?_ ?_
  · intro t'
    rcases eq_or_ne t' t with rfl | hne
    · rw [act_self, hsockets, hchild]
    · rw [act_of_ne _ hne, hsockets]
  · intro t' hsome
    rcases eq_or_ne t' t with rfl | hne
    · rw [act_self, hsockets, hused', hused]
    · rw [act_of_ne _ hne, hsockets]
      exact hlinked.live t' hsome
  · intro t'
    rcases eq_or_ne t' t with rfl | hne
    · rw [State.freed, State.freed, act_self, hsockets]
      exact hlog
    · rw [State.freed, State.freed, act_of_ne _ hne, hsockets]

/-- The segment gives the connection a listener. -/
theorem Linked.tended_of_join (hlinked : Linked s) {f : Conn → Conn}
    (hnone : (s.sockets t).child = none) (hport : (s.lSockets i).port = 0)
    (hsockets : s'.sockets = s.sockets) (hrest : ∀ i', i' ≠ i → s'.lSockets i' = s.lSockets i')
    (hopened : (s'.lSockets i).port ≠ 0 ∧ (s'.lSockets i).once = true ∧
      (s'.lSockets i).parent = some t)
    (hused : (f (s.sockets t)).inUse = true) (hchild : (f (s.sockets t)).child = some i)
    (hlog : (s.sockets t).log.count .freed ≤ (f (s.sockets t)).log.count .freed) :
    Tended s (s'.act t f) := by
  have hself : (s'.act t f).sockets t = f (s.sockets t) := by rw [act_self, hsockets]
  have hother : ∀ t', t' ≠ t → (s'.act t f).sockets t' = s.sockets t' := by
    intro t' hne
    rw [act_of_ne _ hne, hsockets]
  refine ⟨?_, ?_, ?_⟩
  · refine hlinked.join hnone hport hother ?_ ?_ hrest hopened
    · rw [hself, hchild]
    · rw [hself, hused]
  · intro t'
    rcases eq_or_ne t' t with rfl | hne
    · rw [State.freed, State.freed, hself]
      exact hlog
    · rw [State.freed, State.freed, hother t' hne]
  · intro i' hopen
    rcases eq_or_ne i' i with rfl | hne
    · exact absurd (hlinked.closed i' hport).1 hopen
    · exact .inl (hrest i' hne)

theorem Linked.writeSegment (hlinked : Linked s) (hused : (s.sockets t).inUse = true)
    (hsrc : (s.sockets t).srcPort = seg.srcPort) (hdest : (s.sockets t).destPort = seg.destPort)
    (hftp : seg.flags.rst = false → FtpOrderly ftpPorts (s.sockets t) seg h) :
    Tended s (writeSegment s ftpPorts t seg h) := by
  cases hrst : seg.flags.rst with
  | true =>
    rw [Tcp.writeSegment, if_pos hrst]
    exact hlinked.freeSocket t
  | false =>
    by_cases hfreed : ((s.sockets t).arrive seg h.now).freed = true
    · exact hlinked.writeSegment_freed hrst hsrc hdest hfreed
    have hslot := writeTcp_slot ftpPorts hfreed hsrc hdest
    have harrive := arrive_sameSlot hfreed hsrc hdest
    have hftp := hftp hrst
    unfold FtpOrderly at hftp
    unfold Tcp.writeSegment segmentListeners
    rw [if_neg (by rw [hrst]; decide)]
    dsimp only
    rw [if_neg hfreed]
    by_cases hdata : (((s.sockets t).arrive seg h.now).handleData &&
        ((s.sockets t).arrive seg h.now).conn.takes seg) = true
    · simp only [hdata, if_true] at hslot ⊢
      obtain ⟨hsend, hfree⟩ := hftp hdata
      unfold listenersForData
      dsimp only
      by_cases hport : (((s.sockets t).arrive seg h.now).conn.fillWrite seg).ftpDataPort
          ftpPorts = 0
      · rw [if_pos hport, hsend hport]
        refine hlinked.act_writeTcp hused hfreed hsrc hdest (fun i => .inl rfl) rfl ?_
        rw [(hslot (some 1)).2.2, takeData_child_send (hsend hport), if_neg (not_not.mpr hport)]
        exact harrive.child
      · rw [if_neg hport]
        have hnone := hfree hport
        rcases openFtpListener_spec s t _ ((((s.sockets t).arrive seg h.now).conn.fillWrite
            seg).ipDest) h hport with hfull | ⟨i, s', hopen, hclosed, hsockets, hrest, hself⟩
        · have htended : Tended s (s.act t fun c => c.writeTcp ftpPorts seg none h) := by
            refine hlinked.act_writeTcp hused hfreed hsrc hdest (fun i => .inl rfl) rfl ?_
            rw [(hslot none).2.2, takeData_child_none]
            exact harrive.child
          rw [hfull]
          cases h.send with
          | false => exact htended
          | true => exact htended
        · rw [hopen]
          cases hs : h.send with
          | false =>
            refine hlinked.act_writeTcp hused hfreed hsrc hdest (fun i' => ?_) hsockets ?_
            · rcases eq_or_ne i' i with rfl | hne
              · refine .inr ⟨hclosed, ?_⟩
                simp [closeListener, State.setListener]
              · refine .inl (Eq.trans ?_ (hrest i' hne))
                simp [closeListener, State.setListener, hne]
            · rw [(hslot (some i)).2.2, takeData_child_failed hs, hnone]
          | true =>
            have hchild := (hslot (some i)).2.2
            rw [takeData_child_send hs, if_pos hport] at hchild
            refine hlinked.tended_of_join hnone hclosed hsockets hrest ?_ ?_ hchild
              (hslot (some i)).2.1
            · rw [hself]
              exact ⟨hport, rfl, rfl⟩
            · exact (hslot (some i)).1.trans hused
    · simp only [hdata] at hslot ⊢
      refine hlinked.act_writeTcp hused hfreed hsrc hdest (fun i => .inl rfl) rfl ?_
      exact (hslot (some 1)).2.2

-- ---------------------------------------------------------------------------
-- Runs
-- ---------------------------------------------------------------------------

/-- There is room for what the event opens, a segment is orderly for its connection, and
`find_socket` does not drop a connection with a listener. -/
def FtpGuard (ftpPorts : List Port) (s : State) (e : Event) : Prop :=
  Room s e ∧ ∀ seg h, e = .write seg h →
    (∀ t, getSocketIndex s seg.srcPort seg.destPort = some t → seg.flags.rst = false →
      FtpOrderly ftpPorts (s.sockets t) seg h) ∧
    (getSocketIndex s seg.srcPort seg.destPort = none →
      ∀ t, getSocketIndexBySource s seg.srcPort = some t → (s.sockets t).s = none →
        (s.sockets t).child = none)

/-- A connection that the segment opens takes no data. -/
theorem opened_ftpOrderly (c : Conn) (sock : Nat) (srcPort destPort : Port) (ipDest : Word)
    (seg : Segment) (h : Host) :
    FtpOrderly ftpPorts (c.opened sock srcPort destPort ipDest) seg h := by
  intro hdata
  have hstate : ((c.opened sock srcPort destPort ipDest).receive seg).unstall.state = .closed := by
    rw [unstall_state]
    unfold Conn.receive
    dsimp only
    split_ifs <;> rfl
  have hnone : ((c.opened sock srcPort destPort ipDest).arrive seg h.now).handleData = false := by
    dsimp only [Conn.arrive]
    unfold Conn.stateSwitch
    rw [hstate]
    dsimp only
    split_ifs <;> rfl
  rw [hnone, Bool.false_and] at hdata
  exact absurd hdata Bool.false_ne_true

theorem Linked.writeTcp (hlinked : Linked s) (hguard : FtpGuard ftpPorts s (.write seg h)) :
    Tended s (writeTcp s ftpPorts seg h) := by
  obtain ⟨hroom, hguard⟩ := hguard
  obtain ⟨horderly, hreuse⟩ := hguard seg h rfl
  unfold Tcp.writeTcp
  cases hfound : getSocketIndex s seg.srcPort seg.destPort with
  | some t =>
    rw [findSocket_of_some hfound]
    obtain ⟨hused, hsrc, hdest⟩ := getSocketIndex_some hfound
    exact hlinked.writeSegment hused hsrc hdest (horderly t hfound)
  | none =>
    have hfind := hlinked.findSocket hreuse
    have hnone := (findSocket_of_none hfound).1
    have hroom := hroom hfound
    generalize Tcp.findSocket s seg.srcPort seg.destPort = r at hfind hnone hroom ⊢
    obtain ⟨o, s'⟩ := r
    dsimp only at hfind hnone hroom ⊢
    subst hnone
    refine hfind.trans fun hlinked => ?_
    dsimp only
    have halloc := hlinked.allocNewSocket hroom seg.srcPort seg.destPort seg.ipDest h
    obtain ⟨t, -, -, -, -, hcases⟩ :=
      allocNewSocket_of_room seg.srcPort seg.destPort seg.ipDest h hroom
    generalize Tcp.allocNewSocket s' seg.srcPort seg.destPort seg.ipDest h = r at halloc hcases ⊢
    obtain ⟨o, s''⟩ := r
    dsimp only at halloc hcases ⊢
    rcases hcases with ⟨sock, rfl, hopened⟩ | ⟨rfl, -⟩
    · refine halloc.trans fun hlinked => ?_
      refine hlinked.writeSegment (by rw [hopened]; rfl) (by rw [hopened]; rfl)
        (by rw [hopened]; rfl) fun _ => ?_
      rw [hopened]
      exact opened_ftpOrderly _ _ _ _ _ _ _
    · exact halloc

theorem Linked.tcpAcceptCallback (hlinked : Linked s) {lst : Index} {incoming : Option Incoming}
    (hroom : Room s (.listener lst (.accept incoming) h)) :
    Tended s (tcpAcceptCallback s lst incoming h) := by
  cases incoming with
  | none => exact hlinked.refl
  | some r =>
    unfold Tcp.tcpAcceptCallback
    dsimp only
    split_ifs with hauth
    · exact hlinked.refl
    have hroom := hroom (by
      rw [not_and_or, not_not, not_not] at hauth
      exact hauth)
    have halloc := hlinked.allocNewSocket hroom (s.lSockets lst).port r.port r.addr h
    obtain ⟨t, -, -, -, -, hcases⟩ :=
      allocNewSocket_of_room (s.lSockets lst).port r.port r.addr h hroom
    generalize Tcp.allocNewSocket s (s.lSockets lst).port r.port r.addr h = q at halloc hcases ⊢
    obtain ⟨o, s'⟩ := q
    dsimp only at halloc hcases ⊢
    rcases hcases with ⟨sock, rfl, hopened⟩ | ⟨rfl, -⟩
    · refine halloc.trans fun hlinked => hlinked.act t _ ?_
      rw [hopened]
      refine ⟨rfl, rfl, rfl, rfl, ?_⟩
      exact ((List.prefix_append ..).trans (List.prefix_append ..)).trans (List.prefix_append ..)
    · refine halloc.trans fun hlinked => ?_
      exact hlinked.tended_of_same rfl (fun _ => rfl) (fun t hsome => hlinked.live t hsome)
        (fun _ => le_rfl)

/-- Once mode closes the listener of the event and no other. -/
theorem Linked.closeOnce (hlinked : Linked s) (lst : Index) :
    Linked (closeOnce s lst) ∧ (∀ t, s.freed t ≤ (closeOnce s lst).freed t) ∧
      ∀ i, (closeOnce s lst).lSockets i = s.lSockets i ∨
        i = lst ∧ (s.lSockets lst).once = true := by
  unfold Tcp.closeOnce
  split_ifs with honce
  · cases hparent : (s.lSockets lst).parent with
    | none =>
      have hport : (s.lSockets lst).port = 0 := by
        by_contra hport
        exact hlinked.parent lst honce hport hparent
      have hidle : Tended s (closeListener s lst) := by
        refine hlinked.tended_of_idle (fun i => ?_) (fun _ => rfl)
          (fun t hsome => hlinked.live t hsome) (fun _ => le_rfl)
        rcases eq_or_ne i lst with rfl | hne
        · refine .inr ⟨hport, ?_⟩
          simp [closeListener, State.setListener]
        · exact .inl (Function.update_of_ne hne ..)
      refine ⟨hidle.1, fun _ => le_rfl, fun i => ?_⟩
      rcases eq_or_ne i lst with rfl | hne
      · exact .inr ⟨rfl, honce⟩
      · exact .inl (Function.update_of_ne hne ..)
    | some t =>
      dsimp only
      refine ⟨?_, ?_, ?_⟩
      · refine hlinked.unlink ((hlinked.link t lst).mpr hparent) ?_ ?_ ?_ ?_
        · intro t' hne
          rw [closeListener_sockets, act_of_ne _ hne]
        · rw [closeListener_sockets, act_self]
        · intro i hne
          exact Function.update_of_ne hne ..
        · simp [closeListener, State.setListener]
      · intro t'
        rw [State.freed, State.freed, closeListener_sockets]
        rcases eq_or_ne t' t with rfl | hne
        · rw [act_self]
        · rw [act_of_ne _ hne]
      · intro i
        rcases eq_or_ne i lst with rfl | hne
        · exact .inr ⟨rfl, honce⟩
        · exact .inl (Function.update_of_ne hne ..)
  · exact ⟨hlinked, fun _ => le_rfl, fun i => .inl rfl⟩

/-- What an event does to the listeners. -/
theorem Linked.handle (hlinked : Linked s) (hguard : FtpGuard ftpPorts s e) :
    Linked (handle s ftpPorts e) ∧
      ∀ i, (s.lSockets i).s ≠ none → (Tcp.handle s ftpPorts e).lSockets i = s.lSockets i ∨
        ((s.lSockets i).once = true ∧ ∃ what h, e = .listener i what h) ∨
        ∃ t, (s.lSockets i).parent = some t ∧ s.freed t < (Tcp.handle s ftpPorts e).freed t := by
  have hall : ∀ s' : State, Tended s s' →
      Linked s' ∧ ∀ i, (s.lSockets i).s ≠ none → s'.lSockets i = s.lSockets i ∨
        ((s.lSockets i).once = true ∧ ∃ what h, e = .listener i what h) ∨
        ∃ t, (s.lSockets i).parent = some t ∧ s.freed t < s'.freed t := by
    intro s' htended
    refine ⟨htended.1, fun i hopen => ?_⟩
    rcases htended.2.keeps i hopen with hsame | hfreed
    · exact .inl hsame
    · exact .inr (.inr hfreed)
  cases e with
  | write seg h => exact hall _ (hlinked.writeTcp hguard)
  | readCompletion t error data h => exact hall _ (hlinked.readCompletion t error data h)
  | writeCompletion t bytesWritten h =>
    exact hall _ (hlinked.act t (fun c => c.tcpWriteCompletion bytesWritten h)
      (tcpWriteCompletion_sameSlot ..))
  | network t what => exact hall _ (hlinked.networkEvent t what)
  | timer now =>
    rw [Tcp.handle]
    exact hall _ (hlinked.timeouts now)
  | listener lst what h =>
    have haccept : Tended s (handleAccept s lst what h) := by
      cases what with
      | accept incoming => exact hlinked.tcpAcceptCallback hguard.1
      | acceptError => exact hlinked.refl
      | other => exact hlinked.refl
      | failed => exact hlinked.refl
    obtain ⟨hlinked', hgrows, hlisteners⟩ := haccept.1.closeOnce lst
    refine ⟨hlinked', fun i hopen => ?_⟩
    rcases haccept.2.keeps i hopen with hsame | ⟨t, hparent, hfreed⟩
    · rcases hlisteners i with hsame' | ⟨rfl, honce⟩
      · exact .inl (hsame'.trans hsame)
      · exact .inr (.inl ⟨hsame ▸ honce, what, h, rfl⟩)
    · exact .inr (.inr ⟨t, hparent, hfreed.trans_le (hgrows t)⟩)

/-- A listener of the preferences, open or closed. -/
def Listener.Preset (l : Listener) : Prop :=
  l.once = false ∧ l.parent = none ∧ (l.port = 0 → l.s = none)

theorem tcpStartListen_preset (hs : ∀ i, (s.lSockets i).Preset) (j : Index) (sock : Option Nat)
    (i : Index) : ((tcpStartListen s j sock).lSockets i).Preset := by
  unfold tcpStartListen
  split_ifs with hport
  · exact hs i
  · rcases eq_or_ne i j with rfl | hne
    · simp only [State.setListener, Function.update_self]
      exact ⟨(hs i).1, (hs i).2.1, fun h => absurd h hport⟩
    · simp only [State.setListener, Function.update_of_ne hne]
      exact hs i

theorem allocListenSocket_preset (hs : ∀ i, (s.lSockets i).Preset) {port : Port} (hport : port ≠ 0)
    (iface : Word) (i : Index) : ((allocListenSocket s port 0 iface false).2.lSockets i).Preset := by
  unfold allocListenSocket
  split
  case h_1 => exact hs i
  case h_2 j _ =>
    rcases eq_or_ne i j with rfl | hne
    · simp only [State.setListener, Function.update_self]
      exact ⟨rfl, rfl, fun h => absurd h hport⟩
    · simp only [State.setListener, Function.update_of_ne hne]
      exact hs i

theorem startListening_preset (hs : ∀ i, (s.lSockets i).Preset) (socks : Index → Option Nat)
    (i : Index) : ((startListening s socks).lSockets i).Preset := by
  unfold startListening
  generalize List.finRange 64 = is
  induction is generalizing s with
  | nil => exact hs i
  | cons j is ih => exact ih (tcpStartListen_preset hs j (socks j))

theorem initTcpListenPorts_preset (hs : ∀ i, (s.lSockets i).Preset) (ports : List (Port × Word))
    (i : Index) : ((initTcpListenPorts s ports).lSockets i).Preset := by
  induction ports generalizing s with
  | nil => exact hs i
  | cons p ports ih =>
    by_cases hzero : p.1 = 0
    · simp only [initTcpListenPorts, List.foldl_cons, if_pos hzero]
      exact ih hs
    · simp only [initTcpListenPorts, List.foldl_cons, if_neg hzero]
      exact ih (allocListenSocket_preset hs hzero p.2)

theorem start_preset (ports : List (Port × Word)) (socks : Index → Option Nat) (i : Index) :
    ((State.start ports socks).lSockets i).Preset := by
  have hinit : ∀ i, (State.init.lSockets i).Preset := fun i => ⟨rfl, rfl, fun _ => rfl⟩
  rw [State.start]
  exact startListening_preset (initTcpListenPorts_preset hinit ports) socks i

theorem start_linked (ports : List (Port × Word)) (socks : Index → Option Nat) :
    Linked (State.start ports socks) := by
  have hpreset := start_preset ports socks
  have hchild : ∀ t, ((State.start ports socks).sockets t).child = none := by
    intro t
    rw [start_sockets]
  refine ⟨?_, ?_, ?_, ?_, ?_⟩
  · intro t i
    rw [hchild, (hpreset i).2.1]
    exact ⟨nofun, nofun⟩
  · exact fun t hsome => absurd (hchild t) hsome
  · exact fun i hport => ⟨(hpreset i).2.2 hport, (hpreset i).2.1⟩
  · exact fun i honce => absurd ((hpreset i).1.symm.trans honce) Bool.false_ne_true
  · exact fun i hsome => absurd (hpreset i).2.1 hsome

/-- In every run under these conditions the links agree, an open FTP listener has a live control
connection, and a listener is closed only in once mode, by its own event or with its connection. -/
theorem listeners_tied (ports : List (Port × Word)) (socks : Index → Option Nat)
    (hreach : Steps.Reaches (step ftpPorts) (FtpGuard ftpPorts) (State.start ports socks) s) :
    (∀ t i, (s.sockets t).child = some i ↔ (s.lSockets i).parent = some t) ∧
      (∀ i, (s.lSockets i).once = true → (s.lSockets i).s ≠ none →
        ∃ t, (s.lSockets i).parent = some t ∧ (s.sockets t).inUse = true) ∧
      ∀ e, FtpGuard ftpPorts s e → ∀ i, (s.lSockets i).s ≠ none →
        ((handle s ftpPorts e).lSockets i).s = none →
        (s.lSockets i).once = true ∧
          ((∃ what h, e = .listener i what h) ∨
            ∃ t, (s.lSockets i).parent = some t ∧ s.freed t < (handle s ftpPorts e).freed t) := by
  have hlinked : Linked s := by
    refine hreach.invariant (start_linked ports socks) fun {s s' e} hlinked hguard hstep => ?_
    cases hstep
    exact (hlinked.handle hguard).1
  refine ⟨hlinked.link, ?_, ?_⟩
  · intro i honce hopen
    have hport : (s.lSockets i).port ≠ 0 := fun hport => hopen (hlinked.closed i hport).1
    obtain ⟨t, hparent⟩ := Option.ne_none_iff_exists'.mp (hlinked.parent i honce hport)
    refine ⟨t, hparent, hlinked.live t ?_⟩
    rw [(hlinked.link t i).mpr hparent]
    exact nofun
  · intro e hguard i hopen hclosed
    rcases (hlinked.handle hguard).2 i hopen with hsame | ⟨honce, hevent⟩ | ⟨t, hparent, hfreed⟩
    · rw [hsame] at hclosed
      exact absurd hclosed hopen
    · exact ⟨honce, .inl hevent⟩
    · refine ⟨hlinked.once i ?_, .inr ⟨t, hparent, hfreed⟩⟩
      rw [hparent]
      exact nofun

-- ---------------------------------------------------------------------------
-- A control connection
-- ---------------------------------------------------------------------------

/-- A segment of an FTP client on the Mac. -/
def clientSegment (seq : Word) (flags : Flags) (data : List Byte) : Segment where
  ipSrc := 0x0a000002
  ipDest := 0x0a000003
  srcPort := 1024
  destPort := 21
  seq := seq
  ack := 2
  flags := flags
  window := 8192
  data := data

/-- The client connects and sends a `PORT` command. -/
def portCommand : List Event :=
  [.write (clientSegment 100 { syn := true } []) { socket := some 7 },
    .network 0 (.connect false),
    .write (clientSegment 101 { ack := true } []) {},
    .write (clientSegment 101 { ack := true } (ascii "PORT 10,0,0,2,4,1"))
      { listenSocket := some 9 }]

def afterPort : State := (State.start [] fun _ => none).after [21] portCommand

theorem ftpGuard_write (hroom : Room s (.write seg h))
    (horderly : ∀ t, getSocketIndex s seg.srcPort seg.destPort = some t → seg.flags.rst = false →
      FtpOrderly ftpPorts (s.sockets t) seg h)
    (hreuse : getSocketIndex s seg.srcPort seg.destPort = none →
      ∀ t, getSocketIndexBySource s seg.srcPort = some t → (s.sockets t).s = none →
        (s.sockets t).child = none) : FtpGuard ftpPorts s (.write seg h) := by
  refine ⟨hroom, ?_⟩
  rintro _ _ ⟨⟩
  exact ⟨horderly, hreuse⟩

theorem afterPort_reached :
    Steps.Reaches (step [21]) (FtpGuard [21]) (State.start [] fun _ => none) afterPort := by
  unfold afterPort portCommand
  have hconnect : ∀ s : State, FtpGuard [21] s (.network 0 (.connect false)) := by
    refine fun s => ⟨trivial, ?_⟩
    rintro seg h ⟨⟩
  apply reaches_after
  refine guarded_cons ?_ (guarded_cons (hconnect _) (guarded_cons ?_ (guarded_cons ?_
    (guarded_nil ..))))
  · exact ftpGuard_write (by decide +kernel) (by decide +kernel) (by decide +kernel)
  · exact ftpGuard_write (by decide +kernel) (by decide +kernel) (by decide +kernel)
  · exact ftpGuard_write (by decide +kernel) (by decide +kernel) (by decide +kernel)

/-- The listener of the command has the control connection for its parent. -/
theorem afterPort_tied :
    (afterPort.lSockets 0).s = some 9 ∧ (afterPort.lSockets 0).once = true ∧
      ∃ t, (afterPort.lSockets 0).parent = some t ∧ (afterPort.sockets t).inUse = true :=
  ⟨by decide +kernel, by decide +kernel,
    (listeners_tied [] (fun _ => none) afterPort_reached).2.1 0 (by decide +kernel)
      (by decide +kernel)⟩

/-- An error of the listener closes it without a connection, while its parent lives on. -/
theorem acceptError_closes_listener :
    Steps.run (step [21]) (State.start [] fun _ => none) portCommand = some afterPort ∧
      (afterPort.lSockets 0).s = some 9 ∧
      ((handle afterPort [21] (.listener 0 .acceptError {})).lSockets 0).s = none ∧
      (handle afterPort [21] (.listener 0 .acceptError {})).freed 0 = afterPort.freed 0 ∧
      ((handle afterPort [21] (.listener 0 .acceptError {})).sockets 0).inUse = true :=
  ⟨run_after .., by decide +kernel, by decide +kernel, by decide +kernel, by decide +kernel⟩

end SheepShear.Router.Tcp
