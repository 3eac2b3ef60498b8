import SheepShear.Router.Tcp.Reactions

/-!
# Connections and their ports

The router knows a connection by its two ports. As long as these differ from
connection to connection and the table has a free slot whenever one is needed,
an event of one connection leaves the slots of the others alone; only a segment
with new ports closes a connection, the first one with the same port of the Mac.
-/

namespace SheepShear.Router.Tcp

variable {s s' s₀ : State} {t t' : Index} {ftpPorts : List Port} {seg : Segment} {h : Host}
  {c c' : Conn} {e : Event}

def State.Live (s : State) (t : Index) : Prop := (s.sockets t).inUse = true

/-- No two connections have the same ports. -/
def DistinctPorts (s : State) : Prop :=
  ∀ t t', s.Live t → s.Live t' → (s.sockets t).srcPort = (s.sockets t').srcPort →
    (s.sockets t).destPort = (s.sockets t').destPort → t = t'

/-- The event belongs to the connection of slot `t`, or is a segment with new ports that
`find_socket` closes this connection for. -/
def Concerns (s : State) (t : Index) : Event → Prop
  | .write seg _ => getSocketIndex s seg.srcPort seg.destPort = some t ∨
    getSocketIndex s seg.srcPort seg.destPort = none ∧
      getSocketIndexBySource s seg.srcPort = some t
  | .readCompletion i _ _ _ => i = t
  | .writeCompletion i _ _ => i = t
  | .network i _ => i = t
  | .timer _ => (s.sockets t).timeWait ≠ 0 ∨ (s.sockets t).streamToMacStalledUntil ≠ 0
  | .listener lst _ _ => (s.lSockets lst).once = true ∧ (s.lSockets lst).parent = some t

/-- There is room for what the event opens, and a connection from outside has new ports. -/
def Orderly (s : State) (e : Event) : Prop :=
  Room s e ∧
    match e with
    | .listener lst (.accept (some r)) _ => ∀ t, s.Live t →
      ¬((s.sockets t).srcPort = (s.lSockets lst).port ∧ (s.sockets t).destPort = r.port)
    | _ => True

-- ---------------------------------------------------------------------------
-- One event
-- ---------------------------------------------------------------------------

theorem released_of_not_source (hreleased : Released s seg.srcPort t c)
    (hsource : getSocketIndexBySource s seg.srcPort ≠ some t) : c = s.sockets t := by
  cases hreleased with
  | same => rfl
  | reused h _ => exact absurd h hsource
  | forced h _ => exact absurd h hsource

/-- An event of other connections. -/
theorem reaction_of_not_concerns (hlive : s.Live t) (hother : ¬Concerns s t e)
    (hreact : Reaction ftpPorts s t e c) : c = s.sockets t := by
  have hused : ¬(s.sockets t).inUse = false := by simp [show (s.sockets t).inUse = true from hlive]
  cases hreact with
  | same => rfl
  | released hnone hreleased =>
    exact released_of_not_source hreleased fun h => hother (.inr ⟨hnone, h⟩)
  | openFailed hnone hreleased _ hfree _ =>
    have hsame := released_of_not_source hreleased fun h => hother (.inr ⟨hnone, h⟩)
    exact absurd (hsame ▸ hfree) hused
  | openReset hnone hreleased _ hfree _ =>
    have hsame := released_of_not_source hreleased fun h => hother (.inr ⟨hnone, h⟩)
    exact absurd (hsame ▸ hfree) hused
  | openWrite hnone hreleased _ hfree _ =>
    have hsame := released_of_not_source hreleased fun h => hother (.inr ⟨hnone, h⟩)
    exact absurd (hsame ▸ hfree) hused
  | reset hfound _ => exact absurd (.inl hfound) hother
  | write hfound _ => exact absurd (.inl hfound) hother
  | canceled => exact absurd rfl hother
  | readError => exact absurd rfl hother
  | readDone => exact absurd rfl hother
  | writeDone => exact absurd rfl hother
  | connect => exact absurd rfl hother
  | close => exact absurd rfl hother
  | lost => exact absurd rfl hother
  | expired _ hwait _ => exact absurd (.inl hwait) hother
  | resent _ _ hstalled _ _ => exact absurd (.inr hstalled) hother
  | unstalled _ _ =>
    have hzero : (s.sockets t).streamToMacStalledUntil = 0 := by
      by_contra hstalled
      exact hother (.inr hstalled)
    rw [← hzero]
  | acceptFailed _ hfree _ => exact absurd hfree hused
  | accepted _ hfree => exact absurd hfree hused
  | orphaned hparent honce _ => exact absurd ⟨honce, hparent⟩ hother

-- ---------------------------------------------------------------------------
-- Ports
-- ---------------------------------------------------------------------------

/-- The ports stay, and the slot is not taken into use. -/
structure KeepsPorts (c c' : Conn) : Prop where
  srcPort : c'.srcPort = c.srcPort
  destPort : c'.destPort = c.destPort
  inUse : c'.inUse = true → c.inUse = true

theorem KeepsPorts.trans {c'' : Conn} (h : KeepsPorts c c') (h' : KeepsPorts c' c'') :
    KeepsPorts c c'' :=
  ⟨h'.srcPort.trans h.srcPort, h'.destPort.trans h.destPort, fun hused => h.inUse (h'.inUse hused)⟩

theorem free_keepsPorts (c : Conn) : KeepsPorts c c.free := ⟨rfl, rfl, nofun⟩

theorem SameSlot.keepsPorts (h : SameSlot c c') : KeepsPorts c c' :=
  ⟨h.srcPort, h.destPort, fun hused => h.inUse.symm.trans hused⟩

theorem arrive_keepsPorts (now : Word) (hsrc : c.srcPort = seg.srcPort)
    (hdest : c.destPort = seg.destPort) : KeepsPorts c (c.arrive seg now).conn := by
  have hreceive := receive_sameSlot c seg
  have hswitch := hreceive.trans (stateSwitch_sameSlot now (hreceive.srcPort.trans hsrc)
    (hreceive.destPort.trans hdest))
  unfold Conn.arrive
  dsimp only
  split_ifs
  · exact hswitch.keepsPorts.trans (free_keepsPorts _)
  · exact hswitch.keepsPorts

theorem takeData_keepsPorts (c : Conn) (seg : Segment) (lst : Option Index) (h : Host) :
    KeepsPorts c (c.takeData ftpPorts seg lst h) := by
  unfold Conn.takeData
  dsimp only
  cases lst with
  | none =>
    dsimp only
    split_ifs <;> exact ⟨rfl, rfl, id⟩
  | some lst =>
    dsimp only
    split_ifs <;> exact ⟨rfl, rfl, id⟩

theorem writeTcp_keepsPorts (ftpPorts : List Port) (lst : Option Index) (h : Host)
    (hsrc : c.srcPort = seg.srcPort) (hdest : c.destPort = seg.destPort) : KeepsPorts c (c.writeTcp ftpPorts seg lst h) := by
  have harrive := arrive_keepsPorts h.now hsrc hdest
  have hdata : KeepsPorts c (c.handleSegment ftpPorts seg lst h) := by
    unfold Conn.handleSegment
    dsimp only
    split_ifs
    · exact harrive.trans (takeData_keepsPorts ..)
    · exact harrive
  unfold Conn.writeTcp
  dsimp only
  split_ifs
  · exact hdata.trans (bRecfrom_sameSlot _ h).keepsPorts
  · exact hdata

-- ---------------------------------------------------------------------------
-- Runs
-- ---------------------------------------------------------------------------

/-- The ports of the connection that the event opens. -/
def NewPorts (s : State) (srcPort destPort : Port) : Event → Prop
  | .write seg _ => getSocketIndex s seg.srcPort seg.destPort = none ∧ srcPort = seg.srcPort ∧
    destPort = seg.destPort
  | .listener lst (.accept (some r)) _ => srcPort = (s.lSockets lst).port ∧ destPort = r.port
  | _ => False

theorem reaction_ports (hreact : Reaction ftpPorts s t e c) (hused : c.inUse = true) :
    (s.Live t ∧ c.srcPort = (s.sockets t).srcPort ∧ c.destPort = (s.sockets t).destPort) ∨
      opens s e = some t ∧ NewPorts s c.srcPort c.destPort e := by
  have hkept : KeepsPorts (s.sockets t) c →
      (s.Live t ∧ c.srcPort = (s.sockets t).srcPort ∧ c.destPort = (s.sockets t).destPort) ∨
        opens s e = some t ∧ NewPorts s c.srcPort c.destPort e :=
    fun h => .inl ⟨h.inUse hused, h.srcPort, h.destPort⟩
  induction hreact with
  | same => exact hkept ⟨rfl, rfl, id⟩
  | released _ hreleased =>
    cases hreleased with
    | same => exact hkept ⟨rfl, rfl, id⟩
    | reused => exact absurd hused Bool.false_ne_true
    | forced => exact absurd hused Bool.false_ne_true
  | openFailed _ _ _ _ hfailed =>
    cases hfailed with
    | socket => exact absurd hused Bool.false_ne_true
    | bind => exact absurd hused Bool.false_ne_true
  | openReset => exact absurd hused Bool.false_ne_true
  | @openWrite seg h c sock lst hnone _ hopens _ _ =>
    have hopened : (c.opened sock seg.srcPort seg.destPort seg.ipDest).srcPort = seg.srcPort ∧
        (c.opened sock seg.srcPort seg.destPort seg.ipDest).destPort = seg.destPort := ⟨rfl, rfl⟩
    have hwrite := writeTcp_keepsPorts ftpPorts lst h hopened.1 hopened.2
    exact .inr ⟨hopens, hnone, hwrite.srcPort, hwrite.destPort⟩
  | reset => exact absurd hused Bool.false_ne_true
  | write hfound _ =>
    obtain ⟨-, hsrc, hdest⟩ := getSocketIndex_some hfound
    exact hkept (writeTcp_keepsPorts ftpPorts _ _ hsrc hdest)
  | canceled => exact hkept ⟨rfl, rfl, id⟩
  | readError => exact absurd hused Bool.false_ne_true
  | readDone => exact hkept ((filled_sameSlot ..).trans (readDone_sameSlot ..)).keepsPorts
  | writeDone => exact hkept (tcpWriteCompletion_sameSlot ..).keepsPorts
  | connect => exact hkept (tcpConnectCallback_sameSlot _).keepsPorts
  | close => exact hkept ⟨rfl, rfl, id⟩
  | lost => exact absurd hused Bool.false_ne_true
  | expired => exact absurd hused Bool.false_ne_true
  | resent => exact hkept (resend_sameSlot ..).keepsPorts
  | unstalled => exact hkept ⟨rfl, rfl, id⟩
  | acceptFailed _ _ hfailed =>
    cases hfailed with
    | socket => exact absurd hused Bool.false_ne_true
    | bind => exact absurd hused Bool.false_ne_true
  | accepted hopens => exact .inr ⟨hopens, rfl, rfl⟩
  | orphaned _ _ _ ih => exact ih hused fun h => .inl ⟨h.inUse hused, h.srcPort, h.destPort⟩

/-- New ports are those of no connection. -/
theorem newPorts_new (horderly : Orderly s e) {srcPort destPort : Port}
    (hnew : NewPorts s srcPort destPort e) (hlive : s.Live t)
    (hsrc : (s.sockets t).srcPort = srcPort) : (s.sockets t).destPort ≠ destPort := by
  cases e with
  | write seg h =>
    obtain ⟨hnone, rfl, rfl⟩ := hnew
    exact getSocketIndex_none hnone hlive hsrc
  | listener lst what h =>
    cases what with
    | accept incoming =>
      cases incoming with
      | none => exact hnew.elim
      | some r =>
        obtain ⟨rfl, rfl⟩ := hnew
        exact fun hdest => horderly.2 t hlive ⟨hsrc, hdest⟩
    | acceptError => exact hnew.elim
    | other => exact hnew.elim
    | failed => exact hnew.elim
  | readCompletion => exact hnew.elim
  | writeCompletion => exact hnew.elim
  | network => exact hnew.elim
  | timer => exact hnew.elim

theorem handle_distinctPorts (hdistinct : DistinctPorts s) (horderly : Orderly s e) :
    DistinctPorts (handle s ftpPorts e) := by
  intro t t' ht ht' hsrc hdest
  rcases reaction_ports (handle_reaction horderly.1 t) ht with ⟨hold, hs, hd⟩ | ⟨hopens, hnew⟩
  · rcases reaction_ports (handle_reaction horderly.1 t') ht' with
      ⟨hold', hs', hd'⟩ | ⟨-, hnew'⟩
    · exact hdistinct t t' hold hold' (hs.symm.trans (hsrc.trans hs'))
        (hd.symm.trans (hdest.trans hd'))
    · exact absurd (hd.symm.trans hdest)
        (newPorts_new horderly hnew' hold (hs.symm.trans hsrc))
  · rcases reaction_ports (handle_reaction horderly.1 t') ht' with
      ⟨hold', hs', hd'⟩ | ⟨hopens', -⟩
    · exact absurd (hd'.symm.trans hdest.symm)
        (newPorts_new horderly hnew hold' (hs'.symm.trans hsrc.symm))
    · exact Option.some.inj (hopens.symm.trans hopens')

theorem findSocket_iff (hdistinct : DistinctPorts s) (srcPort destPort : Port) :
    (findSocket s srcPort destPort).1 = some t ↔
      s.Live t ∧ (s.sockets t).srcPort = srcPort ∧ (s.sockets t).destPort = destPort := by
  cases hfound : getSocketIndex s srcPort destPort with
  | none =>
    rw [(findSocket_of_none hfound).1]
    constructor
    · nofun
    · rintro ⟨hlive, hsrc, hdest⟩
      exact absurd hdest (getSocketIndex_none hfound hlive hsrc)
  | some i =>
    obtain ⟨hlive, hsrc, hdest⟩ := getSocketIndex_some hfound
    rw [findSocket_of_some hfound, Option.some.injEq]
    constructor
    · rintro rfl
      exact ⟨hlive, hsrc, hdest⟩
    · rintro ⟨hlive', hsrc', hdest'⟩
      exact hdistinct i t hlive hlive' (hsrc.trans hsrc'.symm) (hdest.trans hdest'.symm)

/-- A segment with SYN from a port of the Mac to a port of a host. -/
def synSegment (srcPort destPort : Port) (ipDest : Word) : Segment where
  ipSrc := 0x0a000002
  ipDest := ipDest
  srcPort := srcPort
  destPort := destPort
  seq := 100
  ack := 0
  flags := { syn := true }
  window := 8192

/-- The state after the Mac has opened a connection from port 1024 to port 80. -/
def oneConnection : State :=
  handle (State.start [] fun _ => none) [] (.write (synSegment 1024 80 0x0a000003) { socket := some 7 })

end SheepShear.Router.Tcp
