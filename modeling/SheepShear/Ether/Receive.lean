import SheepShear.Ether.Dlpi

/-!
# Received Ethernet packets

`ether_packet_received` looks through the list of streams and hands the packet
to those that want it, the original message to the last of them. Allocations
succeed here; the counters of the driver are left out.
-/

namespace SheepShear.Ether

-- ---------------------------------------------------------------------------
-- Packets
-- ---------------------------------------------------------------------------

/-- `T8022FullPacketHeader`. -/
structure Header where
  destAddr : EnetAddr
  sourceAddr : EnetAddr
  proto : Sap
  dsap : Byte
  ssap : Byte
  snap : Snap
deriving DecidableEq

def Header.ofBytes (data : List Byte) : Header where
  destAddr := fun i => data.getD i 0
  sourceAddr := fun i => data.getD (6 + i) 0
  proto := data.getD 12 0 ++ data.getD 13 0
  dsap := data.getD 14 0
  ssap := data.getD 15 0
  snap := fun i => data.getD (17 + i) 0

/-- Classic Ethernet, not a length field. -/
def Header.isDIX (h : Header) : Bool := kMinDIXSAP ≤ h.proto

def Header.destSAP (h : Header) : Sap := if h.isDIX then h.proto else h.dsap.setWidth 16

def Header.sourceSAP (h : Header) : Sap := if h.isDIX then h.proto else h.ssap.setWidth 16

def Header.packetType (h : Header) : PacketType := classifyPacketType h.sourceSAP h.destSAP

def Header.destAddressType (h : Header) : AddressType := getAddressType h.destAddr

-- ---------------------------------------------------------------------------
-- The test of one stream
-- ---------------------------------------------------------------------------

def snapSum (a b : Snap) : Byte :=
  (a 0 ^^^ b 0) ||| (a 1 ^^^ b 1) ||| (a 2 ^^^ b 2) ||| (a 3 ^^^ b 3) ||| (a 4 ^^^ b 4)

/-- Control comes to `type_found`. -/
def typeFound (s : DLPIStream) (h : Header) : Bool :=
  if s.flags.acceptAll8022Packets ∧ h.destSAP ≤ 0xff then true
  else if h.destSAP = s.dlsap then
    if s.flags.snapStream then snapSum h.snap s.snap = 0#8 else true
  else (h.packetType = .sap8022 ∨ h.packetType = .snap8022) ∧ h.destSAP &&& 1 ≠ 0 ∧
    testGroupSAP s.groupSap (h.destSAP.setWidth 8)

def wantsPacket (s : DLPIStream) (h : Header) : Bool :=
  s.dlpiState ≠ .unbound && typeFound s h &&
    !(h.destAddressType = .multicast && s.flags.acceptMulticasts &&
      !isMulticastRegistered s h.destAddr)

-- ---------------------------------------------------------------------------
-- Messages
-- ---------------------------------------------------------------------------

/-- A message block: which one it is, and its bytes from `b_rptr` on. -/
structure Mblk where
  id : Nat
  data : List Byte
deriving DecidableEq

/-- `T8022AddressStruct`, whose SNAP is set for SNAP packets only. -/
structure AddressStruct where
  hwAddr : EnetAddr
  sap : Sap
  snap : Option Snap
deriving DecidableEq

/-- `dl_unitdata_ind_t` and the two addresses behind it. -/
structure UnitdataInd where
  addrLength : Nat
  groupAddress : AddressType
  dest : AddressStruct
  src : AddressStruct
deriving DecidableEq

/-- What is put on the read queue of a stream: in fast path mode the packet alone. -/
structure Queued where
  ind : Option UnitdataInd
  packet : Mblk
deriving DecidableEq

inductive Effect where
  | putq (stream : Nat) (m : Queued)
  | freemsg (m : Mblk)
deriving DecidableEq

/-- The Ethernet and protocol headers that are hidden from the stream. -/
def PacketType.headerLength : PacketType → Nat
  | .sap8022 => 14 + 3
  | .snap8022 => 14 + 8
  | _ => 14

def PacketType.addrLength : PacketType → Nat
  | .snap8022 => 8 + 5
  | _ => 8

def unitdataInd (mp : Mblk) (packetType : PacketType) (destAddrType : AddressType) : UnitdataInd :=
  let h := Header.ofBytes mp.data
  let snap := if packetType = .snap8022 then some h.snap else none
  ⟨packetType.addrLength, destAddrType, ⟨h.destAddr, h.dsap.setWidth 16, snap⟩,
    ⟨h.sourceAddr, h.ssap.setWidth 16, snap⟩⟩

/-- The stream at this place of the list gets the message. -/
def handleReceivedPacket (stream : Nat × DLPIStream) (mp : Mblk) (packetType : PacketType)
    (destAddrType : AddressType) : Effect :=
  let payload : Mblk := { mp with data := mp.data.drop packetType.headerLength }
  if stream.2.flags.fastPathMode ∧ destAddrType = .standard then .putq stream.1 ⟨none, payload⟩
  else .putq stream.1 ⟨some (unitdataInd mp packetType destAddrType), payload⟩

/-- The loop over the streams. A stream that was found gets a duplicate when the next one is
found, and the original at the end; `fresh` numbers the duplicates. -/
def deliver (mp : Mblk) : List (Nat × DLPIStream) → Option (Nat × DLPIStream) → Nat → List Effect
  | [], none, _ => [.freemsg mp]
  | [], some found, _ =>
    let h := Header.ofBytes mp.data
    [handleReceivedPacket found mp h.packetType h.destAddressType]
  | stream :: rest, found, fresh =>
    let h := Header.ofBytes mp.data
    if wantsPacket stream.2 h then
      match found with
      | some found =>
        handleReceivedPacket found { mp with id := fresh } h.packetType h.destAddressType ::
          deliver mp rest (some stream) (fresh + 1)
      | none => deliver mp rest (some stream) fresh
    else deliver mp rest found fresh

def etherPacketReceived (streams : List DLPIStream) (mp : Mblk) : List Effect :=
  deliver mp (streams.zipIdx.map Prod.swap) none (mp.id + 1)

-- ---------------------------------------------------------------------------
-- Streams in reachable states
-- ---------------------------------------------------------------------------

/-- The flag for multicast addresses follows their list, and only streams bound to the SNAP SAP have
a SNAP. -/
structure StreamInv (s : DLPIStream) : Prop where
  multicast : s.flags.acceptMulticasts = !s.multicastList.isEmpty
  snap : s.dlpiState = .idle → s.flags.snapStream = true → s.dlsap = kSNAPSAP

theorem etherOpen_inv (groupSap : GroupMap) (snap : Snap) : StreamInv (etherOpen groupSap snap) :=
  ⟨rfl, nofun⟩

theorem subsBind_inv {s s' : DLPIStream} {bindClass : BindClass} {sap : SubsSap}
    (hinv : StreamInv s) (h : subsBind s bindClass sap = .ok s') : StreamInv s' := by
  obtain ⟨hmulticast, hsnap⟩ := hinv
  cases bindClass with
  | peer =>
    simp only [subsBind] at h
    split_ifs at h
    · cases h
      exact ⟨hmulticast, hsnap⟩
    · cases h
      exact ⟨hmulticast, hsnap⟩
  | hierarchical =>
    simp only [subsBind] at h
    split_ifs at h with hdlsap
    cases h
    exact ⟨hmulticast, fun _ _ => hdlsap⟩
  | other => cases h

theorem subsUnbind_keeps {s s' : DLPIStream} {sap : SubsSap} (h : subsUnbind s sap = .ok s') :
    s' = { s with groupSap := s'.groupSap } := by
  unfold subsUnbind at h
  split_ifs at h <;> cases h <;> rfl

/-- `DLPI_subs_bind` makes its binding also when the reply cannot be allocated. -/
theorem dlpiSubsBind_state (s : DLPIStream) (bindClass : BindClass) (sap : SubsSap) (a : Alloc) :
    (dlpiSubsBind s bindClass sap a).2 = s ∨
      (s.dlpiState = .idle ∧ subsBind s bindClass sap = .ok (dlpiSubsBind s bindClass sap a).2) := by
  unfold dlpiSubsBind
  by_cases hidle : s.dlpiState = .idle
  · rw [if_neg (not_not.mpr hidle)]
    cases hbind : subsBind s bindClass sap with
    | error err => exact .inl rfl
    | ok s' =>
      refine .inr ⟨hidle, ?_⟩
      cases a.reply <;> rfl
  · rw [if_pos hidle]
    exact .inl rfl

theorem dlpiSubsUnbind_state (s : DLPIStream) (sap : SubsSap) (a : Alloc) :
    (dlpiSubsUnbind s sap a).2 = s ∨ (s.dlpiState = .idle ∧ ∃ s', subsUnbind s sap = .ok s' ∧
      (dlpiSubsUnbind s sap a).2 = { s' with flags := { s'.flags with snapStream := false } }) := by
  unfold dlpiSubsUnbind
  by_cases hidle : s.dlpiState = .idle
  · rw [if_neg (not_not.mpr hidle)]
    cases hunbind : subsUnbind s sap with
    | error err => exact .inl rfl
    | ok s' => exact .inr ⟨hidle, s', rfl, rfl⟩
  · rw [if_pos hidle]
    exact .inl rfl

theorem request_inv {s : DLPIStream} (hinv : StreamInv s) (a : Alloc) (r : Request) :
    StreamInv (request s a r).2 := by
  obtain ⟨hmulticast, hsnap⟩ := hinv
  cases r with
  | bind sap connectionless =>
    simp only [request, dlpiBind]
    split_ifs
    all_goals first
      | exact ⟨hmulticast, hsnap⟩
      | exact ⟨hmulticast, fun _ => nofun⟩
  | unbind =>
    simp only [request, dlpiUnbind]
    split_ifs
    · exact ⟨hmulticast, hsnap⟩
    · exact ⟨hmulticast, nofun⟩
  | subsBind bindClass sap =>
    obtain hs | ⟨_, hs⟩ := dlpiSubsBind_state s bindClass sap a
    · rw [request, hs]
      exact ⟨hmulticast, hsnap⟩
    · exact subsBind_inv ⟨hmulticast, hsnap⟩ hs
  | subsUnbind sap =>
    obtain hs | ⟨_, s', hunbind, hs⟩ := dlpiSubsUnbind_state s sap a
    · rw [request, hs]
      exact ⟨hmulticast, hsnap⟩
    · rw [request, hs, subsUnbind_keeps hunbind]
      exact ⟨hmulticast, fun _ => nofun⟩
  | enableMulti addr =>
    simp only [request, dlpiEnableMulti]
    split_ifs
    · exact ⟨hmulticast, hsnap⟩
    · exact ⟨hmulticast, hsnap⟩
    · exact ⟨rfl, hsnap⟩
  | disableMulti addr =>
    simp only [request, dlpiDisableMulti]
    by_cases haddr : getAddressType addr ≠ .multicast
    · rw [if_pos haddr]
      exact ⟨hmulticast, hsnap⟩
    rw [if_neg haddr]
    by_cases hfound : isMulticastRegistered s addr
    · rw [if_neg (not_not.mpr hfound)]
      cases hlist : s.multicastList.erase addr with
      | nil => exact ⟨rfl, hsnap⟩
      | cons addr' rest =>
        refine ⟨?_, hsnap⟩
        cases hold : s.multicastList with
        | nil => simp [hold] at hlist
        | cons _ _ =>
          rw [hold] at hmulticast
          exact hmulticast
    · rw [if_pos hfound]
      exact ⟨hmulticast, hsnap⟩
  | fastPath => exact ⟨hmulticast, hsnap⟩

theorem Reachable.inv {s : DLPIStream} (h : Reachable s) : StreamInv s := by
  obtain ⟨groupSap, snap, hreach⟩ := h
  refine hreach.invariant (etherOpen_inv groupSap snap) ?_
  rintro s _ ⟨a, r⟩ hinv _ ⟨rfl⟩
  exact request_inv hinv a r

-- ---------------------------------------------------------------------------
-- Which streams want a packet
-- ---------------------------------------------------------------------------

/-- The bindings of a stream that match a packet. -/
inductive BindingMatches (s : DLPIStream) (h : Header) : Prop where
  | all8022 : s.flags.acceptAll8022Packets = true → h.isDIX = false → BindingMatches s h
  | sap : s.flags.snapStream = false → h.destSAP = s.dlsap → BindingMatches s h
  | snap : s.flags.snapStream = true → h.destSAP = s.dlsap → h.snap = s.snap → BindingMatches s h
  | group : h.packetType = .sap8022 ∨ h.packetType = .snap8022 → h.dsap &&& 1 ≠ 0 →
    testGroupSAP s.groupSap h.dsap = true → BindingMatches s h

/-- A multicast address has to be in the list of a stream that has one. -/
def MulticastAllowed (s : DLPIStream) (h : Header) : Prop :=
  h.destAddressType = .multicast → s.multicastList = [] ∨ h.destAddr ∈ s.multicastList

def Asked (s : DLPIStream) (h : Header) : Prop :=
  s.dlpiState = .idle ∧ BindingMatches s h ∧ MulticastAllowed s h

theorem snapSum_eq_zero (a b : Snap) : snapSum a b = 0#8 ↔ a = b := by
  simp only [snapSum, BitVec.or_eq_zero_iff, BitVec.xor_eq_zero_iff, funext_iff, Fin.forall_fin_succ]
  simp [and_assoc]

theorem Header.destSAP_le (h : Header) : h.destSAP ≤ 0xff ↔ h.isDIX = false := by
  unfold Header.destSAP
  cases hdix : h.isDIX with
  | true =>
    have hproto : kMinDIXSAP ≤ h.proto := of_decide_eq_true hdix
    simp only [BitVec.le_def, if_true, kMinDIXSAP] at hproto ⊢
    change 1501 ≤ h.proto.toNat at hproto
    change h.proto.toNat ≤ 255 ↔ _
    simp
    omega
  | false =>
    have := h.dsap.isLt
    simp [BitVec.le_def]
    omega

/-- Packets with 802.2 headers have a length field. -/
theorem Header.isDIX_of_packetType {h : Header}
    (htype : h.packetType = .sap8022 ∨ h.packetType = .snap8022) : h.isDIX = false := by
  cases hdix : h.isDIX with
  | false => rfl
  | true =>
    have hproto : kMinDIXSAP ≤ h.proto := of_decide_eq_true hdix
    have hpacket : h.packetType = .dix := by
      simp only [Header.packetType, Header.sourceSAP, Header.destSAP, hdix, if_true,
        classifyPacketType, if_pos hproto]
    rw [hpacket] at htype
    obtain htype | htype := htype <;> cases htype

theorem odd_setWidth (b : Byte) : b.setWidth 16 &&& (1 : Sap) ≠ 0 ↔ b &&& 1 ≠ 0 := by
  revert b
  decide

theorem kSNAPSAP_even : kSNAPSAP &&& 1 = 0 := by decide

theorem typeFound_iff {s : DLPIStream} {h : Header} (hinv : StreamInv s)
    (hidle : s.dlpiState = .idle) : typeFound s h = true ↔ BindingMatches s h := by
  constructor
  · intro hfound
    unfold typeFound at hfound
    split at hfound
    · next hall => exact .all8022 hall.1 (h.destSAP_le.mp hall.2)
    split at hfound
    · next hsap =>
      split at hfound
      · next hsnap => exact .snap hsnap hsap ((snapSum_eq_zero _ _).mp (of_decide_eq_true hfound))
      · next hsnap => exact .sap (Bool.not_eq_true _ ▸ hsnap) hsap
    · obtain ⟨htype, hodd, htest⟩ := of_decide_eq_true hfound
      have hdix := Header.isDIX_of_packetType htype
      simp only [Header.destSAP, hdix, Bool.false_eq_true, if_false] at hodd htest
      refine .group htype ((odd_setWidth _).mp hodd) ?_
      simpa using htest
  · intro hmatches
    unfold typeFound
    split
    · rfl
    next hall =>
    cases hmatches with
    | all8022 hflag hdix => exact absurd ⟨hflag, h.destSAP_le.mpr hdix⟩ hall
    | sap hsnap hsap => simp [hsap, hsnap]
    | snap hsnap hsap heq => simp [hsap, hsnap, (snapSum_eq_zero _ _).mpr heq]
    | group htype hodd htest =>
      have hdix := Header.isDIX_of_packetType htype
      have hdest : h.destSAP = h.dsap.setWidth 16 := by simp [Header.destSAP, hdix]
      have hodd' : h.destSAP &&& 1 ≠ 0 := hdest ▸ (odd_setWidth _).mpr hodd
      split
      · next hsap =>
        split
        · next hsnap =>
          -- a SNAP stream is bound to the SNAP SAP, which is even
          rw [hsap, hinv.snap hidle hsnap] at hodd'
          exact absurd kSNAPSAP_even hodd'
        · rfl
      · refine decide_eq_true ⟨htype, hodd', ?_⟩
        rw [hdest]
        simpa using htest

theorem wantsPacket_iff {s : DLPIStream} {h : Header} (hinv : StreamInv s) :
    wantsPacket s h = true ↔ Asked s h := by
  unfold wantsPacket Asked
  cases hstate : s.dlpiState with
  | unbound => simp
  | idle =>
    have hmulticast : (!(h.destAddressType = .multicast && s.flags.acceptMulticasts &&
        !isMulticastRegistered s h.destAddr)) = true ↔ MulticastAllowed s h := by
      rw [hinv.multicast, MulticastAllowed]
      cases hlist : s.multicastList with
      | nil => simp
      | cons addr rest => simp [isMulticastRegistered, hlist, imp_iff_not_or]
    rw [Bool.and_eq_true, Bool.and_eq_true, hmulticast, typeFound_iff hinv hstate]
    simp

-- ---------------------------------------------------------------------------
-- Handing the packet out
-- ---------------------------------------------------------------------------

/-- Duplicates for all streams but the last, which gets the original. -/
def handOut (mp : Mblk) : List (Nat × DLPIStream) → Nat → List Effect
  | [], _ => [.freemsg mp]
  | [stream], _ =>
    let h := Header.ofBytes mp.data
    [handleReceivedPacket stream mp h.packetType h.destAddressType]
  | stream :: stream' :: rest, fresh =>
    let h := Header.ofBytes mp.data
    handleReceivedPacket stream { mp with id := fresh } h.packetType h.destAddressType ::
      handOut mp (stream' :: rest) (fresh + 1)

theorem deliver_eq (mp : Mblk) (streams : List (Nat × DLPIStream))
    (found : Option (Nat × DLPIStream)) (fresh : Nat) :
    deliver mp streams found fresh =
      handOut mp (found.toList ++ streams.filter (wantsPacket ·.2 (.ofBytes mp.data))) fresh := by
  induction streams generalizing found fresh with
  | nil => cases found <;> rfl
  | cons stream rest ih =>
    unfold deliver
    by_cases hwants : wantsPacket stream.2 (.ofBytes mp.data)
    · simp only [hwants, if_true, List.filter_cons_of_pos]
      cases found with
      | none => exact ih (some stream) fresh
      | some found =>
        simp only [ih, Option.toList_some, List.singleton_append]
        rfl
    · simp only [hwants, Bool.false_eq_true, if_false, not_false_eq_true, List.filter_cons_of_neg]
      exact ih found fresh

/-- The stream an effect puts a message on. -/
def Effect.stream : Effect → Option Nat
  | .putq i _ => some i
  | .freemsg _ => none

/-- The block of the packet that an effect passes on or frees. -/
def Effect.packet : Effect → Mblk
  | .putq _ m => m.packet
  | .freemsg m => m

theorem handleReceivedPacket_eq (stream : Nat × DLPIStream) (mp : Mblk) (packetType : PacketType)
    (destAddrType : AddressType) : ∃ ind, handleReceivedPacket stream mp packetType destAddrType =
      .putq stream.1 ⟨ind, { mp with data := mp.data.drop packetType.headerLength }⟩ := by
  unfold handleReceivedPacket
  split
  · exact ⟨_, rfl⟩
  · exact ⟨_, rfl⟩

theorem handOut_streams (mp : Mblk) (streams : List (Nat × DLPIStream)) (fresh : Nat) :
    (handOut mp streams fresh).filterMap Effect.stream = streams.map Prod.fst := by
  fun_induction handOut mp streams fresh with
  | case1 => rfl
  | case2 stream _ h =>
    obtain ⟨ind, heq⟩ := handleReceivedPacket_eq stream mp h.packetType h.destAddressType
    simp [heq, Effect.stream]
  | case3 stream stream' rest fresh h ih =>
    obtain ⟨ind, heq⟩ :=
      handleReceivedPacket_eq stream { mp with id := fresh } h.packetType h.destAddressType
    simp only [heq, List.filterMap_cons, Effect.stream, ih, List.map_cons]

/-- The blocks in the order they are passed on: the duplicates, then the original. -/
theorem handOut_ids (mp : Mblk) (streams : List (Nat × DLPIStream)) (fresh : Nat) :
    (handOut mp streams fresh).map (·.packet.id) =
      List.range' fresh (streams.length - 1) ++ [mp.id] := by
  fun_induction handOut mp streams fresh with
  | case1 => rfl
  | case2 stream _ h =>
    obtain ⟨ind, heq⟩ := handleReceivedPacket_eq stream mp h.packetType h.destAddressType
    simp [heq, Effect.packet]
  | case3 stream stream' rest fresh h ih =>
    obtain ⟨ind, heq⟩ :=
      handleReceivedPacket_eq stream { mp with id := fresh } h.packetType h.destAddressType
    rw [List.map_cons, ih, heq]
    simp [Effect.packet, List.range'_succ]

theorem handOut_effects (mp : Mblk) (streams : List (Nat × DLPIStream)) (fresh : Nat) :
    ∀ e ∈ handOut mp streams fresh, (e = .freemsg mp ∧ streams = []) ∨ ∃ i m, e = .putq i m ∧
      m.packet.data = mp.data.drop (Header.ofBytes mp.data).packetType.headerLength := by
  fun_induction handOut mp streams fresh with
  | case1 =>
    intro e he
    exact .inl ⟨List.mem_singleton.mp he, rfl⟩
  | case2 stream _ h =>
    intro e he
    obtain ⟨ind, heq⟩ := handleReceivedPacket_eq stream mp h.packetType h.destAddressType
    rw [List.mem_singleton.mp he, heq]
    exact .inr ⟨_, _, rfl, rfl⟩
  | case3 stream stream' rest fresh h ih =>
    intro e he
    obtain rfl | he := List.mem_cons.mp he
    · obtain ⟨ind, heq⟩ :=
        handleReceivedPacket_eq stream { mp with id := fresh } h.packetType h.destAddressType
      rw [heq]
      exact .inr ⟨_, _, rfl, rfl⟩
    · obtain ⟨-, hnil⟩ | hputq := ih e he
      · cases hnil
      · exact .inr hputq

-- ---------------------------------------------------------------------------
-- Delivery
-- ---------------------------------------------------------------------------

/-- What is done with a packet. -/
structure Delivered (streams : List DLPIStream) (mp : Mblk) (effects : List Effect) : Prop where
  /-- One message for each stream that asked, none for the others. -/
  queued : ∀ i s, streams[i]? = some s →
    (Asked s (.ofBytes mp.data) → (effects.filterMap Effect.stream).count i = 1) ∧
    (¬ Asked s (.ofBytes mp.data) → (effects.filterMap Effect.stream).count i = 0)
  /-- The original is passed on or freed once, and every message has a block of its own. -/
  original : (effects.map (·.packet.id)).count mp.id = 1
  own : (effects.map (·.packet.id)).Nodup
  /-- Only the original is freed, and then nothing is queued. -/
  freed : ∀ m, .freemsg m ∈ effects → m = mp ∧ effects.filterMap Effect.stream = []
  /-- Every queued message has the bytes behind the headers. -/
  payload : ∀ i m, .putq i m ∈ effects →
    m.packet.data = mp.data.drop (Header.ofBytes mp.data).packetType.headerLength

theorem mem_zipIdx_swap {streams : List DLPIStream} {i : Nat} {s : DLPIStream} :
    (i, s) ∈ streams.zipIdx.map Prod.swap ↔ streams[i]? = some s := by
  simp [List.mem_zipIdx_iff_getElem?]

/-- The places of the streams in the list are distinct. -/
theorem nodup_places (streams : List DLPIStream) (p : Nat × DLPIStream → Bool) :
    (((streams.zipIdx.map Prod.swap).filter p).map Prod.fst).Nodup := by
  have hfst : (streams.zipIdx.map Prod.swap).map Prod.fst = List.range' 0 streams.length := by
    rw [List.map_map, ← List.zipIdx_map_snd]
    rfl
  refine List.Nodup.sublist (List.Sublist.map _ List.filter_sublist) ?_
  rw [hfst]
  exact List.nodup_range'

theorem packet_delivered (streams : List DLPIStream) (mp : Mblk)
    (hreach : ∀ s ∈ streams, Reachable s) :
    Delivered streams mp (etherPacketReceived streams mp) := by
  rw [etherPacketReceived, deliver_eq, Option.toList_none, List.nil_append]
  set wanting := (streams.zipIdx.map Prod.swap).filter (wantsPacket ·.2 (.ofBytes mp.data))
    with hwanting
  have hplace : ∀ i s, streams[i]? = some s →
      (i ∈ wanting.map Prod.fst ↔ Asked s (.ofBytes mp.data)) := by
    intro i s hs
    rw [← wantsPacket_iff (hreach s (List.mem_of_getElem? hs)).inv]
    constructor
    · intro hi
      obtain ⟨⟨i', s'⟩, hmem, rfl⟩ := List.mem_map.mp hi
      obtain ⟨hs', hwants⟩ := List.mem_filter.mp hmem
      cases hs.symm.trans (mem_zipIdx_swap.mp hs')
      exact hwants
    · intro hwants
      exact List.mem_map.mpr ⟨(i, s), List.mem_filter.mpr ⟨mem_zipIdx_swap.mpr hs, hwants⟩, rfl⟩
  have hnodup : (wanting.map Prod.fst).Nodup := nodup_places _ _
  refine ⟨?_, ?_, ?_, ?_, ?_⟩
  · intro i s hs
    rw [handOut_streams, ← hplace i s hs]
    exact ⟨fun hi => List.count_eq_one_of_mem hnodup hi, fun hi => List.count_eq_zero_of_not_mem hi⟩
  · rw [handOut_ids, List.count_append, List.count_singleton_self, List.count_eq_zero_of_not_mem]
    simp only [List.mem_range'_1]
    omega
  · rw [handOut_ids, List.nodup_append]
    refine ⟨List.nodup_range', List.nodup_singleton _, ?_⟩
    simp only [List.mem_range'_1, List.mem_singleton]
    omega
  · intro m hm
    obtain ⟨heq, hnil⟩ | ⟨i, m', heq, -⟩ := handOut_effects mp wanting _ _ hm
    · cases heq
      exact ⟨rfl, by rw [handOut_streams, hnil]; rfl⟩
    · cases heq
  · intro i m hm
    obtain ⟨heq, -⟩ | ⟨i', m', heq, hdata⟩ := handOut_effects mp wanting _ _ hm
    · cases heq
    · cases heq
      exact hdata

/-- A stream bound to the IP protocol type, with no multicast addresses. -/
def ipStream : DLPIStream :=
  (dlpiBind (etherOpen (fun _ => 0) (fun _ => 0)) 0x800 true ⟨true, true, false⟩).2

theorem ipStream_reachable : Reachable ipStream :=
  ⟨_, _, .next (a := (⟨true, true, false⟩, .bind 0x800 true)) .start trivial rfl⟩

/-- An IP packet for a multicast group. -/
def multicastPacket : Mblk :=
  ⟨0, [0x01, 0x00, 0x5e, 0, 0, 1, 2, 0, 0, 0, 0, 1, 0x08, 0x00, 0x45, 0, 0, 20]⟩

theorem multicastPacket_delivered :
    Delivered [ipStream, etherOpen (fun _ => 0) (fun _ => 0)] multicastPacket
      (etherPacketReceived [ipStream, etherOpen (fun _ => 0) (fun _ => 0)] multicastPacket) := by
  refine packet_delivered _ _ ?_
  simp only [List.mem_cons, List.not_mem_nil, or_false, forall_eq_or_imp, forall_eq]
  exact ⟨ipStream_reachable, ⟨_, _, .start⟩⟩

/-- The stream gets the packet although the address is not in its list. -/
theorem multicastPacket_unlisted : Reachable ipStream ∧
    (Header.ofBytes multicastPacket.data).destAddressType = .multicast ∧
    (Header.ofBytes multicastPacket.data).destAddr ∉ ipStream.multicastList ∧
    (etherPacketReceived [ipStream] multicastPacket).filterMap Effect.stream = [0] := by
  refine ⟨ipStream_reachable, ?_, ?_, ?_⟩
  · decide
  · decide
  · decide

end SheepShear.Ether
