import SheepShear.Ether.Transmit

/-!
# What is sent is received

A frame that the driver builds comes back to a stream that is bound to the SAP it
was sent to. The sender takes the framing from the two SAPs and the receiver from
the frame; for frames without an 802.2 header the receiver still reports the SAPs
from where that header would be.
-/

namespace SheepShear.Ether

-- ---------------------------------------------------------------------------
-- What is asked of the driver
-- ---------------------------------------------------------------------------

def kEnetTSDU : Nat := 1514

/-- The sizes in the answer to `DL_INFO_REQ` for a bound stream. -/
def dlMinSdu : Nat := 1

def dlMaxSdu (s : DLPIStream) : Nat :=
  if s.dlsap = kSNAPSAP then kEnetTSDU - (14 + 8)
  else if s.dlsap ≤ kMax8022SAP ∨ s.dlsap = kIPXSAP then kEnetTSDU - (14 + 3)
  else kEnetTSDU - 14

def AdvertisedSdu (s : DLPIStream) (payload : List Byte) : Prop :=
  dlMinSdu ≤ payload.length ∧ payload.length ≤ dlMaxSdu s

/-- The address in a request; without a SAP it is the one of the stream. -/
def requested (s : DLPIStream) (req : List Byte) : AddressStruct where
  hwAddr := fun i => (destAddr req).getD i 0
  sap := txSap s req
  snap := if destAddrLen req = 13 then some fun i => (destAddr req).getD (8 + i) 0 else none

/-- The SNAP that goes with the SAP: the one in the address, or the one of a SNAP stream. -/
def requestedSnap (s : DLPIStream) (req : List Byte) : Option Snap :=
  match (requested s req).snap with
  | some snap => some snap
  | none => if txType s req = .snap8022 then some s.snap else none

/-- A stream that the requested address names, and that is not in fast path mode. -/
structure BoundTo (s : DLPIStream) (req : List Byte) (r : DLPIStream) : Prop where
  idle : r.dlpiState = .idle
  sap : r.dlsap = (requested s req).sap
  snap : r.flags.snapStream = true → requestedSnap s req = some r.snap
  slow : r.flags.fastPathMode = false

/-- The stream at this place gets the data with this destination. -/
def Indicates (effects : List Effect) (i : Nat) (dest : AddressStruct) (payload : List Byte) : Prop :=
  ∃ ind id, .putq i ⟨some ind, ⟨id, payload⟩⟩ ∈ effects ∧ ind.dest.hwAddr = dest.hwAddr ∧
    ind.dest.sap = dest.sap ∧ ∀ snap, dest.snap = some snap → ind.dest.snap = some snap

/-- A multicast address has to be in the list of the receiver if it has one, an 802.2 SAP is one
byte, and only SNAP frames have room for a SNAP. Without an 802.2 header the first two bytes of the
data are taken for the SAPs. -/
def Agrees (s : DLPIStream) (req payload : List Byte) (r : DLPIStream) : Prop :=
  (getAddressType (requested s req).hwAddr = .multicast →
    r.multicastList = [] ∨ (requested s req).hwAddr ∈ r.multicastList) ∧
  match txType s req with
  | .snap8022 => txSap s req ≤ 0xff
  | .sap8022 => txSap s req ≤ 0xff ∧ destAddrLen req ≠ 13
  | .ipx | .dix | .unknown =>
    txSap s req = 0xff ∧ destAddrLen req ≠ 13 ∧ payload.take 2 = [0xff, 0xff]

-- ---------------------------------------------------------------------------
-- The receiver
-- ---------------------------------------------------------------------------

theorem mem_handOut (mp : Mblk) {streams : List (Nat × DLPIStream)} {stream : Nat × DLPIStream}
    (h : stream ∈ streams) (fresh : Nat) :
    ∃ id, handleReceivedPacket stream ⟨id, mp.data⟩ (Header.ofBytes mp.data).packetType
      (Header.ofBytes mp.data).destAddressType ∈ handOut mp streams fresh := by
  fun_induction handOut mp streams fresh with
  | case1 => cases h
  | case2 stream' _ =>
    obtain rfl := List.mem_singleton.mp h
    exact ⟨mp.id, List.mem_singleton_self _⟩
  | case3 stream' stream'' rest fresh _ ih =>
    rcases List.mem_cons.mp h with rfl | h
    · exact ⟨fresh, List.mem_cons_self ..⟩
    · obtain ⟨id, hid⟩ := ih h
      exact ⟨id, List.mem_cons_of_mem _ hid⟩

theorem of_mem_handOut {mp : Mblk} {streams : List (Nat × DLPIStream)} {fresh i : Nat} {m : Queued}
    (h : .putq i m ∈ handOut mp streams fresh) :
    ∃ stream ∈ streams, ∃ id, .putq i m = handleReceivedPacket stream ⟨id, mp.data⟩
      (Header.ofBytes mp.data).packetType (Header.ofBytes mp.data).destAddressType := by
  fun_induction handOut mp streams fresh with
  | case1 => simp at h
  | case2 stream' _ => exact ⟨stream', List.mem_singleton_self _, mp.id, List.mem_singleton.mp h⟩
  | case3 stream' stream'' rest fresh _ ih =>
    rcases List.mem_cons.mp h with h | h
    · exact ⟨stream', List.mem_cons_self .., fresh, h⟩
    · obtain ⟨stream, hstream, hputq⟩ := ih h
      exact ⟨stream, List.mem_cons_of_mem _ hstream, hputq⟩

theorem handleReceivedPacket_slow {r : DLPIStream} (hslow : r.flags.fastPathMode = false) (i : Nat)
    (mp : Mblk) (packetType : PacketType) (destAddrType : AddressType) :
    handleReceivedPacket (i, r) mp packetType destAddrType =
      .putq i ⟨some (unitdataInd mp packetType destAddrType),
        ⟨mp.id, mp.data.drop packetType.headerLength⟩⟩ := by
  have hcond : ¬(r.flags.fastPathMode = true ∧ destAddrType = .standard) := by simp [hslow]
  exact if_neg hcond

/-- The frame is one the stream asked for, with this destination and these data in it. -/
structure Received (frame : List Byte) (r : DLPIStream) (dest : AddressStruct) (payload : List Byte) :
    Prop where
  asked : Asked r (.ofBytes frame)
  payload : frame.drop (Header.ofBytes frame).packetType.headerLength = payload
  hwAddr : (Header.ofBytes frame).destAddr = dest.hwAddr
  sap : (Header.ofBytes frame).dsap.setWidth 16 = dest.sap
  snap : ∀ snap, dest.snap = some snap →
    (Header.ofBytes frame).packetType = .snap8022 ∧ (Header.ofBytes frame).snap = snap

/-- A stream that asked gets the indication. -/
theorem indicates_iff {streams : List DLPIStream} {mp : Mblk} {i : Nat} {r : DLPIStream}
    (hr : streams[i]? = some r) (hreach : Reachable r) (hslow : r.flags.fastPathMode = false)
    (dest : AddressStruct) (payload : List Byte) :
    Indicates (etherPacketReceived streams mp) i dest payload ↔ Received mp.data r dest payload := by
  rw [etherPacketReceived, deliver_eq, Option.toList_none, List.nil_append]
  have hsnap : ∀ {snap : Snap},
      (if (Header.ofBytes mp.data).packetType = .snap8022 then some (Header.ofBytes mp.data).snap
        else none) = some snap ↔
      (Header.ofBytes mp.data).packetType = .snap8022 ∧ (Header.ofBytes mp.data).snap = snap := by
    intro snap
    split_ifs with htype
    · simp [htype]
    · simp [htype]
  constructor
  · rintro ⟨ind, id, hmem, haddr, hsap, hdest⟩
    obtain ⟨⟨j, s⟩, hstream, id', heq⟩ := of_mem_handOut hmem
    obtain ⟨hplace, hwants⟩ := List.mem_filter.mp hstream
    obtain ⟨ind', heq'⟩ := handleReceivedPacket_eq (j, s) ⟨id', mp.data⟩
      (Header.ofBytes mp.data).packetType (Header.ofBytes mp.data).destAddressType
    rw [heq'] at heq
    obtain ⟨rfl, -⟩ := Effect.putq.inj heq
    obtain rfl := Option.some.inj (hr.symm.trans (mem_zipIdx_swap.mp hplace))
    rw [handleReceivedPacket_slow hslow] at heq'
    rw [← heq'] at heq
    obtain ⟨-, hqueued⟩ := Effect.putq.inj heq
    obtain ⟨hind, hpacket⟩ := Queued.mk.inj hqueued
    obtain rfl := Option.some.inj hind
    exact ⟨(wantsPacket_iff hreach.inv).mp hwants, (Mblk.mk.inj hpacket).2.symm, haddr, hsap,
      fun snap h => hsnap.mp (hdest snap h)⟩
  · rintro ⟨hasked, rfl, haddr, hsap, hdest⟩
    have hmem : (i, r) ∈ (streams.zipIdx.map Prod.swap).filter (wantsPacket ·.2 (.ofBytes mp.data)) :=
      List.mem_filter.mpr ⟨mem_zipIdx_swap.mpr hr, (wantsPacket_iff hreach.inv).mpr hasked⟩
    obtain ⟨id, hid⟩ := mem_handOut mp hmem (mp.id + 1)
    rw [handleReceivedPacket_slow hslow] at hid
    exact ⟨_, id, hid, haddr, hsap, fun snap h => hsnap.mpr (hdest snap h)⟩

-- ---------------------------------------------------------------------------
-- The headers of a frame
-- ---------------------------------------------------------------------------

theorem getD_append_length {xs ys : List Byte} {n : Nat} (h : xs.length = n) (i : Nat) :
    (xs ++ ys).getD (n + i) 0 = ys.getD i 0 := by
  rw [List.getD_append_right _ _ _ _ (by omega), h, Nat.add_sub_cancel_left]

/-- What is behind the addresses and the type. -/
structure Framed (frame dst type tail : List Byte) : Prop where
  split : ∃ src, frame = dst ++ (src ++ (type ++ tail)) ∧ src.length = 6
  dst : dst.length = 6
  type : type.length = 2

namespace Framed

variable {frame dst type tail : List Byte}

theorem getD (h : Framed frame dst type tail) (i : Nat) : frame.getD (14 + i) 0 = tail.getD i 0 := by
  obtain ⟨src, rfl, hsrc⟩ := h.split
  have hfront : (dst ++ (src ++ type)).length = 14 := by
    simp only [List.length_append, h.dst, hsrc, h.type]
  rw [← List.append_assoc src, ← List.append_assoc dst, getD_append_length hfront]

theorem drop (h : Framed frame dst type tail) (n : Nat) : frame.drop (14 + n) = tail.drop n := by
  obtain ⟨src, rfl, hsrc⟩ := h.split
  have hfront : (dst ++ (src ++ type)).length = 14 := by
    simp only [List.length_append, h.dst, hsrc, h.type]
  rw [← List.append_assoc src, ← List.append_assoc dst, ← hfront, List.drop_length_add_append]

theorem destAddr (h : Framed frame dst type tail) (i : Fin 6) :
    (Header.ofBytes frame).destAddr i = dst.getD i 0 := by
  obtain ⟨src, rfl, hsrc⟩ := h.split
  have hi := i.isLt
  exact List.getD_append _ _ _ _ (by rw [h.dst]; exact hi)

theorem proto {sap : Sap} (h : Framed frame dst (Sap.bytes sap) tail) :
    (Header.ofBytes frame).proto = sap := by
  obtain ⟨src, rfl, hsrc⟩ := h.split
  have hfront : (dst ++ src).length = 12 := by simp only [List.length_append, h.dst, hsrc]
  have hget : ∀ i, (dst ++ (src ++ (Sap.bytes sap ++ tail))).getD (12 + i) 0 =
      (Sap.bytes sap ++ tail).getD i 0 := by
    intro i
    rw [← List.append_assoc dst, getD_append_length hfront]
  change (dst ++ _).getD (12 + 0) 0 ++ (dst ++ _).getD (12 + 1) 0 = sap
  rw [hget, hget]
  change sap.extractLsb' 8 8 ++ sap.extractLsb' 0 8 = sap
  rw [BitVec.extractLsb'_append_extractLsb'_eq_extractLsb' (by omega)]
  exact BitVec.extractLsb'_eq_self

theorem dsap (h : Framed frame dst type tail) : (Header.ofBytes frame).dsap = tail.getD 0 0 := h.getD 0

theorem ssap (h : Framed frame dst type tail) : (Header.ofBytes frame).ssap = tail.getD 1 0 := h.getD 1

theorem snap (h : Framed frame dst type tail) (i : Fin 5) :
    (Header.ofBytes frame).snap i = tail.getD (3 + i) 0 := by
  change frame.getD (17 + i) 0 = _
  rw [show 17 + (i : Nat) = 14 + (3 + i) by omega, h.getD]

end Framed

-- ---------------------------------------------------------------------------
-- The frame of a request
-- ---------------------------------------------------------------------------

theorem msgdsize_eq {mp : List Msgb} (h : ∀ m ∈ mp, m.isData = true) :
    msgdsize mp = (messageBytes mp).length := by
  rw [msgdsize, List.filter_eq_self.mpr h, messageBytes, List.length_flatMap]

/-- The block with the request does not count. -/
theorem msgdsize_request {first : Msgb} {data : List Msgb} (hfirst : first.isData = false)
    (hdata : ∀ m ∈ data, m.isData = true) :
    msgdsize (first :: data) = (messageBytes data).length := by
  rw [← msgdsize_eq hdata, msgdsize, List.filter_cons_of_neg (by simp [hfirst])]
  rfl

theorem Sap.bytes_eq_zero {sap : Sap} : Sap.bytes sap = [0, 0] ↔ sap = 0 := by
  constructor
  · intro h
    have hsap : sap.extractLsb' 8 8 ++ sap.extractLsb' 0 8 = sap := by
      rw [BitVec.extractLsb'_append_extractLsb'_eq_extractLsb' (by omega)]
      exact BitVec.extractLsb'_eq_self
    obtain ⟨hhigh, hlow⟩ := List.cons.inj h
    rw [← hsap, hhigh, (List.cons.inj hlow).1]
    rfl
  · rintro rfl
    rfl

/-- What stands behind the Ethernet header of the frame. -/
def txTail (s : DLPIStream) (req payload : List Byte) : List Byte :=
  protocolHeader s (txType s req) (txSap s req) (txSnap s (destAddrLen req) (addrCopy req)) ++ payload

theorem uderror_ne_frame {req frame : List Byte} {mem : Bool} : uderror req mem ≠ .ok (.frame frame) := by
  intro h
  obtain ⟨_, -, h⟩ := Except.bind_eq_ok.mp h
  split at h
  · cases h
  · obtain ⟨_, -, h⟩ := Except.bind_eq_ok.mp h
    obtain ⟨_, -, h⟩ := Except.bind_eq_ok.mp h
    obtain ⟨_, -, h⟩ := Except.bind_eq_ok.mp h
    obtain ⟨_, -, h⟩ := Except.bind_eq_ok.mp h
    obtain ⟨_, -, h⟩ := Except.bind_eq_ok.mp h
    obtain ⟨_, -, h⟩ := Except.bind_eq_ok.mp h
    obtain ⟨_, -, h⟩ := Except.bind_eq_ok.mp h
    obtain ⟨_, -, h⟩ := Except.bind_eq_ok.mp h
    cases h

/-- The frame of a request; `sap` is its type or its length. -/
theorem exists_framed {s : DLPIStream} {first : Msgb} {data : List Msgb} {hardwareAddress : EnetAddr}
    {mem : Bool} {frame : List Byte} (hreq : UnitdataReq first.bytes)
    (hlen : destAddrLen first.bytes ≤ kMaxBoundAddrLength) (hfirst : first.isData = false)
    (hdata : ∀ m ∈ data, m.isData = true)
    (hframe : dlpiUnitData s hardwareAddress (first :: data) mem = .ok (.frame frame)) :
    ∃ sap, Framed frame ((addrCopy first.bytes).take 6) (Sap.bytes sap)
        (txTail s first.bytes (messageBytes data)) ∧
      (sap = .ofNat 16 (txTail s first.bytes (messageBytes data)).length ∨
        sap = txProto (txType s first.bytes) (txSap s first.bytes)
          (.ofNat 16 (messageBytes data).length) false ∧ sap ≠ 0) := by
  have hdst : ((addrCopy first.bytes).take 6).length = 6 := by
    rw [List.length_take, hreq.length_addrCopy hlen]
    rfl
  have hidle : ¬s.dlpiState ≠ .idle := by
    intro hidle
    rw [dlpiUnitData, if_pos hidle] at hframe
    exact uderror_ne_frame hframe
  rw [dlpiUnitData, if_neg hidle] at hframe
  rcases hreq.build_ok rfl data s false mem hlen with
    hnone | ⟨header, rest, src, body, hsome, hbytes, hsrc, hbody, htypes⟩
  · rw [hnone] at hframe
    cases hframe
  · rw [hsome, Except.ok_bind] at hframe
    dsimp only at hframe
    rw [transmitPacket_ok hbytes hdst hsrc rfl, Except.ok_bind] at hframe
    have heq := Sent.frame.inj (Except.ok.inj hframe)
    rw [hbody, msgdsize_request hfirst hdata] at heq
    have hlength : msgdsize (header :: rest) - 14 = (txTail s first.bytes (messageBytes data)).length := by
      have hbytes' := congrArg List.length hbytes
      have hbody' := congrArg List.length hbody
      simp only [List.length_append, hdst, hsrc] at hbytes' hbody'
      change header.bytes.length = 6 + (6 + (2 + body.length)) at hbytes'
      rw [msgdsize_eq (htypes hdata), messageBytes, List.flatMap_cons, List.length_append, txTail,
        List.length_append]
      change header.bytes.length + (messageBytes rest).length - 14 = _
      omega
    have haddr : (enetBytes hardwareAddress).length = 6 := List.length_ofFn
    by_cases hzero : txProto (txType s first.bytes) (txSap s first.bytes)
        (.ofNat 16 (messageBytes data).length) false = 0
    · rw [hzero, sentType, if_pos (Sap.bytes_eq_zero.mpr rfl), hlength] at heq
      exact ⟨_, ⟨⟨_, heq.symm, haddr⟩, hdst, rfl⟩, .inl rfl⟩
    · rw [sentType, if_neg (Sap.bytes_eq_zero.not.mpr hzero)] at heq
      exact ⟨_, ⟨⟨_, heq.symm, haddr⟩, hdst, rfl⟩, .inr ⟨rfl, hzero⟩⟩

-- ---------------------------------------------------------------------------
-- The address in the frame
-- ---------------------------------------------------------------------------

/-- The lengths of a destination address: with or without a SAP, and with a SNAP. -/
def AddrLen (len : Nat) : Prop := len = 6 ∨ len = 8 ∨ len = 13

theorem AddrLen.le {len : Nat} (h : AddrLen len) : len ≤ kMaxBoundAddrLength := by
  rcases h with rfl | rfl | rfl <;> decide

section Address

variable {s : DLPIStream} {req : List Byte}

theorem addrCopy_getD (h : UnitdataReq req) {i : Nat} (hi : i < destAddrLen req) :
    (addrCopy req).getD i 0 = (destAddr req).getD i 0 := by
  rw [addrCopy, Buffer.overwrite, List.take_zero, List.nil_append]
  exact List.getD_append _ _ _ _ (by rwa [h.length_destAddr])

theorem dst_getD (h : UnitdataReq req) (hlen : AddrLen (destAddrLen req)) (i : Fin 6) :
    ((addrCopy req).take 6).getD i 0 = (requested s req).hwAddr i := by
  have hi := i.isLt
  have hmin : 6 ≤ destAddrLen req := by
    rcases hlen with h | h | h <;> omega
  have htake := @getD_take_drop (addrCopy req) 0 6 i hi
  rw [List.drop_zero, Nat.zero_add] at htake
  rw [htake, addrCopy_getD h (by omega)]
  rfl

/-- The SNAP in a SNAP frame. -/
def sentSnap (s : DLPIStream) (req : List Byte) : Snap :=
  fun i => (txSnap s (destAddrLen req) (addrCopy req)).getD i 0

theorem sentSnap_of_address (h : UnitdataReq req) (hlen : destAddrLen req = 13) :
    (requested s req).snap = some (sentSnap s req) := by
  refine (if_pos hlen).trans (congrArg some (funext fun i => ?_))
  have hi := i.isLt
  rw [sentSnap, txSnap, if_pos hlen.ge, getD_take_drop hi, addrCopy_getD h (by omega)]

/-- It is the requested one. -/
theorem requestedSnap_eq (h : UnitdataReq req) (hlen : AddrLen (destAddrLen req))
    (htype : txType s req = .snap8022) : requestedSnap s req = some (sentSnap s req) := by
  by_cases h13 : destAddrLen req = 13
  · rw [requestedSnap, sentSnap_of_address h h13]
  · have hnone : (requested s req).snap = none := if_neg h13
    have hlt : ¬13 ≤ destAddrLen req := by
      rcases hlen with h | h | h <;> omega
    rw [requestedSnap, hnone]
    dsimp only
    rw [if_pos htype]
    refine congrArg some (funext fun i => ?_)
    rw [sentSnap, txSnap, if_neg hlt, snapBytes, List.getD_eq_getElem?_getD, List.getElem?_ofFn,
      dif_pos i.isLt]
    rfl

end Address

-- ---------------------------------------------------------------------------
-- Framings
-- ---------------------------------------------------------------------------

theorem setWidth_byte {sap : Sap} : (sap.setWidth 8).setWidth 16 = sap ↔ sap ≤ 0xff := by
  rw [← BitVec.toNat_inj, BitVec.toNat_setWidth, BitVec.toNat_setWidth, BitVec.le_def]
  change sap.toNat % 256 % 65536 = sap.toNat ↔ sap.toNat ≤ 255
  omega

theorem byte_setWidth (b : Byte) : (b.setWidth 16 : Sap).setWidth 8 = b := by
  rw [BitVec.setWidth_setWidth_of_le _ (by decide), BitVec.setWidth_eq]

theorem classify_snap8022 {p q : Sap} : classifyPacketType p q = .snap8022 ↔ p = kSNAPSAP := by
  unfold classifyPacketType
  constructor
  · intro h
    split_ifs at h
    assumption
  · rintro rfl
    rfl

theorem classify_ipx {p q : Sap} : classifyPacketType p q = .ipx ↔ p = kIPXSAP ∧ q = kIPXSAP := by
  unfold classifyPacketType
  constructor
  · intro h
    split_ifs at h
    assumption
  · rintro ⟨rfl, rfl⟩
    rfl

/-- SAPs of one byte are those of a frame with an 802.2 header, but for raw IPX. -/
theorem classify_byte {p q : Sap} (hp : p ≤ 0xff) (hipx : classifyPacketType p q ≠ .ipx) :
    classifyPacketType p q = .sap8022 ∨ classifyPacketType p q = .snap8022 := by
  have hdix : ¬kMinDIXSAP ≤ p := by
    rw [BitVec.le_def] at hp ⊢
    change p.toNat ≤ 255 at hp
    change ¬1501 ≤ p.toNat
    omega
  have hglobal : p ≤ k8022GlobalSAP := hp
  unfold classifyPacketType at hipx ⊢
  rw [if_neg hdix] at hipx ⊢
  split_ifs at hipx ⊢ with h₁ h₂
  · exact absurd rfl hipx
  · exact .inr rfl
  · exact .inl rfl

/-- With an 802.2 header in the frame, the SAP of the stream is one byte. -/
theorem primary_of_8022 {p q : Sap}
    (h : classifyPacketType p q = .sap8022 ∨ classifyPacketType p q = .snap8022) : p ≤ 0xff := by
  rcases h with h | h
  · unfold classifyPacketType at h
    split_ifs at h with h₁ h₂ h₃ h₄
    exact h₄
  · rw [classify_snap8022.mp h]
    decide

section Framings

variable {s : DLPIStream} {req payload frame dst : List Byte} {sap : Sap}

/-- The receiver sees the framing that was chosen. -/
theorem received_8022 (hframed : Framed frame dst (Sap.bytes sap) (txTail s req payload))
    (hcopy : (addrCopy req).length = kMaxBoundAddrLength) (hsap : ¬kMinDIXSAP ≤ sap) (htype : txType s req = .sap8022 ∨ txType s req = .snap8022)
    (hbyte : txSap s req ≤ 0xff) :
    (Header.ofBytes frame).destSAP = txSap s req ∧ (Header.ofBytes frame).packetType = txType s req ∧
      frame.drop (txType s req).headerLength = payload ∧
      (txType s req = .snap8022 → (Header.ofBytes frame).snap = sentSnap s req) := by
  have hdix : (Header.ofBytes frame).isDIX = false := by
    rw [Header.isDIX, hframed.proto]
    exact decide_eq_false hsap
  have hheader : ∃ rest, txTail s req payload =
      (txSap s req).setWidth 8 :: s.dlsap.setWidth 8 :: rest := by
    rw [txTail]
    rcases htype with htype | htype <;> rw [htype] <;> exact ⟨_, rfl⟩
  obtain ⟨rest, hrest⟩ := hheader
  have hdsap : (Header.ofBytes frame).dsap.setWidth 16 = txSap s req := by
    rw [hframed.dsap, hrest]
    exact setWidth_byte.mpr hbyte
  have hssap : (Header.ofBytes frame).ssap.setWidth 16 = s.dlsap := by
    rw [hframed.ssap, hrest]
    exact setWidth_byte.mpr (primary_of_8022 htype)
  have hdest : (Header.ofBytes frame).destSAP = txSap s req := by
    rw [Header.destSAP, hdix]
    exact hdsap
  have hsource : (Header.ofBytes frame).sourceSAP = s.dlsap := by
    rw [Header.sourceSAP, hdix]
    exact hssap
  have hlength := @length_txSnap s (destAddrLen req) _ hcopy
  refine ⟨hdest, by rw [Header.packetType, hdest, hsource]; rfl, ?_, fun hsnap => ?_⟩
  · rcases htype with htype | htype
    · rw [htype]
      change frame.drop (14 + 3) = payload
      rw [hframed.drop, txTail, htype]
      rfl
    · rw [htype]
      change frame.drop (14 + 8) = payload
      rw [hframed.drop, txTail, htype]
      have hfront : (protocolHeader s .snap8022 (txSap s req)
          (txSnap s (destAddrLen req) (addrCopy req))).length = 8 := by
        rw [protocolHeader, List.length_append, hlength]
        rfl
      rw [← hfront, List.drop_left]
  · funext i
    have hi := i.isLt
    rw [hframed.snap, txTail, hsnap, protocolHeader, List.append_assoc]
    refine (getD_append_length (show [_, _, _].length = 3 from rfl) i).trans ?_
    exact List.getD_append _ _ _ _ (by rwa [hlength])

theorem drop_ne_self {payload : List Byte} {n : Nat} (hn : 0 < n) (hpayload : payload ≠ []) :
    payload.drop n ≠ payload := by
  intro h
  have hlength := congrArg List.length h
  have hpos := List.length_pos_of_ne_nil hpayload
  rw [List.length_drop] at hlength
  omega

/-- Other frames have the data where the 802.2 header would be. -/
theorem received_other (hframed : Framed frame dst (Sap.bytes sap) payload)
    (hsap : ¬kMinDIXSAP ≤ sap) (hpayload : payload ≠ []) :
    frame.drop (Header.ofBytes frame).packetType.headerLength = payload ↔
      (Header.ofBytes frame).dsap = 0xff ∧ (Header.ofBytes frame).packetType = .ipx := by
  have hdix : (Header.ofBytes frame).isDIX = false := by
    rw [Header.isDIX, hframed.proto]
    exact decide_eq_false hsap
  have hdest : (Header.ofBytes frame).destSAP = (Header.ofBytes frame).dsap.setWidth 16 := by
    rw [Header.destSAP, hdix]
    rfl
  have hsource : (Header.ofBytes frame).sourceSAP = (Header.ofBytes frame).ssap.setWidth 16 := by
    rw [Header.sourceSAP, hdix]
    rfl
  constructor
  · intro hdrop
    by_cases hipx : (Header.ofBytes frame).packetType = .ipx
    · refine ⟨?_, hipx⟩
      have hsaps := (classify_ipx.mp hipx).2
      rw [hdest] at hsaps
      rw [← byte_setWidth (Header.ofBytes frame).dsap, hsaps]
      rfl
    · -- the header that is taken off is too long
      have hbyte : (Header.ofBytes frame).sourceSAP ≤ 0xff := by
        rw [hsource, ← setWidth_byte, byte_setWidth]
      rcases classify_byte hbyte hipx with h8022 | h8022
      · have hdrop' : frame.drop (14 + 3) = payload := by
          rw [Header.packetType, h8022] at hdrop
          exact hdrop
        rw [hframed.drop] at hdrop'
        exact absurd hdrop' (drop_ne_self (by decide) hpayload)
      · have hdrop' : frame.drop (14 + 8) = payload := by
          rw [Header.packetType, h8022] at hdrop
          exact hdrop
        rw [hframed.drop] at hdrop'
        exact absurd hdrop' (drop_ne_self (by decide) hpayload)
  · rintro ⟨-, hipx⟩
    rw [hipx]
    exact hframed.drop 0

/-- They are raw IPX packets when the data begin as those do. -/
theorem packetType_ipx_iff (hframed : Framed frame dst (Sap.bytes sap) payload)
    (hsap : ¬kMinDIXSAP ≤ sap) :
    (Header.ofBytes frame).packetType = .ipx ↔ payload.take 2 = [0xff, 0xff] := by
  have hdix : (Header.ofBytes frame).isDIX = false := by
    rw [Header.isDIX, hframed.proto]
    exact decide_eq_false hsap
  have hbyte : ∀ b : Byte, b.setWidth 16 = kIPXSAP ↔ b = 0xff := by
    intro b
    constructor
    · intro h
      rw [← byte_setWidth b, h]
      rfl
    · rintro rfl
      rfl
  rw [Header.packetType, Header.sourceSAP, Header.destSAP, hdix, hframed.dsap, hframed.ssap]
  simp only [Bool.false_eq_true, if_false, classify_ipx, hbyte]
  rcases payload with _ | ⟨a, _ | ⟨b, rest⟩⟩
  · exact iff_of_false (fun h => by simp at h) (by simp)
  · exact iff_of_false (fun h => by simp at h) (by simp)
  · simp [and_comm]

end Framings

-- ---------------------------------------------------------------------------
-- Sizes
-- ---------------------------------------------------------------------------

theorem not_isDIX_of_le {n : Nat} (h : n ≤ 1500) : ¬kMinDIXSAP ≤ BitVec.ofNat 16 n := by
  rw [BitVec.le_def, BitVec.toNat_ofNat]
  change ¬1501 ≤ n % 65536
  omega

theorem dlMaxSdu_le (s : DLPIStream) : dlMaxSdu s ≤ 1500 := by
  unfold dlMaxSdu kEnetTSDU
  split_ifs <;> omega

/-- The 802.2 header and the data are at most as long as the largest length. -/
theorem headerLength_add_dlMaxSdu {s : DLPIStream} {req : List Byte}
    (htype : txType s req = .sap8022 ∨ txType s req = .snap8022) :
    (txType s req).headerLength + dlMaxSdu s ≤ kEnetTSDU := by
  rcases htype with htype | htype
  · have hbyte : s.dlsap ≤ kMax8022SAP ∨ s.dlsap = kIPXSAP := by
      have hle := primary_of_8022 (.inl htype)
      rw [BitVec.le_def] at hle
      change s.dlsap.toNat ≤ 255 at hle
      rw [BitVec.le_def, ← BitVec.toNat_inj]
      change s.dlsap.toNat ≤ 254 ∨ s.dlsap.toNat = 255
      omega
    have hsnap : s.dlsap ≠ kSNAPSAP := by
      intro hsnap
      rw [txType, classify_snap8022.mpr hsnap] at htype
      cases htype
    rw [htype, dlMaxSdu, if_neg hsnap, if_pos hbyte]
    decide
  · rw [htype, dlMaxSdu, if_pos (classify_snap8022.mp htype)]
    decide

-- ---------------------------------------------------------------------------
-- The round trip
-- ---------------------------------------------------------------------------

section RoundTrip

variable {s r : DLPIStream} {req payload frame dst : List Byte} {sap : Sap}

theorem requested_snap_none (h : destAddrLen req ≠ 13) : (requested s req).snap = none := if_neg h

theorem requestedSnap_none (hlen : destAddrLen req ≠ 13) (htype : txType s req ≠ .snap8022) :
    requestedSnap s req = none := by
  rw [requestedSnap, requested_snap_none hlen]
  exact if_neg htype

/-- Frames with an 802.2 header. -/
theorem received_iff_8022 (hreq : UnitdataReq req) (hlen : AddrLen (destAddrLen req))
    (hframed : Framed frame dst (Sap.bytes sap) (txTail s req payload)) (hsap : ¬kMinDIXSAP ≤ sap)
    (haddr : (Header.ofBytes frame).destAddr = (requested s req).hwAddr)
    (hbound : BoundTo s req r)
    (htype : txType s req = .sap8022 ∨ txType s req = .snap8022) :
    Received frame r (requested s req) payload ↔ MulticastAllowed r (.ofBytes frame) ∧
      txSap s req ≤ 0xff ∧ (txType s req = .sap8022 → destAddrLen req ≠ 13) := by
  have hcopy := hreq.length_addrCopy hlen.le
  have hdsap : (Header.ofBytes frame).dsap = (txSap s req).setWidth 8 := by
    rw [hframed.dsap, txTail]
    rcases htype with htype | htype <;> rw [htype] <;> rfl
  constructor
  · intro h
    have hbyte : txSap s req ≤ 0xff := by
      rw [← setWidth_byte, ← hdsap]
      exact h.sap
    obtain ⟨-, hpacket, -, -⟩ := received_8022 hframed hcopy hsap htype hbyte
    refine ⟨h.asked.2.2, hbyte, fun hsap8022 h13 => ?_⟩
    have hsnap := (h.snap _ (sentSnap_of_address hreq h13)).1
    rw [hpacket, hsap8022] at hsnap
    cases hsnap
  · rintro ⟨hmulticast, hbyte, h13⟩
    obtain ⟨hdest, hpacket, hdrop, hsnap⟩ := received_8022 hframed hcopy hsap htype hbyte
    have hdlsap : (Header.ofBytes frame).destSAP = r.dlsap := hdest.trans hbound.sap.symm
    refine ⟨⟨hbound.idle, ?_, hmulticast⟩, by rw [hpacket]; exact hdrop, haddr, ?_, fun snap hreqSnap => ?_⟩
    · cases hstream : r.flags.snapStream with
      | false => exact .sap hstream hdlsap
      | true =>
        have hrsnap := hbound.snap hstream
        rcases htype with htype | htype
        · rw [requestedSnap_none (h13 htype) (by rw [htype]; nofun)] at hrsnap
          cases hrsnap
        · rw [requestedSnap_eq hreq hlen htype] at hrsnap
          exact .snap hstream hdlsap ((hsnap htype).trans (Option.some.inj hrsnap))
    · rw [hdsap]
      exact setWidth_byte.mpr hbyte
    · have hlen13 : destAddrLen req = 13 := by
        by_contra hne
        rw [requested_snap_none hne] at hreqSnap
        cases hreqSnap
      have hsnap8022 : txType s req = .snap8022 :=
        htype.resolve_left fun htype => h13 htype hlen13
      rw [sentSnap_of_address hreq hlen13] at hreqSnap
      exact ⟨hpacket.trans hsnap8022, (hsnap hsnap8022).trans (Option.some.inj hreqSnap)⟩

/-- Frames without one. -/
theorem received_iff_other (hframed : Framed frame dst (Sap.bytes sap) payload)
    (hreq : UnitdataReq req) (hpayload : payload ≠ [])
    (hsap : txSap s req ≤ 0xff → ¬kMinDIXSAP ≤ sap)
    (haddr : (Header.ofBytes frame).destAddr = (requested s req).hwAddr)
    (hbound : BoundTo s req r) (htype : txType s req ≠ .snap8022) :
    Received frame r (requested s req) payload ↔ MulticastAllowed r (.ofBytes frame) ∧
      txSap s req = 0xff ∧ destAddrLen req ≠ 13 ∧ payload.take 2 = [0xff, 0xff] := by
  constructor
  · intro h
    have heq : (Header.ofBytes frame).dsap.setWidth 16 = txSap s req := h.sap
    have hbyte : txSap s req ≤ 0xff := by rw [← setWidth_byte, ← heq, byte_setWidth]
    obtain ⟨hdsap, hipx⟩ := (received_other hframed (hsap hbyte) hpayload).mp h.payload
    refine ⟨h.asked.2.2, ?_, fun h13 => ?_, (packetType_ipx_iff hframed (hsap hbyte)).mp hipx⟩
    · rw [← heq, hdsap]
      rfl
    · have hsnap := (h.snap _ (sentSnap_of_address hreq h13)).1
      rw [hipx] at hsnap
      cases hsnap
  · rintro ⟨hmulticast, hff, h13, htake⟩
    have hdix := hsap (by rw [hff]; decide)
    have hipx := (packetType_ipx_iff hframed hdix).mpr htake
    have hdsap : (Header.ofBytes frame).dsap = 0xff := by
      rw [hframed.dsap]
      match payload, htake with
      | a :: b :: rest, htake => exact (List.cons.inj htake).1
    have hdest : (Header.ofBytes frame).destSAP = r.dlsap := by
      have hdix' : (Header.ofBytes frame).isDIX = false := by
        rw [Header.isDIX, hframed.proto]
        exact decide_eq_false hdix
      rw [hbound.sap, Header.destSAP, hdix', hdsap]
      exact hff.symm
    refine ⟨⟨hbound.idle, ?_, hmulticast⟩, (received_other hframed hdix hpayload).mpr ⟨hdsap, hipx⟩,
      haddr, ?_, fun snap hsnap => ?_⟩
    · cases hstream : r.flags.snapStream with
      | false => exact .sap hstream hdest
      | true =>
        have hrsnap := hbound.snap hstream
        rw [requestedSnap_none h13 htype] at hrsnap
        cases hrsnap
    · rw [hdsap]
      exact hff.symm
    · rw [requested_snap_none h13] at hsnap
      cases hsnap

end RoundTrip

/-- The length in a frame with an 802.2 header is no type. -/
theorem sap_8022 {s : DLPIStream} {req payload : List Byte} {sap : Sap}
    (hcopy : (addrCopy req).length = kMaxBoundAddrLength)
    (htype : txType s req = .sap8022 ∨ txType s req = .snap8022) (hsdu : payload.length ≤ dlMaxSdu s)
    (hsap : sap = .ofNat 16 (txTail s req payload).length ∨
      sap = txProto (txType s req) (txSap s req) (.ofNat 16 payload.length) false) :
    ¬kMinDIXSAP ≤ sap := by
  have hmax := headerLength_add_dlMaxSdu htype
  have htail : (txTail s req payload).length = (txType s req).headerLength - 14 + payload.length := by
    have hsnap := @length_txSnap s (destAddrLen req) _ hcopy
    rw [txTail, List.length_append]
    rcases htype with htype | htype <;> rw [htype]
    · rfl
    · rw [protocolHeader, List.length_append, hsnap]
      rfl
  have hproto : txProto (txType s req) (txSap s req) (.ofNat 16 payload.length) false =
      .ofNat 16 ((txType s req).headerLength - 14 + payload.length) := by
    rcases htype with htype | htype <;> rw [htype, Nat.add_comm, BitVec.ofNat_add] <;> rfl
  have hmin : 14 ≤ (txType s req).headerLength := by
    rcases htype with htype | htype <;> rw [htype] <;> decide
  have heq : sap = .ofNat 16 ((txType s req).headerLength - 14 + payload.length) := by
    rcases hsap with hsap | hsap
    · rw [hsap, htail]
    · rw [hsap, hproto]
  rw [heq]
  refine not_isDIX_of_le ?_
  change _ ≤ 1514 at hmax
  omega

/-- In other frames the type is the SAP, or the length of the data. -/
theorem sap_other {s : DLPIStream} {req payload : List Byte} {sap : Sap}
    (htype : ¬(txType s req = .sap8022 ∨ txType s req = .snap8022)) (hsdu : payload.length ≤ 1500)
    (hsap : sap = .ofNat 16 payload.length ∨
      sap = txProto (txType s req) (txSap s req) (.ofNat 16 payload.length) false)
    (hbyte : txSap s req ≤ 0xff) : ¬kMinDIXSAP ≤ sap := by
  have hsmall : ¬kMinDIXSAP ≤ txSap s req := by
    rw [BitVec.le_def] at hbyte ⊢
    change (txSap s req).toNat ≤ 255 at hbyte
    change ¬1501 ≤ (txSap s req).toNat
    omega
  rcases hsap with hsap | hsap
  · rw [hsap]
    exact not_isDIX_of_le hsdu
  · rw [hsap]
    cases hcase : txType s req with
    | sap8022 => exact absurd (.inl hcase) htype
    | snap8022 => exact absurd (.inr hcase) htype
    | ipx => exact not_isDIX_of_le hsdu
    | dix => exact hsmall
    | unknown => exact hsmall

theorem txTail_other {s : DLPIStream} {req : List Byte}
    (htype : ¬(txType s req = .sap8022 ∨ txType s req = .snap8022)) (payload : List Byte) :
    txTail s req payload = payload := by
  cases hcase : txType s req with
  | sap8022 => exact absurd (.inl hcase) htype
  | snap8022 => exact absurd (.inr hcase) htype
  | _ =>
    rw [txTail, hcase]
    rfl

/-- What a stream sends comes back to the stream it is sent to, on these conditions. -/
theorem transmit_receive_iff {s r : DLPIStream} {first : Msgb} {data : List Msgb}
    {hardwareAddress : EnetAddr} {mem : Bool} {frame : List Byte} {streams : List DLPIStream}
    {i id : Nat} (hreq : UnitdataReq first.bytes) (hlen : AddrLen (destAddrLen first.bytes))
    (hfirst : first.isData = false) (hdata : ∀ m ∈ data, m.isData = true)
    (hsdu : AdvertisedSdu s (messageBytes data))
    (hframe : dlpiUnitData s hardwareAddress (first :: data) mem = .ok (.frame frame))
    (hr : streams[i]? = some r) (hreach : Reachable r) (hbound : BoundTo s first.bytes r) :
    Indicates (etherPacketReceived streams ⟨id, frame⟩) i (requested s first.bytes)
        (messageBytes data) ↔ Agrees s first.bytes (messageBytes data) r := by
  obtain ⟨sap, hframed, hsap⟩ := exists_framed hreq hlen.le hfirst hdata hframe
  have haddr : (Header.ofBytes frame).destAddr = (requested s first.bytes).hwAddr :=
    funext fun i => (hframed.destAddr i).trans (dst_getD hreq hlen i)
  have hmulticast : MulticastAllowed r (.ofBytes frame) ↔
      (getAddressType (requested s first.bytes).hwAddr = .multicast →
        r.multicastList = [] ∨ (requested s first.bytes).hwAddr ∈ r.multicastList) := by
    rw [MulticastAllowed, Header.destAddressType, haddr]
  have hpayload : messageBytes data ≠ [] := List.ne_nil_of_length_pos hsdu.1
  have hmax := hsdu.2.trans (dlMaxSdu_le s)
  have hsap' := hsap.imp_right And.left
  rw [indicates_iff hr hreach hbound.slow, Agrees, ← hmulticast]
  by_cases h8022 : txType s first.bytes = .sap8022 ∨ txType s first.bytes = .snap8022
  · have hdix := sap_8022 (hreq.length_addrCopy hlen.le) h8022 hsdu.2 hsap'
    rw [received_iff_8022 hreq hlen hframed hdix haddr hbound h8022]
    rcases h8022 with htype | htype
    · simp only [htype, forall_const]
    · simp only [htype, reduceCtorEq, false_implies, and_true]
  · rw [txTail_other h8022] at hframed hsap'
    have hdix := sap_other h8022 hmax hsap'
    rw [received_iff_other hframed hreq hpayload hdix haddr hbound fun h => h8022 (.inr h)]
    cases htype : txType s first.bytes with
    | sap8022 => exact absurd (.inl htype) h8022
    | snap8022 => exact absurd (.inr htype) h8022
    | _ => exact Iff.rfl

/-- A stream that was opened and bound. -/
def freshStream (sap : Word) : DLPIStream := bound (etherOpen (fun _ => 0) (fun _ => 0)) sap

def peerAddr : List Byte := [0x08, 0x00, 0x07, 0x01, 0x02, 0x03]

def messageTo (addr payload : List Byte) : List Msgb :=
  [.ofBytes (unitdataReq addr), { Msgb.ofBytes payload with isData := true }]

theorem freshStream_reachable {sap : Word}
    (hbind : dlpiBind (etherOpen (fun _ => 0) (fun _ => 0)) sap true ⟨true, true, false⟩ =
      (.bindAck sap, freshStream sap)) : Reachable (freshStream sap) := by
  refine ⟨fun _ => 0, fun _ => 0, .next (a := (⟨true, true, false⟩, .bind sap true)) .start trivial ?_⟩
  exact congrArg (fun p => some p.2) hbind

def netbiosAddr : List Byte := peerAddr ++ [0x00, 0xf0]

def netbiosFrame : List Byte := peerAddr ++ .replicate 6 2 ++ [0, 5, 0xf0, 0xf0, 3, 1, 2]

/-- An 802.2 frame arrives. -/
theorem netbios_received :
    dlpiUnitData (freshStream 0xf0) (fun _ => 2) (messageTo netbiosAddr [1, 2]) true =
      .ok (.frame netbiosFrame) ∧
    Indicates (etherPacketReceived [freshStream 0xf0] ⟨0, netbiosFrame⟩) 0
      (requested (freshStream 0xf0) (unitdataReq netbiosAddr)) [1, 2] := by
  have hreq : UnitdataReq (Msgb.ofBytes (unitdataReq netbiosAddr)).bytes :=
    ⟨by decide, by decide, by decide⟩
  have hframe : dlpiUnitData (freshStream 0xf0) (fun _ => 2) (messageTo netbiosAddr [1, 2]) true =
      .ok (.frame netbiosFrame) := by decide +kernel
  have hsdu : AdvertisedSdu (freshStream 0xf0) [1, 2] := ⟨by decide, by decide⟩
  have hbound : BoundTo (freshStream 0xf0) (unitdataReq netbiosAddr) (freshStream 0xf0) :=
    ⟨rfl, by decide, by decide, rfl⟩
  have hagrees : Agrees (freshStream 0xf0) (unitdataReq netbiosAddr) [1, 2] (freshStream 0xf0) :=
    ⟨by decide, show txSap _ _ ≤ 0xff ∧ destAddrLen _ ≠ 13 by decide⟩
  exact ⟨hframe, (transmit_receive_iff hreq (.inr (.inl (by decide))) rfl (by decide) hsdu hframe rfl
    (freshStream_reachable (by decide +kernel)) hbound).mpr hagrees⟩

def ipAddr : List Byte := peerAddr ++ [0x08, 0x00]

def ipFrame : List Byte := peerAddr ++ .replicate 6 2 ++ [0x08, 0x00, 0x45, 0x00]

/-- The SAP of an indication. -/
def Effect.destSap : Effect → Option Sap
  | .putq _ ⟨some ind, _⟩ => some ind.dest.sap
  | _ => none

/-- A classic Ethernet frame arrives as one for the SAP 0x45. -/
theorem ip_garbled :
    dlpiUnitData (freshStream 0x800) (fun _ => 2) (messageTo ipAddr [0x45, 0x00]) true =
      .ok (.frame ipFrame) ∧
    Reachable (freshStream 0x800) ∧
    BoundTo (freshStream 0x800) (unitdataReq ipAddr) (freshStream 0x800) ∧
    (etherPacketReceived [freshStream 0x800] ⟨0, ipFrame⟩).filterMap Effect.destSap = [0x45] ∧
    ¬Indicates (etherPacketReceived [freshStream 0x800] ⟨0, ipFrame⟩) 0
      (requested (freshStream 0x800) (unitdataReq ipAddr)) [0x45, 0x00] := by
  have hsaps : (etherPacketReceived [freshStream 0x800] ⟨0, ipFrame⟩).filterMap Effect.destSap =
      [0x45] := by decide +kernel
  refine ⟨by decide +kernel, freshStream_reachable (by decide +kernel),
    ⟨rfl, by decide, by decide, rfl⟩, hsaps, ?_⟩
  rintro ⟨ind, id, hmem, -, hsap, -⟩
  have hind : ind.dest.sap ∈ [0x45] := by
    rw [← hsaps]
    exact List.mem_filterMap.mpr ⟨_, hmem, rfl⟩
  rw [hsap] at hind
  exact absurd hind (by decide)

end SheepShear.Ether
