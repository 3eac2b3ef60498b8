import SheepShear.Ether.Transmit

/-!
# What requests make the driver read and write

The handlers of `DL_UNITDATA_REQ`, of the copy of one in `DL_IOC_HDR_INFO`, and of
`DL_SUBS_BIND_REQ`, for every address that lies within its message. A destination
address is copied whatever its length is, and a SAP is read before its length is
looked at.
-/

namespace SheepShear.Ether

-- ---------------------------------------------------------------------------
-- `DL_SUBS_BIND_REQ`
-- ---------------------------------------------------------------------------

def BindClass.ofWord (w : Word) : BindClass :=
  if w = 1 then .peer else if w = 2 then .hierarchical else .other

/-- The acknowledgement; lengths are converted to the sizes of a 64 bit host. -/
def subsBindAck (req : List Byte) (offset : Nat) (length : Word) : Except Overrun (List Byte) := do
  let size := length.signExtend 64
  let ack := List.replicate (12 + size.setWidth 32).toNat (0 : Byte)
  let ack ← Buffer.write .reply ack 0 (.replicate (12 + size).toNat 0)
  let ack ← Buffer.write .reply ack 0 (Word.bytes 28)
  let ack ← Buffer.write .reply ack 8 length.bytes
  let ack ← Buffer.write .reply ack 4 (Word.bytes (if length = 0 then 0 else 12))
  if length = 0 then return ack
  Buffer.write .reply ack 12 (← Buffer.read .request req offset size.toNat)

/-- The SNAP is copied from the request to the stream. -/
def copySnap (s : DLPIStream) (bindClass : BindClass) (req : List Byte) (offset : Nat) :
    Except Overrun Unit :=
  if bindClass = .hierarchical ∧ s.dlsap = kSNAPSAP ∧ s.flags.snapStream = false then do
    let _ ← Buffer.read Overrun.request req offset 5
  else return

/-- The handler on the message block. -/
def subsBindRequest (s : DLPIStream) (req : List Byte) (a : Alloc) :
    Except Overrun (Reply × DLPIStream) := do
  let offset := (← readField req 4).toNat
  let length ← readField req 8
  let sap : SubsSap := ⟨fun i => req.getD (offset + i) 0, length.toInt⟩
  let _ ← readSap req offset
  if s.dlpiState ≠ .idle then return (dlpiErrorAck a .subsBindReq .outstate, s)
  let bindClass := BindClass.ofWord (← readField req 12)
  copySnap s bindClass req offset
  match subsBind s bindClass sap with
  | .error err => return (dlpiErrorAck a .subsBindReq err, s)
  | .ok s' =>
    if ¬ a.reply then return (dlpiErrorAck a .subsBindReq .syserr, s')
    let _ ← subsBindAck req offset length
    return (.subsBindAck ((List.range sap.length.toNat).map sap.bytes), s')

def subsSapOffset (req : List Byte) : Nat := (field req 4).toNat
def subsSapLength (req : List Byte) : Word := field req 8
def subsBindClass (req : List Byte) : BindClass := .ofWord (field req 12)

def subsSap (req : List Byte) : SubsSap :=
  ⟨fun i => req.getD (subsSapOffset req + i) 0, (subsSapLength req).toInt⟩

/-- A `DL_SUBS_BIND_REQ` whose SAP is in the block. -/
structure SubsBindReq (req : List Byte) : Prop where
  size : 16 ≤ req.length
  within : subsSapOffset req + (subsSapLength req).toNat ≤ req.length
  /-- The address space of the guest. -/
  fits : req.length ≤ 2 ^ 32

/-- The SNAP is copied. -/
def BindsSnap (s : DLPIStream) (req : List Byte) : Prop :=
  subsBindClass req = .hierarchical ∧ s.dlsap = kSNAPSAP ∧ s.flags.snapStream = false

instance (s : DLPIStream) (req : List Byte) : Decidable (BindsSnap s req) :=
  inferInstanceAs (Decidable (_ ∧ _))

/-- A write inside a block that the driver fills. -/
theorem exists_write {block bytes : List Byte} {off n : Nat} (hblock : block.length = n)
    (h : off + bytes.length ≤ n) :
    ∃ block', Buffer.write Overrun.reply block off bytes = .ok block' ∧ block'.length = n :=
  Buffer.exists_write hblock h

theorem signExtend_toNat (length : Word) : (length.signExtend 64).toNat =
    if length.toNat < 2 ^ 31 then length.toNat else length.toNat + (2 ^ 64 - 2 ^ 32) := by
  rw [BitVec.toNat_signExtend, BitVec.toNat_setWidth, Nat.mod_eq_of_lt (by omega)]
  by_cases h : length.toNat < 2 ^ 31
  · have hmsb : length.msb = false := by
      rw [BitVec.msb_eq_false_iff_two_mul_lt]
      omega
    rw [if_pos h, hmsb]
    rfl
  · have hmsb : length.msb = true := by
      rw [BitVec.msb_eq_true_iff_two_mul_ge]
      omega
    rw [if_neg h, hmsb]
    rfl

/-- The acknowledgement has room for a SAP whose length is not negative. -/
theorem subsBindAck_ok_iff {req : List Byte} (h : SubsBindReq req) :
    (∃ ack, subsBindAck req (subsSapOffset req) (subsSapLength req) = .ok ack) ↔
      (subsSapLength req).toNat < 2 ^ 31 := by
  have hwithin := h.within
  have hfits := h.fits
  generalize subsSapLength req = length at hwithin ⊢
  constructor
  · rintro ⟨ack, hack⟩
    by_contra hlength
    obtain ⟨_, _, hack⟩ := Except.bind_eq_ok.mp hack
    obtain ⟨_, _, hack⟩ := Except.bind_eq_ok.mp hack
    obtain ⟨_, _, hack⟩ := Except.bind_eq_ok.mp hack
    obtain ⟨_, _, hack⟩ := Except.bind_eq_ok.mp hack
    have hne : length ≠ 0 := by
      rintro rfl
      exact hlength (by decide)
    rw [if_neg hne] at hack
    obtain ⟨_, hread, _⟩ := Except.bind_eq_ok.mp hack
    rw [Buffer.read_error] at hread
    · cases hread
    · -- a negative length is a huge size
      rw [signExtend_toNat, if_neg hlength]
      omega
  · intro hlength
    have hsize : (length.signExtend 64).toNat = length.toNat := by rw [signExtend_toNat, if_pos hlength]
    have hblock : (12 + (length.signExtend 64).setWidth 32).toNat = 12 + length.toNat := by
      rw [BitVec.toNat_add, BitVec.toNat_setWidth, hsize]
      simp
      omega
    have hclear : (12 + length.signExtend 64).toNat = 12 + length.toNat := by
      rw [BitVec.toNat_add, hsize]
      simp
      omega
    have hzeros : (List.replicate (12 + length.toNat) (0 : Byte)).length = 12 + length.toNat :=
      List.length_replicate
    obtain ⟨ack₁, hack₁, hlength₁⟩ := exists_write hzeros ((Nat.zero_add _).trans_le hzeros.le)
    obtain ⟨ack₂, hack₂, hlength₂⟩ :=
      exists_write hlength₁ (show 0 + (Word.bytes 28).length ≤ _ by simp; omega)
    obtain ⟨ack₃, hack₃, hlength₃⟩ := exists_write hlength₂ (show 8 + length.bytes.length ≤ _ by simp)
    obtain ⟨ack₄, hack₄, hlength₄⟩ := exists_write hlength₃
      (show 4 + (Word.bytes (if length = 0 then 0 else 12)).length ≤ _ by simp; omega)
    simp only [subsBindAck, hblock, hclear, hsize, hack₁, hack₂, hack₃, hack₄, Except.ok_bind]
    by_cases hzero : length = 0
    · rw [if_pos hzero]
      exact ⟨ack₄, rfl⟩
    · obtain ⟨ack₅, hack₅, -⟩ :=
        exists_write hlength₄ (Nat.add_le_add_left (Buffer.length_read hwithin).le 12)
      rw [if_neg hzero, Buffer.read_ok hwithin, Except.ok_bind]
      exact ⟨ack₅, hack₅⟩

/-- The conditions under which the handler stays inside the blocks. -/
structure SubsBindInBounds (s : DLPIStream) (req : List Byte) (a : Alloc) : Prop where
  sap : subsSapOffset req + 2 ≤ req.length
  snap : s.dlpiState = .idle → BindsSnap s req → subsSapOffset req + 5 ≤ req.length
  length : s.dlpiState = .idle → a.reply = true →
    (∃ s', subsBind s (subsBindClass req) (subsSap req) = .ok s') → (subsSapLength req).toNat < 2 ^ 31

theorem copySnap_ok_iff {req : List Byte} (s : DLPIStream) :
    copySnap s (subsBindClass req) req (subsSapOffset req) = .ok () ↔
      (BindsSnap s req → subsSapOffset req + 5 ≤ req.length) := by
  rw [copySnap]
  split
  · next hsnap =>
    by_cases hlength : subsSapOffset req + 5 ≤ req.length
    · rw [Buffer.read_ok hlength]
      exact iff_of_true rfl fun _ => hlength
    · rw [Buffer.read_error hlength]
      exact iff_of_false nofun fun h => hlength (h hsnap)
  · next hsnap => exact iff_of_true rfl fun h => absurd h hsnap

/-- Inside the blocks, the handler does what the request asks for. -/
theorem subsBindRequest_eq {req : List Byte} (h : SubsBindReq req) {s : DLPIStream} {a : Alloc}
    (hbounds : SubsBindInBounds s req a) :
    subsBindRequest s req a = .ok (dlpiSubsBind s (subsBindClass req) (subsSap req) a) := by
  have hsize := h.size
  have hoffset : readField req 4 = .ok (field req 4) := readField_ok (by omega)
  have hlength : readField req 8 = .ok (field req 8) := readField_ok (by omega)
  have hclass : readField req 12 = .ok (field req 12) := readField_ok (by omega)
  have hread : readSap req (field req 4).toNat = .ok _ := readSap_ok hbounds.sap
  rw [subsBindRequest, dlpiSubsBind, hoffset, Except.ok_bind, hlength, Except.ok_bind]
  dsimp only
  rw [hread, Except.ok_bind]
  by_cases hidle : s.dlpiState = .idle
  · have hsnap : copySnap s (.ofWord (field req 12)) req (field req 4).toNat = .ok () :=
      (copySnap_ok_iff s).mpr (hbounds.snap hidle)
    rw [if_neg (not_not.mpr hidle), if_neg (not_not.mpr hidle), hclass, Except.ok_bind, hsnap,
      Except.ok_bind]
    change (match subsBind s (subsBindClass req) (subsSap req) with
      | .error err => _
      | .ok s' => _) = _
    cases hbind : subsBind s (subsBindClass req) (subsSap req) with
    | error err => rfl
    | ok s' =>
      dsimp only
      by_cases hreply : a.reply = true
      · obtain ⟨ack, hack⟩ := (subsBindAck_ok_iff h).mpr (hbounds.length hidle hreply ⟨s', hbind⟩)
        have hack' : subsBindAck req (field req 4).toNat (field req 8) = .ok ack := hack
        rw [if_neg (not_not.mpr hreply), if_neg (not_not.mpr hreply), hack']
        rfl
      · rw [if_pos hreply, if_pos hreply]
        rfl
  · rw [if_pos hidle, if_pos hidle]
    rfl

/-- The handler stays inside the blocks on exactly these requests. -/
theorem subsBindRequest_ok_iff {req : List Byte} (h : SubsBindReq req) (s : DLPIStream) (a : Alloc) :
    (∃ r, subsBindRequest s req a = .ok r) ↔ SubsBindInBounds s req a := by
  refine ⟨fun ⟨r, hr⟩ => ?_, fun hbounds => ⟨_, subsBindRequest_eq h hbounds⟩⟩
  have hsize := h.size
  rw [subsBindRequest, readField_ok (by omega), Except.ok_bind, readField_ok (by omega),
    Except.ok_bind] at hr
  obtain ⟨_, hread, hr⟩ := Except.bind_eq_ok.mp hr
  have hsap : subsSapOffset req + 2 ≤ req.length := by
    by_contra hsap
    have herror : Buffer.read Overrun.request req (field req 4).toNat 2 = .error .request :=
      Buffer.read_error hsap
    rw [readSap, herror] at hread
    cases hread
  by_cases hidle : s.dlpiState = .idle
  · rw [if_neg (not_not.mpr hidle), readField_ok (by omega), Except.ok_bind] at hr
    obtain ⟨_, hsnap, hr⟩ := Except.bind_eq_ok.mp hr
    refine ⟨hsap, fun _ => (copySnap_ok_iff s).mp hsnap, ?_⟩
    rintro - hreply ⟨s', hbind⟩
    have hbind' : subsBind s (.ofWord (field req 12)) ⟨fun i => req.getD ((field req 4).toNat + i) 0,
      (field req 8).toInt⟩ = .ok s' := hbind
    rw [hbind'] at hr
    dsimp only at hr
    rw [if_neg (not_not.mpr hreply)] at hr
    obtain ⟨ack, hack, -⟩ := Except.bind_eq_ok.mp hr
    exact (subsBindAck_ok_iff h).mp ⟨ack, hack⟩
  · exact ⟨hsap, fun h => absurd h hidle, fun h => absurd h hidle⟩

-- ---------------------------------------------------------------------------
-- `DL_UNITDATA_REQ`
-- ---------------------------------------------------------------------------

/-- `copyb`. -/
def Msgb.copyb (m : Msgb) : Msgb :=
  ⟨m.bytes, 0, m.bytes.length, 1, m.isData, Nat.zero_le _, Nat.le_refl _⟩

/-- `DL_IOC_HDR_INFO`; `copied` says whether the block can be copied. -/
def dlIocHdrInfo (s : DLPIStream) (info : Msgb) (copied mem : Bool) :
    Except Overrun (Option (List Msgb)) :=
  if copied then buildTxPacketHeader s [info.copyb] true mem else return none

theorem Msgb.copyb_bytes (m : Msgb) : m.copyb.bytes = m.bytes := List.take_length

namespace UnitdataReq

variable {req : List Byte} {first : Msgb} {data : List Msgb}

theorem build_ok_iff (h : UnitdataReq req) (hfirst : first.bytes = req) (s : DLPIStream)
    (fastPath mem : Bool) : (∃ r, buildTxPacketHeader s (first :: data) fastPath mem = .ok r) ↔
      destAddrLen req ≤ kMaxBoundAddrLength := by
  by_cases hlen : destAddrLen req ≤ kMaxBoundAddrLength
  · refine iff_of_true ?_ hlen
    rcases h.build_ok hfirst data s fastPath mem hlen with hnone | ⟨header, rest, _, _, hsome, -⟩
    · exact ⟨_, hnone⟩
    · exact ⟨_, hsome⟩
  · refine iff_of_false ?_ hlen
    rintro ⟨r, hr⟩
    rw [h.build_overrun hfirst s fastPath mem hlen] at hr
    cases hr

/-- The error indication has room for the address unless its size wraps around. -/
theorem uderror_ok_iff (h : UnitdataReq req) (mem : Bool) :
    (∃ r, uderror req mem = .ok r) ↔ (mem = true → destAddrLen req + 20 < 2 ^ 32) := by
  have hsize := h.size
  have hread : Buffer.read Overrun.request req (field req 8).toNat (field req 4).toNat =
    .ok (destAddr req) := Buffer.read_ok h.within
  rw [uderror, readField_ok (by omega), readField_ok (by omega), Except.ok_bind]
  cases mem with
  | false => exact iff_of_true ⟨_, rfl⟩ nofun
  | true =>
    rw [if_neg (not_not.mpr rfl)]
    simp only [Except.ok_bind, hread, forall_const]
    by_cases hwrap : destAddrLen req + 20 < 2 ^ 32
    · refine iff_of_true ?_ hwrap
      have hblock : (20 + field req 4).toNat = 20 + destAddrLen req := by
        rw [BitVec.toNat_add]
        change (20 + destAddrLen req) % 2 ^ 32 = _
        exact Nat.mod_eq_of_lt (by omega)
      rw [hblock]
      have hzeros : (List.replicate (20 + destAddrLen req) (0 : Byte)).length = 20 + destAddrLen req :=
        List.length_replicate
      obtain ⟨bp₁, hbp₁, hlength₁⟩ := exists_write hzeros (show 0 + (Word.bytes 9).length ≤ _ by simp; omega)
      obtain ⟨bp₂, hbp₂, hlength₂⟩ := exists_write hlength₁ (show 16 + (Word.bytes 3).length ≤ _ by simp)
      obtain ⟨bp₃, hbp₃, hlength₃⟩ := exists_write hlength₂ (show 12 + (Word.bytes 0).length ≤ _ by simp; omega)
      obtain ⟨bp₄, hbp₄, hlength₄⟩ :=
        exists_write hlength₃ (show 4 + (field req 4).bytes.length ≤ _ by simp; omega)
      obtain ⟨bp₅, hbp₅, hlength₅⟩ := exists_write hlength₄ (show 8 + (Word.bytes 20).length ≤ _ by simp; omega)
      obtain ⟨bp₆, hbp₆, -⟩ := exists_write hlength₅ (Nat.add_le_add_left h.length_destAddr.le 20)
      simp only [hbp₁, hbp₂, hbp₃, hbp₄, hbp₅, hbp₆, Except.ok_bind]
      exact ⟨_, rfl⟩
    · refine iff_of_false ?_ hwrap
      rintro ⟨r, hr⟩
      obtain ⟨bp₁, hbp₁, hr⟩ := Except.bind_eq_ok.mp hr
      obtain ⟨bp₂, hbp₂, -⟩ := Except.bind_eq_ok.mp hr
      have hlength₁ := (Buffer.write_eq_ok hbp₁).2
      have hlength₂ := (Buffer.write_eq_ok hbp₂).1
      have hblock : (20 + field req 4).toNat = 20 + destAddrLen req - 2 ^ 32 := by
        have hlt := (field req 4).isLt
        rw [BitVec.toNat_add]
        change (20 + (field req 4).toNat) % 2 ^ 32 = 20 + (field req 4).toNat - 2 ^ 32
        change ¬(field req 4).toNat + 20 < 2 ^ 32 at hwrap
        omega
      rw [List.length_replicate, hblock] at hlength₁
      change 16 + 4 ≤ bp₁.length at hlength₂
      have hlt : destAddrLen req < 2 ^ 32 := (field req 4).isLt
      omega

/-- The frame of a short address is sent. -/
theorem dlpiUnitData_ok_iff (h : UnitdataReq req) (hfirst : first.bytes = req) (s : DLPIStream)
    (hardwareAddress : EnetAddr) (mem : Bool) :
    (∃ r, dlpiUnitData s hardwareAddress (first :: data) mem = .ok r) ↔
      if s.dlpiState = .idle then destAddrLen req ≤ kMaxBoundAddrLength
      else mem = true → destAddrLen req + 20 < 2 ^ 32 := by
  by_cases hidle : s.dlpiState = .idle
  · rw [dlpiUnitData, if_neg (not_not.mpr hidle), if_pos hidle]
    by_cases hlen : destAddrLen req ≤ kMaxBoundAddrLength
    · refine iff_of_true ?_ hlen
      have hdst : ((addrCopy req).take 6).length = 6 := by
        rw [List.length_take, h.length_addrCopy hlen]
        rfl
      rcases h.build_ok hfirst data s false mem hlen with
        hnone | ⟨header, rest, src, body, hsome, hbytes, hsrc, -⟩
      · rw [hnone]
        exact ⟨_, rfl⟩
      · rw [hsome, Except.ok_bind]
        dsimp only
        rw [transmitPacket_ok hbytes hdst hsrc rfl]
        exact ⟨_, rfl⟩
    · refine iff_of_false ?_ hlen
      rintro ⟨r, hr⟩
      rw [h.build_overrun hfirst s false mem hlen] at hr
      cases hr
  · rw [dlpiUnitData, if_pos hidle, if_neg hidle, List.head?_cons, Option.map_some, hfirst]
    exact h.uderror_ok_iff mem

end UnitdataReq

-- ---------------------------------------------------------------------------
-- The requests of a guest
-- ---------------------------------------------------------------------------

inductive GuestRequest where
  | unitdata (first : Msgb) (data : List Msgb) (mem : Bool)
  | hdrInfo (info : Msgb) (copied mem : Bool)
  | subsBind (first : Msgb) (a : Alloc)

namespace GuestRequest

/-- The request is one of its kind, and the address in it lies within the message. -/
def WithinMessage : GuestRequest → Prop
  | unitdata first _ _ => UnitdataReq first.bytes
  | hdrInfo info _ _ => UnitdataReq info.bytes
  | subsBind first _ => SubsBindReq first.bytes

def handle (s : DLPIStream) (hardwareAddress : EnetAddr) : GuestRequest → Except Overrun Unit
  | unitdata first data mem => do
    let _ ← dlpiUnitData s hardwareAddress (first :: data) mem
  | hdrInfo info copied mem => do
    let _ ← dlIocHdrInfo s info copied mem
  | subsBind first a => do
    let _ ← subsBindRequest s first.bytes a

def InBounds (s : DLPIStream) : GuestRequest → Prop
  | unitdata first _ mem =>
    if s.dlpiState = .idle then destAddrLen first.bytes ≤ kMaxBoundAddrLength
    else mem = true → destAddrLen first.bytes + 20 < 2 ^ 32
  | hdrInfo info copied _ => copied = true → destAddrLen info.bytes ≤ kMaxBoundAddrLength
  | subsBind first a => SubsBindInBounds s first.bytes a

theorem discard_ok_iff {α : Type} {x : Except Overrun α} :
    (do let _ ← x : Except Overrun Unit) = .ok () ↔ ∃ r, x = .ok r := by
  cases x with
  | error e => exact iff_of_false nofun (by rintro ⟨_, ⟨⟩⟩)
  | ok r => exact iff_of_true rfl ⟨r, rfl⟩

/-- The requests that stay inside the blocks and the copy of the address. -/
theorem handle_ok_iff {r : GuestRequest} (h : r.WithinMessage) (s : DLPIStream)
    (hardwareAddress : EnetAddr) : r.handle s hardwareAddress = .ok () ↔ r.InBounds s := by
  cases r with
  | unitdata first data mem =>
    exact discard_ok_iff.trans (UnitdataReq.dlpiUnitData_ok_iff h rfl s hardwareAddress mem)
  | hdrInfo info copied mem =>
    refine discard_ok_iff.trans ?_
    cases copied with
    | false => exact iff_of_true ⟨_, rfl⟩ nofun
    | true =>
      have hcopy : UnitdataReq info.copyb.bytes := info.copyb_bytes.symm ▸ h
      rw [dlIocHdrInfo, if_pos rfl, hcopy.build_ok_iff rfl, info.copyb_bytes]
      exact ⟨fun hlen _ => hlen, fun hlen => hlen rfl⟩
  | subsBind first a => exact discard_ok_iff.trans (subsBindRequest_ok_iff h s a)

end GuestRequest

/-- A stream that is bound to a SAP. -/
def boundStream (dlsap : Sap) : DLPIStream :=
  { etherOpen (fun _ => 0) (fun _ => 0) with dlpiState := .idle, dlsap := dlsap }

def requestTo (addr : List Byte) : GuestRequest := .unitdata (.ofBytes (unitdataReq addr)) [] true

def snapAddr : List Byte := [0x08, 0x00, 0x07, 1, 2, 3, 0x00, 0xaa, 0x08, 0x00, 0x07, 0x80, 0x9b]

theorem snapAddr_inBounds :
    (requestTo snapAddr).handle (boundStream kSNAPSAP) (fun _ => 0) = .ok () :=
  (GuestRequest.handle_ok_iff (r := requestTo snapAddr)
    (show UnitdataReq _ from ⟨by decide, by decide, by decide⟩) _ _).mpr
    (show destAddrLen (Msgb.ofBytes (unitdataReq snapAddr)).bytes ≤ kMaxBoundAddrLength by decide)

/-- An address of one byte more. -/
theorem longAddr_overrun : (requestTo (snapAddr ++ [0])).WithinMessage ∧
    (requestTo (snapAddr ++ [0])).handle (boundStream kSNAPSAP) (fun _ => 0) =
      .error .destAddrCopy :=
  ⟨show UnitdataReq _ from ⟨by decide, by decide, by decide⟩, by decide +kernel⟩

end SheepShear.Ether
