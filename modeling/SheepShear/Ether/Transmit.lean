import SheepShear.Lib.Buffer
import SheepShear.Ether.Receive

/-!
# Transmitting packets

A `DL_UNITDATA_REQ` message becomes a frame: its first block, or the room in front
of the data, is reused for the headers. The requests are bytes of the guest, and
lengths and offsets in them are what the guest wrote there. Where the driver
reads or writes behind the end of a block or a variable, the result is an error
that says which.
-/

namespace SheepShear.Ether

inductive Overrun where
  /-- The message block of a request, read up to `b_wptr`. -/
  | request
  | destAddrCopy
  /-- A message block that is filled by the driver. -/
  | reply
deriving DecidableEq, Repr

-- ---------------------------------------------------------------------------
-- Message blocks
-- ---------------------------------------------------------------------------

/-- `msgb` and its `datab`: the buffer from `db_base` to `db_lim`, and the pointers into it. -/
structure Msgb where
  db : List Byte
  rptr : Nat
  wptr : Nat
  ref : Nat
  /-- The type is `M_DATA`. -/
  isData : Bool
  ordered : rptr ≤ wptr
  inside : wptr ≤ db.length

namespace Msgb

def bytes (m : Msgb) : List Byte := (m.db.drop m.rptr).take (m.wptr - m.rptr)

theorem length_bytes (m : Msgb) : m.bytes.length = m.wptr - m.rptr := by
  have hinside := m.inside
  rw [bytes, List.length_take, List.length_drop]
  omega

/-- `allocb`, with the write pointer moved behind the bytes at once. -/
def allocb (size : Nat) : Msgb :=
  ⟨.replicate size 0, 0, size, 1, true, Nat.zero_le _, by rw [List.length_replicate]⟩

/-- A field of the header that starts at the read pointer. -/
def write (m : Msgb) (off : Nat) (bytes : List Byte) : Except Overrun Msgb :=
  if h : m.rptr + off + bytes.length ≤ m.db.length then
    .ok { m with
      db := Buffer.overwrite m.db (m.rptr + off) bytes
      inside := by rw [Buffer.length_overwrite h]; exact m.inside }
  else .error .reply

end Msgb

def msgdsize (mp : List Msgb) : Nat := ((mp.filter (·.isData)).map fun m => m.bytes.length).sum

/-- `mem` says whether a new block can be allocated. -/
def reuseMessageBlock (mp : List Msgb) (needed : Nat) (mem : Bool) : Option (List Msgb) :=
  match mp with
  | [] => none
  | first :: rest =>
    if h : first.ref = 1 ∧ needed ≤ first.db.length then
      some ({ first with
        isData := true
        rptr := 0
        wptr := needed
        ordered := Nat.zero_le _
        inside := h.2 } :: rest)
    else
      -- the block of the request is freed
      match rest with
      | m :: ms =>
        if m.ref = 1 ∧ needed ≤ m.rptr then
          some ({ m with
            rptr := m.rptr - needed
            ordered := (Nat.sub_le ..).trans m.ordered } :: ms)
        else if mem then some (.allocb needed :: m :: ms)
        else none
      | [] => if mem then some [.allocb needed] else none

-- ---------------------------------------------------------------------------
-- Fields
-- ---------------------------------------------------------------------------

/-- A 32 bit field of a request. -/
def readField (block : List Byte) (off : Nat) : Except Overrun Word := do
  let b ← Buffer.read .request block off 4
  return .ofBytes (b.getD 0 0) (b.getD 1 0) (b.getD 2 0) (b.getD 3 0)

def readSap (block : List Byte) (off : Nat) : Except Overrun Sap := do
  let b ← Buffer.read .request block off 2
  return b.getD 0 0 ++ b.getD 1 0

def Sap.bytes (sap : Sap) : List Byte := [sap.extractLsb' 8 8, sap.extractLsb' 0 8]

def enetBytes (addr : EnetAddr) : List Byte := List.ofFn addr
def snapBytes (snap : Snap) : List Byte := List.ofFn snap

-- ---------------------------------------------------------------------------
-- Building the frame
-- ---------------------------------------------------------------------------

/-- `DL_UNITDATA_REQ`. -/
def dlUnitdataReq : Word := 7

def kMaxBoundAddrLength : Nat := 6 + 2 + 5

/-- The protocol type or the length. -/
def txProto (packetType : PacketType) (dlsap : Sap) (datasize : BitVec 16) (fastPath : Bool) : Sap :=
  match packetType with
  | .sap8022 => if fastPath then 0 else datasize + 3
  | .snap8022 => if fastPath then 0 else datasize + 8
  | .ipx => if fastPath then 0 else datasize
  | .dix | .unknown => dlsap

/-- The DLSAP in the destination address, or the one of the stream. -/
def destSap (s : DLPIStream) (req : List Byte) (destAddrOffset destAddrLen : Nat) :
    Except Overrun Sap :=
  if destAddrLen = 8 ∨ destAddrLen = 13 then readSap req (destAddrOffset + 6) else return s.dlsap

def snapStart (s : DLPIStream) (destAddrLen : Nat) (destAddrCopy : List Byte) :
    Except Overrun (List Byte) :=
  if 13 ≤ destAddrLen then Buffer.read .destAddrCopy destAddrCopy 8 5 else return snapBytes s.snap

/-- The header in a block that is to be sent. -/
def fillHeader (s : DLPIStream) (packetType : PacketType) (dlsap proto : Sap) (destAddrLen : Nat)
    (destAddrCopy : List Byte) (header : Msgb) : Except Overrun Msgb := do
  let header ← header.write 12 (Sap.bytes proto)
  let header ← header.write 0 (← Buffer.read .destAddrCopy destAddrCopy 0 6)
  match packetType with
  | .sap8022 => header.write 14 [dlsap.setWidth 8, s.dlsap.setWidth 8, 0x03]
  | .snap8022 => do
    let header ← header.write 14 [dlsap.setWidth 8, s.dlsap.setWidth 8, 0x03]
    header.write 17 (← snapStart s destAddrLen destAddrCopy)
  | _ => return header

def buildTxPacketHeader (s : DLPIStream) (mp : List Msgb) (fastPath mem : Bool) :
    Except Overrun (Option (List Msgb)) := do
  let req := (mp.head?.map Msgb.bytes).getD []
  if (← readField req 0) ≠ dlUnitdataReq then return none
  let destAddrOffset := (← readField req 8).toNat
  let destAddrLen := (← readField req 4).toNat
  let dlsap ← destSap s req destAddrOffset destAddrLen
  let datasize := BitVec.ofNat 16 (msgdsize mp)
  let packetType := classifyPacketType s.dlsap dlsap
  let proto := txProto packetType dlsap datasize fastPath
  -- the address is copied before the block is reused; the array is not cleared
  let destAddrOrig ← Buffer.read .request req destAddrOffset destAddrLen
  let destAddrCopy ← Buffer.write .destAddrCopy (.replicate kMaxBoundAddrLength 0) 0 destAddrOrig
  match reuseMessageBlock mp packetType.headerLength mem with
  | none | some [] => return none
  | some (header :: rest) =>
    let header ← fillHeader s packetType dlsap proto destAddrLen destAddrCopy header
    return some (header :: rest)

/-- The bytes of all blocks, which is what the add-on sends. -/
def messageBytes (mp : List Msgb) : List Byte := mp.flatMap Msgb.bytes

/-- A zero for the type stands for the length. -/
def fillLength (mp : List Msgb) (header : Msgb) : Except Overrun Msgb := do
  let proto ← Buffer.read .reply header.bytes 12 2
  if proto = [0, 0] then header.write 12 (Sap.bytes (.ofNat 16 (msgdsize mp - 14)))
  else return header

def transmitPacket (hardwareAddress : EnetAddr) (mp : List Msgb) : Except Overrun (List Byte) :=
  match mp with
  | [] => return []
  | header :: rest => do
    let header ← fillLength mp header
    let header ← header.write 6 (enetBytes hardwareAddress)
    return messageBytes (header :: rest)

-- ---------------------------------------------------------------------------
-- The requests
-- ---------------------------------------------------------------------------

inductive Sent where
  | nothing
  /-- The answer to a request. -/
  | reply (bytes : List Byte)
  | frame (bytes : List Byte)
deriving DecidableEq

/-- `DL_UDERROR_IND`, `DL_OUTSTATE`: the size is computed in 32 bits. -/
def uderror (req : List Byte) (mem : Bool) : Except Overrun Sent := do
  let length ← readField req 4
  if ¬ mem then return .nothing
  let bp := List.replicate (20 + length).toNat (0 : Byte)
  let bp ← Buffer.write .reply bp 0 (Word.bytes 9)
  let bp ← Buffer.write .reply bp 16 (Word.bytes 3)
  let bp ← Buffer.write .reply bp 12 (Word.bytes 0)
  let bp ← Buffer.write .reply bp 4 length.bytes
  let bp ← Buffer.write .reply bp 8 (Word.bytes 20)
  let offset ← readField req 8
  let destAddr ← Buffer.read .request req offset.toNat length.toNat
  return .reply (← Buffer.write .reply bp 20 destAddr)

def dlpiUnitData (s : DLPIStream) (hardwareAddress : EnetAddr) (mp : List Msgb) (mem : Bool) :
    Except Overrun Sent := do
  if s.dlpiState ≠ .idle then uderror ((mp.head?.map Msgb.bytes).getD []) mem
  else
    match ← buildTxPacketHeader s mp false mem with
    | none => return .nothing
    | some mp => return .frame (← transmitPacket hardwareAddress mp)

-- ---------------------------------------------------------------------------
-- What the parts do
-- ---------------------------------------------------------------------------

/-- The field of a request, where it is inside the block. -/
def field (block : List Byte) (off : Nat) : Word :=
  .ofBytes (block.getD off 0) (block.getD (off + 1) 0) (block.getD (off + 2) 0) (block.getD (off + 3) 0)

def sapField (block : List Byte) (off : Nat) : Sap := block.getD off 0 ++ block.getD (off + 1) 0

theorem getD_take_drop {block : List Byte} {off n i : Nat} (hi : i < n) :
    ((block.drop off).take n).getD i 0 = block.getD (off + i) 0 := by
  rw [List.getD_eq_getElem?_getD, List.getElem?_take_of_lt hi, List.getElem?_drop,
    ← List.getD_eq_getElem?_getD]

theorem readField_ok {block : List Byte} {off : Nat} (h : off + 4 ≤ block.length) :
    readField block off = .ok (field block off) := by
  rw [readField, Buffer.read_ok h, Except.ok_bind]
  simp only [getD_take_drop, Nat.reduceLT, field, Nat.add_zero, Except.pure_eq_ok]

theorem readSap_ok {block : List Byte} {off : Nat} (h : off + 2 ≤ block.length) :
    readSap block off = .ok (sapField block off) := by
  rw [readSap, Buffer.read_ok h, Except.ok_bind]
  simp only [getD_take_drop, Nat.reduceLT, sapField, Nat.add_zero, Except.pure_eq_ok]

theorem Msgb.write_ok (m : Msgb) {off : Nat} {bytes : List Byte}
    (h : off + bytes.length ≤ m.bytes.length) :
    ∃ m', m.write off bytes = .ok m' ∧ m'.bytes = Buffer.overwrite m.bytes off bytes ∧
      m'.isData = m.isData := by
  have hinside := m.inside
  have hordered := m.ordered
  rw [length_bytes] at h
  have hfits : m.rptr + off + bytes.length ≤ m.db.length := by omega
  rw [Msgb.write, dif_pos hfits]
  refine ⟨_, rfl, ?_, rfl⟩
  -- the buffer in front of the read pointer, the bytes of the block, and the rest
  have hsplit : m.db = m.db.take m.rptr ++ (m.bytes ++ m.db.drop m.wptr) := by
    have hdrop : (m.db.drop m.rptr).drop (m.wptr - m.rptr) = m.db.drop m.wptr := by
      rw [List.drop_drop, Nat.add_sub_cancel' hordered]
    rw [Msgb.bytes, ← hdrop, List.take_append_drop, List.take_append_drop]
  have hlength : (m.db.take m.rptr).length = m.rptr := by
    rw [List.length_take]
    omega
  have hover : Buffer.overwrite m.db (m.rptr + off) bytes =
      m.db.take m.rptr ++ (Buffer.overwrite m.bytes off bytes ++ m.db.drop m.wptr) := by
    rw [← Buffer.overwrite_append_left (by rw [length_bytes]; exact h), ← Buffer.overwrite_append,
      ← hsplit, hlength]
  have hnew : (Buffer.overwrite m.bytes off bytes).length = m.wptr - m.rptr := by
    rw [Buffer.length_overwrite (by rw [length_bytes]; exact h), length_bytes]
  change ((Buffer.overwrite m.db (m.rptr + off) bytes).drop m.rptr).take (m.wptr - m.rptr) = _
  rw [hover, List.drop_append_of_le_length hlength.ge, List.drop_of_length_le hlength.le,
    List.nil_append, List.take_append_of_le_length hnew.ge, List.take_of_length_le hnew.le]

/-- The block for the headers has room for them, and the data follow. -/
structure Reused (needed : Nat) (data : List Msgb) (header : Msgb) (rest : List Msgb) : Prop where
  room : needed ≤ header.bytes.length
  payload : header.bytes.drop needed ++ messageBytes rest = messageBytes data
  types : (∀ m ∈ data, m.isData = true) → ∀ m ∈ header :: rest, m.isData = true

theorem reused_allocb (needed : Nat) (data : List Msgb) :
    Reused needed data (.allocb needed) data where
  room := by rw [Msgb.length_bytes]; exact Nat.le_refl _
  payload := by
    have hlength : (Msgb.allocb needed).bytes.length = needed := Msgb.length_bytes _
    rw [List.drop_of_length_le hlength.le, List.nil_append]
  types h := List.forall_mem_cons.mpr ⟨rfl, h⟩

theorem reuseMessageBlock_spec {first : Msgb} {data mp' : List Msgb} {needed : Nat} {mem : Bool}
    (h : reuseMessageBlock (first :: data) needed mem = some mp') :
    ∃ header rest, mp' = header :: rest ∧ Reused needed data header rest := by
  unfold reuseMessageBlock at h
  dsimp only at h
  split at h
  · next hfirst =>
    obtain rfl := Option.some.inj h
    have hlength : (Msgb.bytes { first with
        isData := true
        rptr := 0
        wptr := needed
        ordered := Nat.zero_le _
        inside := hfirst.2 }).length = needed := Msgb.length_bytes _
    refine ⟨_, _, rfl, ⟨hlength.ge, ?_, fun h => List.forall_mem_cons.mpr ⟨rfl, h⟩⟩⟩
    rw [List.drop_of_length_le hlength.le, List.nil_append]
  · cases data with
    | nil =>
      dsimp only at h
      split at h
      · obtain rfl := Option.some.inj h
        exact ⟨_, _, rfl, reused_allocb needed []⟩
      · cases h
    | cons m ms =>
      dsimp only at h
      split_ifs at h with hroom
      · obtain rfl := Option.some.inj h
        have hordered := m.ordered
        have hinside := m.inside
        refine ⟨_, _, rfl, ⟨?_, ?_, fun h => ?_⟩⟩
        · rw [Msgb.length_bytes]
          dsimp only
          omega
        · -- what is behind the headers are the bytes that were there
          simp only [messageBytes, List.flatMap_cons, Msgb.bytes]
          have hcount : m.wptr - (m.rptr - needed) - needed = m.wptr - m.rptr := by omega
          rw [List.drop_take, List.drop_drop, Nat.sub_add_cancel hroom.2, hcount]
        · exact List.forall_mem_cons.mpr (List.forall_mem_cons.mp h)
      · obtain rfl := Option.some.inj h
        exact ⟨_, _, rfl, reused_allocb needed (m :: ms)⟩

/-- What stands behind the Ethernet header. -/
def protocolHeader (s : DLPIStream) (packetType : PacketType) (dlsap : Sap) (snap : List Byte) :
    List Byte :=
  match packetType with
  | .sap8022 => [dlsap.setWidth 8, s.dlsap.setWidth 8, 0x03]
  | .snap8022 => [dlsap.setWidth 8, s.dlsap.setWidth 8, 0x03] ++ snap
  | _ => []

/-- The SNAP in the address, or the one the stream is bound to. -/
def txSnap (s : DLPIStream) (destAddrLen : Nat) (destAddrCopy : List Byte) : List Byte :=
  if 13 ≤ destAddrLen then (destAddrCopy.drop 8).take 5 else snapBytes s.snap

theorem length_txSnap {s : DLPIStream} {destAddrLen : Nat} {destAddrCopy : List Byte}
    (hcopy : destAddrCopy.length = kMaxBoundAddrLength) :
    (txSnap s destAddrLen destAddrCopy).length = 5 := by
  rw [txSnap]
  split
  · exact Buffer.length_read hcopy.ge
  · exact List.length_ofFn

theorem Msgb.write_field (m : Msgb) {off : Nat} (xs ys zs ys' : List Byte)
    (hbytes : m.bytes = xs ++ (ys ++ zs)) (hoff : xs.length = off) (hlength : ys'.length = ys.length) :
    ∃ m', m.write off ys' = .ok m' ∧ m'.bytes = xs ++ (ys' ++ zs) ∧ m'.isData = m.isData := by
  have hfits : off + ys'.length ≤ m.bytes.length := by
    simp only [hbytes, List.length_append]
    omega
  obtain ⟨m', hm', hbytes', htype⟩ := m.write_ok hfits
  refine ⟨m', hm', ?_, htype⟩
  rw [hbytes', hbytes, ← hoff]
  exact Buffer.overwrite_field xs ys zs ys' hlength

/-- A field and what is behind it. -/
theorem exists_field {l : List Byte} {off n : Nat} (h : off + n ≤ l.length) :
    ∃ xs, l.drop off = xs ++ l.drop (off + n) ∧ xs.length = n := by
  refine ⟨(l.drop off).take n, ?_, Buffer.length_read h⟩
  rw [← List.drop_drop, List.take_append_drop]

theorem snapStart_ok {s : DLPIStream} {destAddrLen : Nat} {destAddrCopy : List Byte}
    (hcopy : destAddrCopy.length = kMaxBoundAddrLength) :
    snapStart s destAddrLen destAddrCopy = .ok (txSnap s destAddrLen destAddrCopy) := by
  rw [snapStart, txSnap]
  split
  · exact Buffer.read_ok hcopy.ge
  · rfl

/-- The header is filled in but for the source address. -/
theorem fillHeader_ok (s : DLPIStream) {packetType : PacketType} (dlsap proto : Sap)
    (destAddrLen : Nat) {destAddrCopy : List Byte} {header : Msgb}
    (hcopy : destAddrCopy.length = kMaxBoundAddrLength)
    (hroom : packetType.headerLength ≤ header.bytes.length) :
    ∃ header' src, fillHeader s packetType dlsap proto destAddrLen destAddrCopy header = .ok header' ∧
      src.length = 6 ∧ header'.isData = header.isData ∧
      header'.bytes = destAddrCopy.take 6 ++ (src ++ (Sap.bytes proto ++
        (protocolHeader s packetType dlsap (txSnap s destAddrLen destAddrCopy) ++
          header.bytes.drop packetType.headerLength))) := by
  have hmin : 14 ≤ header.bytes.length := by
    refine le_trans ?_ hroom
    cases packetType <;> decide
  obtain ⟨dst, hdst, hdstLength⟩ := exists_field (show 0 + 6 ≤ header.bytes.length by omega)
  obtain ⟨src, hsrc, hsrcLength⟩ := exists_field (show 6 + 6 ≤ header.bytes.length by omega)
  obtain ⟨type, htype, htypeLength⟩ := exists_field (show 12 + 2 ≤ header.bytes.length by omega)
  have hbytes : header.bytes = (dst ++ src) ++ (type ++ header.bytes.drop 14) := by
    rw [List.append_assoc, ← htype, ← hsrc, ← hdst, List.drop_zero]
  have hcopyLength : (destAddrCopy.take 6).length = 6 := by
    rw [List.length_take, hcopy]
    rfl
  obtain ⟨m₁, hm₁, hbytes₁, htype₁⟩ := header.write_field _ _ _ (Sap.bytes proto) hbytes
    (show (dst ++ src).length = 12 by rw [List.length_append]; omega) htypeLength.symm
  obtain ⟨m₂, hm₂, hbytes₂, htype₂⟩ := m₁.write_field [] dst
    (src ++ (Sap.bytes proto ++ header.bytes.drop 14)) (destAddrCopy.take 6)
    (by rw [hbytes₁, List.append_assoc, List.nil_append]) (show [].length = 0 from rfl)
    (hcopyLength.trans hdstLength.symm)
  have hread : Buffer.read Overrun.destAddrCopy destAddrCopy 0 6 = .ok (destAddrCopy.take 6) :=
    Buffer.read_ok (by rw [hcopy]; decide)
  have hfront : (destAddrCopy.take 6 ++ (src ++ Sap.bytes proto)).length = 14 := by
    simp only [List.length_append, hcopyLength, hsrcLength]
    rfl
  simp only [fillHeader, hm₁, hm₂, hread, Except.ok_bind]
  cases packetType with
  | sap8022 =>
    obtain ⟨sap, hsap, hsapLength⟩ := exists_field (show 14 + 3 ≤ header.bytes.length from hroom)
    obtain ⟨m₃, hm₃, hbytes₃, htype₃⟩ := m₂.write_field _ sap (header.bytes.drop 17)
      [dlsap.setWidth 8, s.dlsap.setWidth 8, 0x03]
      (by rw [hbytes₂, hsap]; simp only [List.append_assoc, List.nil_append]) hfront hsapLength.symm
    refine ⟨m₃, src, hm₃, hsrcLength, htype₃.trans (htype₂.trans htype₁), ?_⟩
    rw [hbytes₃]
    simp only [List.append_assoc]
    rfl
  | snap8022 =>
    obtain ⟨sap, hsap, hsapLength⟩ := exists_field (show 14 + 3 ≤ header.bytes.length by
      change 22 ≤ _ at hroom
      omega)
    obtain ⟨snap, hsnap, hsnapLength⟩ := exists_field (show 17 + 5 ≤ header.bytes.length from hroom)
    obtain ⟨m₃, hm₃, hbytes₃, htype₃⟩ := m₂.write_field _ sap (header.bytes.drop 17)
      [dlsap.setWidth 8, s.dlsap.setWidth 8, 0x03]
      (by rw [hbytes₂, hsap]; simp only [List.append_assoc, List.nil_append]) hfront hsapLength.symm
    have hfront₃ : (destAddrCopy.take 6 ++ (src ++ Sap.bytes proto) ++
        [dlsap.setWidth 8, s.dlsap.setWidth 8, 0x03]).length = 17 := by
      rw [List.length_append, hfront]
      rfl
    have hlength := @length_txSnap s destAddrLen _ hcopy
    obtain ⟨m₄, hm₄, hbytes₄, htype₄⟩ := m₃.write_field _ snap (header.bytes.drop 22)
      (txSnap s destAddrLen destAddrCopy)
      (by rw [hbytes₃, hsnap]; simp only [List.append_assoc]) hfront₃ (hlength.trans hsnapLength.symm)
    simp only [hm₃, snapStart_ok hcopy, Except.ok_bind]
    refine ⟨m₄, src, hm₄, hsrcLength, htype₄.trans (htype₃.trans (htype₂.trans htype₁)), ?_⟩
    rw [hbytes₄]
    simp only [protocolHeader, List.append_assoc]
    rfl
  | _ =>
    refine ⟨m₂, src, rfl, hsrcLength, htype₂.trans htype₁, ?_⟩
    rw [hbytes₂]
    rfl

/-- The type that is sent. -/
def sentType (type : List Byte) (mp : List Msgb) : List Byte :=
  if type = [0, 0] then Sap.bytes (.ofNat 16 (msgdsize mp - 14)) else type

theorem transmitPacket_ok {hardwareAddress : EnetAddr} {header : Msgb} {rest : List Msgb}
    {dst src type body : List Byte} (hbytes : header.bytes = dst ++ (src ++ (type ++ body)))
    (hdst : dst.length = 6) (hsrc : src.length = 6) (htype : type.length = 2) :
    transmitPacket hardwareAddress (header :: rest) = .ok (dst ++ (enetBytes hardwareAddress ++
      (sentType type (header :: rest) ++ (body ++ messageBytes rest)))) := by
  have hread : Buffer.read Overrun.reply header.bytes 12 2 = .ok type := by
    have hfront : (dst ++ src).length = 12 := by
      rw [List.length_append]
      omega
    rw [hbytes, ← List.append_assoc, Buffer.read_ok (by simp only [List.length_append]; omega),
      List.drop_append_of_le_length hfront.ge, List.drop_of_length_le hfront.le, List.nil_append,
      List.take_append_of_le_length htype.ge, List.take_of_length_le htype.le]
  have hfill : ∃ m, fillLength (header :: rest) header = .ok m ∧
      m.bytes = dst ++ (src ++ (sentType type (header :: rest) ++ body)) := by
    rw [fillLength, hread, Except.ok_bind, sentType]
    split
    · obtain ⟨m, hm, hbytes', -⟩ := header.write_field (dst ++ src) type body
        (Sap.bytes (.ofNat 16 (msgdsize (header :: rest) - 14))) (by rw [hbytes, List.append_assoc])
        (show (dst ++ src).length = 12 by rw [List.length_append]; omega) htype.symm
      exact ⟨m, hm, by rw [hbytes', List.append_assoc]⟩
    · exact ⟨header, rfl, hbytes⟩
  obtain ⟨m, hm, hbytes'⟩ := hfill
  have haddr : (enetBytes hardwareAddress).length = 6 := List.length_ofFn
  obtain ⟨m', hm', hbytes'', -⟩ := m.write_field dst src _ (enetBytes hardwareAddress) hbytes' hdst
    (haddr.trans hsrc.symm)
  simp only [transmitPacket, hm, hm', Except.ok_bind, Except.pure_eq_ok, messageBytes,
    List.flatMap_cons, hbytes'', List.append_assoc]

-- ---------------------------------------------------------------------------
-- The frame of a request
-- ---------------------------------------------------------------------------

def destAddrOffset (req : List Byte) : Nat := (field req 8).toNat
def destAddrLen (req : List Byte) : Nat := (field req 4).toNat
def destAddr (req : List Byte) : List Byte := (req.drop (destAddrOffset req)).take (destAddrLen req)

/-- A `DL_UNITDATA_REQ` whose destination address is in the block. -/
structure UnitdataReq (req : List Byte) : Prop where
  size : 20 ≤ req.length
  prim : field req 0 = dlUnitdataReq
  within : destAddrOffset req + destAddrLen req ≤ req.length

/-- What is in the copy of an address that fits. -/
def addrCopy (req : List Byte) : List Byte :=
  Buffer.overwrite (.replicate kMaxBoundAddrLength 0) 0 (destAddr req)

/-- The SAP that is sent to. -/
def txSap (s : DLPIStream) (req : List Byte) : Sap :=
  if destAddrLen req = 8 ∨ destAddrLen req = 13 then sapField req (destAddrOffset req + 6)
  else s.dlsap

def txType (s : DLPIStream) (req : List Byte) : PacketType := classifyPacketType s.dlsap (txSap s req)

namespace UnitdataReq

variable {req : List Byte} {first : Msgb} {data : List Msgb}

theorem destSap_ok (h : UnitdataReq req) (s : DLPIStream) :
    destSap s req (destAddrOffset req) (destAddrLen req) = .ok (txSap s req) := by
  have hwithin := h.within
  rw [destSap, txSap]
  split
  · next hlen => exact readSap_ok (by omega)
  · rfl

theorem length_destAddr (h : UnitdataReq req) : (destAddr req).length = destAddrLen req :=
  Buffer.length_read h.within

theorem length_addrCopy (h : UnitdataReq req) (hlen : destAddrLen req ≤ kMaxBoundAddrLength) :
    (addrCopy req).length = kMaxBoundAddrLength := by
  rw [addrCopy, Buffer.length_overwrite, List.length_replicate]
  rwa [List.length_replicate, Nat.zero_add, h.length_destAddr]

/-- The address is copied when everything that depends on it has been read. -/
theorem build_eq (h : UnitdataReq req) (hfirst : first.bytes = req) (s : DLPIStream)
    (fastPath mem : Bool) :
    buildTxPacketHeader s (first :: data) fastPath mem = (do
      let destAddrCopy ← Buffer.write .destAddrCopy (.replicate kMaxBoundAddrLength 0) 0 (destAddr req)
      match reuseMessageBlock (first :: data) (txType s req).headerLength mem with
      | none | some [] => return none
      | some (header :: rest) =>
        let header ← fillHeader s (txType s req) (txSap s req) (txProto (txType s req) (txSap s req)
          (BitVec.ofNat 16 (msgdsize (first :: data))) fastPath) (destAddrLen req) destAddrCopy header
        return some (header :: rest)) := by
  subst hfirst
  have hsize := h.size
  have hwithin := h.within
  simp only [buildTxPacketHeader, List.head?_cons, Option.map_some, Option.getD_some,
    readField_ok (show 0 + 4 ≤ first.bytes.length by omega),
    readField_ok (show 8 + 4 ≤ first.bytes.length by omega),
    readField_ok (show 4 + 4 ≤ first.bytes.length by omega), Except.ok_bind, h.prim, ne_eq,
    not_true_eq_false, if_false]
  have hsap : destSap s first.bytes (field first.bytes 8).toNat (field first.bytes 4).toNat =
    .ok (txSap s first.bytes) := h.destSap_ok s
  have hread : Buffer.read Overrun.request first.bytes (field first.bytes 8).toNat
    (field first.bytes 4).toNat = .ok (destAddr first.bytes) := Buffer.read_ok h.within
  rw [hsap, Except.ok_bind, hread, Except.ok_bind]
  rfl

/-- An address that is too long is copied behind the end of the array. -/
theorem build_overrun (h : UnitdataReq req) (hfirst : first.bytes = req) (s : DLPIStream)
    (fastPath mem : Bool) (hlen : ¬destAddrLen req ≤ kMaxBoundAddrLength) :
    buildTxPacketHeader s (first :: data) fastPath mem = .error .destAddrCopy := by
  rw [h.build_eq hfirst, Buffer.write_error, Except.error_bind]
  rwa [List.length_replicate, Nat.zero_add, h.length_destAddr]

/-- Any other address is in the header, and the data behind it. -/
theorem build_ok (h : UnitdataReq req) (hfirst : first.bytes = req) (data : List Msgb)
    (s : DLPIStream) (fastPath mem : Bool) (hlen : destAddrLen req ≤ kMaxBoundAddrLength) :
    buildTxPacketHeader s (first :: data) fastPath mem = .ok none ∨
    ∃ header rest src body, buildTxPacketHeader s (first :: data) fastPath mem =
        .ok (some (header :: rest)) ∧
      header.bytes = (addrCopy req).take 6 ++ (src ++ (Sap.bytes (txProto (txType s req) (txSap s req)
        (BitVec.ofNat 16 (msgdsize (first :: data))) fastPath) ++ body)) ∧
      src.length = 6 ∧
      body ++ messageBytes rest = protocolHeader s (txType s req) (txSap s req)
        (txSnap s (destAddrLen req) (addrCopy req)) ++ messageBytes data ∧
      ((∀ m ∈ data, m.isData = true) → ∀ m ∈ header :: rest, m.isData = true) := by
  have hcopy : Buffer.write Overrun.destAddrCopy (.replicate kMaxBoundAddrLength 0) 0 (destAddr req) =
      .ok (addrCopy req) := by
    refine Buffer.write_ok ?_
    rwa [List.length_replicate, Nat.zero_add, h.length_destAddr]
  rw [h.build_eq hfirst, hcopy, Except.ok_bind]
  cases hreuse : reuseMessageBlock (first :: data) (txType s req).headerLength mem with
  | none => exact .inl rfl
  | some mp' =>
    obtain ⟨header, rest, rfl, hreused⟩ := reuseMessageBlock_spec hreuse
    obtain ⟨header', src, hfill, hsrc, htype, hbytes⟩ :=
      fillHeader_ok s (txSap s req) (txProto (txType s req) (txSap s req)
        (BitVec.ofNat 16 (msgdsize (first :: data))) fastPath) (destAddrLen req)
        (h.length_addrCopy hlen) hreused.room
    refine .inr ⟨header', rest, src, _, ?_, hbytes, hsrc, ?_, fun hdata => ?_⟩
    · simp only [hfill, Except.ok_bind]
      rfl
    · rw [List.append_assoc, hreused.payload]
    · obtain ⟨hheader, hrest⟩ := List.forall_mem_cons.mp (hreused.types hdata)
      exact List.forall_mem_cons.mpr ⟨htype.trans hheader, hrest⟩

end UnitdataReq

/-- A block with nothing else in its buffer. -/
def Msgb.ofBytes (bytes : List Byte) : Msgb :=
  ⟨bytes, 0, bytes.length, 1, false, Nat.zero_le _, Nat.le_refl _⟩

/-- A `DL_UNITDATA_REQ` with the address behind its fields. -/
def unitdataReq (addr : List Byte) : List Byte :=
  dlUnitdataReq.bytes ++ (Word.bytes (.ofNat 32 addr.length)) ++ Word.bytes 20 ++
    List.replicate 8 0 ++ addr

end SheepShear.Ether
