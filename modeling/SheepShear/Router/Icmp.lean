import SheepShear.Router.ChecksumExact

/-!
# ICMP messages to the Mac

`error_winsock_2_icmp` of `iphelp.cpp` and the handling of a packet in
`icmp_read_completion` of `icmp.cpp`. The accesses to the message that is built
and to the packet that it is about are checked.
-/

namespace SheepShear.Router.Icmp

-- ---------------------------------------------------------------------------
-- The router
-- ---------------------------------------------------------------------------

/-- The buffer that an access is not in. -/
inductive Outside where
  | message
  | packet
  deriving DecidableEq, Repr

/-- What the router knows of itself and of the Mac. -/
structure Addresses where
  etherAddr : List Byte
  routerMacAddr : List Byte
  routerIp : Word
  macosIp : Word
  nextIpIdent : BitVec 16
  ether_six : etherAddr.length = 6
  router_six : routerMacAddr.length = 6

/-- What `malloc` returns: none, or what is in the block. -/
abbrev Block := Option (Nat → Byte)

/-- Type and code of the reply for a Winsock error. -/
def replyFor (err : Nat) : Option (Byte × Byte) :=
  match err with
  | 10065 => some (3, 1) -- WSAEHOSTUNREACH: host unreachable
  | 10060 => some (3, 1) -- WSAETIMEDOUT
  | 10050 => some (3, 0) -- WSAENETDOWN: network unreachable
  | 10051 => some (3, 0) -- WSAENETUNREACH
  | 12016 => some (11, 0) -- WSAETTLEXCEEDED: transit TTL exceeded
  | _ => none

/-- The types of messages that carry the header of another packet. -/
def carriesHeader (type : Byte) : Prop := type = 3 ∨ type = 4 ∨ type = 5 ∨ type = 11 ∨ type = 12

instance : DecidablePred carriesHeader := fun _ => inferInstanceAs (Decidable (_ ∨ _))

def writeMac (r : Addresses) (icmp : Frame) : Except Outside Frame := do
  let icmp ← Buffer.write .message icmp 0 r.etherAddr
  let icmp ← Buffer.write .message icmp 6 r.routerMacAddr
  writeWord .message icmp 12 0x0800

-- ---------------------------------------------------------------------------
-- error_winsock_2_icmp
-- ---------------------------------------------------------------------------

/-- The IP header of a reply, without its checksum. -/
def writeIp (r : Addresses) (icmp : Frame) (msgSize : Nat) : Except Outside Frame := do
  let icmp ← Buffer.write .message icmp 14 [0x45]
  let icmp ← Buffer.write .message icmp 15 [0]
  let icmp ← writeWord .message icmp 16 (BitVec.ofNat 16 (sizeofIcmp - sizeofMac + msgSize))
  let icmp ← writeWord .message icmp 18 r.nextIpIdent
  let icmp ← writeWord .message icmp 20 0
  let icmp ← Buffer.write .message icmp 22 [128]
  let icmp ← Buffer.write .message icmp 23 [1]
  let icmp ← Buffer.write .message icmp 26 r.routerIp.bytes
  Buffer.write .message icmp 30 r.macosIp.bytes

/-- The message about a packet, if one is enqueued. -/
def errorWinsock2Icmp (r : Addresses) (err : Nat) (ipErr : Frame) (malloc : Block) :
    Except Outside (Option Frame) :=
  match replyFor err with
  | none => return none
  | some (type, code) => do
    let headerLen ← ipHeaderLen .packet ipErr
    -- ip header + unused + 64 msg bits
    let msgSize := 4 * headerLen + 4 + 8
    if r.macosIp = 0 then return none
    match malloc with
    | none => return none
    | some fill =>
      let icmpSize := sizeofIcmp + msgSize
      let icmp ← writeMac r ((List.range icmpSize).map fill)
      let icmp ← writeIp r icmp msgSize
      let icmp ← makeIp4Checksum .message icmp
      let icmp ← Buffer.write .message icmp 34 [type]
      let icmp ← Buffer.write .message icmp 35 [code]
      let icmp ← Buffer.write .message icmp sizeofIcmp [0, 0, 0, 0]
      let message ← Buffer.read .packet ipErr sizeofMac msgSize
      let icmp ← Buffer.write .message icmp (sizeofIcmp + 4) message
      let icmp ← makeIcmpChecksum .message icmp (BitVec.ofNat 32 icmpSize)
      return some icmp

-- ---------------------------------------------------------------------------
-- icmp_read_completion
-- ---------------------------------------------------------------------------

/-- The header that a message carries, `ip_if`. -/
def patchHeader (r : Addresses) (icmp : Frame) (type : Byte) : Except Outside Frame :=
  if carriesHeader type then do
    let icmp ← Buffer.write .message icmp (sizeofIcmp + 4 - sizeofMac + 26) r.macosIp.bytes
    let _proto ← readByte .message icmp (sizeofIcmp + 4 - sizeofMac + 23)
    return icmp
  else return icmp

/-- The packet for the Mac that is made of `raw`, the bytes that were read. -/
def icmpReadCompletion (r : Addresses) (error : Word) (raw : List Byte) (malloc : Block) :
    Except Outside (Option Frame) :=
  if error = 0 ∧ r.macosIp ≠ 0 then
    if 1460 < raw.length then return none
    else
      match malloc with
      | none => return none
      | some fill => do
        let icmpSize := sizeofMac + raw.length
        let icmp ← writeMac r ((List.range icmpSize).map fill)
        let icmp ← Buffer.write .message icmp sizeofMac raw
        let type ← readByte .message icmp 34
        let icmp ← patchHeader r icmp type
        let icmp ← makeIcmpChecksum .message icmp (BitVec.ofNat 32 icmpSize)
        let icmp ← Buffer.write .message icmp 30 r.macosIp.bytes
        let ttl ← readByte .message icmp 22
        let icmp ← Buffer.write .message icmp 22 [ttl - 1]
        let icmp ← makeIp4Checksum .message icmp
        if ttl - 1 = 0 then return none else return some icmp
  else return none

-- ---------------------------------------------------------------------------
-- What is expected
-- ---------------------------------------------------------------------------

/-- All accesses are inside, and a message carries the IP header of the packet and the first 64 bits
behind it, after the unused field. -/
def ErrorOk (r : Addresses) (err : Nat) (ipErr : Frame) (malloc : Block) : Prop :=
  ∃ result, errorWinsock2Icmp r err ipErr malloc = .ok result ∧ ∀ icmp, result = some icmp →
    (icmp.drop (sizeofIcmp + 4)).take (4 * ihl ipErr + 8) =
      (ipErr.drop sizeofMac).take (4 * ihl ipErr + 8)

def CompletionOk (r : Addresses) (error : Word) (raw : List Byte) (malloc : Block) : Prop :=
  ∃ result, icmpReadCompletion r error raw malloc = .ok result

/-- No message is built. -/
def Silent (r : Addresses) (err : Nat) (malloc : Block) : Prop :=
  replyFor err = none ∨ r.macosIp = 0 ∨ malloc = none

def Discarded (r : Addresses) (error : Word) (raw : List Byte) (malloc : Block) : Prop :=
  error ≠ 0 ∨ r.macosIp = 0 ∨ 1460 < raw.length ∨ malloc = none

/-- There is an ICMP header, the IP header is inside, and so is a header that the message carries. -/
structure Complete (raw : List Byte) : Prop where
  icmp : 24 ≤ raw.length
  header : 4 * (raw.getD 0 0 &&& 0x0f).toNat ≤ raw.length
  carried : carriesHeader (raw.getD 20 0) → 44 ≤ raw.length

end SheepShear.Router.Icmp
