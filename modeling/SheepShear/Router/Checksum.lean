import SheepShear.Lib.Buffer
import SheepShear.Lib.OnesComplement

/-!
# Checksums of the IP router

`make_ip4_checksum`, `make_tcp_checksum` and `make_icmp_checksum` of
`iphelp.cpp`, over a frame in memory. The accesses are checked, so that a
function that reads or writes behind the end of the frame has no result.
-/

namespace SheepShear.Router

open OnesComplement

/-- A packet in memory, from its Ethernet header on. -/
abbrev Frame := List Byte

/-- `sizeof(mac_t)`, `sizeof(ip_t)`, `sizeof(icmp_t)` and `sizeof(tcp_t)`. -/
def sizeofMac : Nat := 14
def sizeofIp : Nat := 34
def sizeofIcmp : Nat := 38
def sizeofTcp : Nat := 54

variable {ε : Type} (e : ε)

-- ---------------------------------------------------------------------------
-- Fields
-- ---------------------------------------------------------------------------

def readByte (frame : Frame) (off : Nat) : Except ε Byte := do
  let bytes ← Buffer.read e frame off 1
  return bytes.headD 0

/-- `ntohs` of a field. -/
def readWord (frame : Frame) (off : Nat) : Except ε (BitVec 16) := do
  let bytes ← Buffer.read e frame off 2
  return bytes.getD 0 0 ++ bytes.getD 1 0

def wordBytes (w : BitVec 16) : List Byte := [w.extractLsb' 8 8, w.extractLsb' 0 8]

/-- A field set to `htons` of a word. -/
def writeWord (frame : Frame) (off : Nat) (w : BitVec 16) : Except ε Frame :=
  Buffer.write e frame off (wordBytes w)

-- ---------------------------------------------------------------------------
-- Sums
-- ---------------------------------------------------------------------------

/-- The loop over `n` words from `off` on. -/
def sumWords (frame : Frame) : (off n : Nat) → Word → Except ε Word
  | _, 0, sum32 => return sum32
  | off, n + 1, sum32 => do
    let w ← readWord e frame off
    sumWords frame (off + 2) n (sum32 + w.setWidth 32)

def hiword (w : Word) : BitVec 16 := w.extractLsb' 16 16

def loword (w : Word) : BitVec 16 := w.extractLsb' 0 16

theorem toNat_hiword (w : Word) : (hiword w).toNat = w.toNat / 65536 := by
  have := w.isLt
  rw [hiword, BitVec.extractLsb'_toNat, Nat.shiftRight_eq_div_pow]
  omega

theorem toNat_loword (w : Word) : (loword w).toNat = w.toNat % 65536 := by
  rw [loword, BitVec.extractLsb'_toNat, Nat.shiftRight_zero]

theorem toNat_carry (w : Word) :
    ((hiword w).setWidth 32 + (loword w).setWidth 32).toNat =
      w.toNat / 65536 + w.toNat % 65536 := by
  have := w.isLt
  rw [BitVec.toNat_add, BitVec.toNat_setWidth, BitVec.toNat_setWidth, toNat_hiword, toNat_loword]
  omega

/-- `while( HIWORD(sum32) ) sum32 = HIWORD(sum32) + LOWORD(sum32)` -/
def foldCarries (sum32 : Word) : Word :=
  if hiword sum32 = 0 then sum32
  else foldCarries ((hiword sum32).setWidth 32 + (loword sum32).setWidth 32)
termination_by sum32.toNat
decreasing_by
  have hne : (hiword sum32).toNat ≠ 0 := fun h => by
    simp_all [← BitVec.toNat_inj]
  rw [toNat_hiword] at hne
  rw [toNat_carry]
  omega

/-- What goes into the checksum field. -/
def checksumOf (sum32 : Word) : BitVec 16 := (~~~(foldCarries sum32)).setWidth 16

-- ---------------------------------------------------------------------------
-- The three checksums
-- ---------------------------------------------------------------------------

/-- `ip->header_len`, in words of four bytes. -/
def ipHeaderLen (frame : Frame) : Except ε Nat := do
  let byte ← readByte e frame sizeofMac
  return (byte &&& 0x0f).toNat

def makeIp4Checksum (frame : Frame) : Except ε Frame := do
  let frame ← writeWord e frame 24 0
  let sz := 2 * (← ipHeaderLen e frame)
  let sum32 ← sumWords e frame sizeofMac sz 0
  writeWord e frame 24 (checksumOf sum32)

/-- The number of words, a `uint16`, of what is behind the IP header. -/
def wordCount (len : BitVec 32) : Nat := ((len - BitVec.ofNat 32 sizeofIp) / 2).toNat % 65536

def makeIcmpChecksum (frame : Frame) (len : BitVec 32) : Except ε Frame := do
  let frame ← writeWord e frame 36 0
  let sum32 ← sumWords e frame sizeofIp (wordCount len) 0
  writeWord e frame 36 (checksumOf sum32)

/-- The words of the pseudo header, in the order of `pseudo_ip_t`. -/
def pseudoIp (frame : Frame) (msgLen : BitVec 16) : Except ε (List (BitVec 16)) := do
  let srcHi ← readWord e frame 26
  let srcLo ← readWord e frame 28
  let destHi ← readWord e frame 30
  let destLo ← readWord e frame 32
  let proto ← readByte e frame 23
  return [srcLo, srcHi, destLo, destHi, proto.setWidth 16, msgLen]

/-- `if(len & 1)`: the odd last byte of a segment. -/
def sumTail (frame : Frame) (len : BitVec 32) (sum32 : Word) : Except ε Word :=
  if len &&& 1 ≠ 0 then do
    let tcpLen := len - BitVec.ofNat 32 sizeofIp
    let last ← readByte e frame (sizeofIp + (tcpLen - 1).toNat)
    return sum32 + (last.setWidth 32 <<< 8)
  else return sum32

def makeTcpChecksum (frame : Frame) (len : BitVec 32) : Except ε Frame := do
  let frame ← writeWord e frame 50 0
  let sum32 ← sumWords e frame sizeofIp (wordCount len) 0
  let sum32 ← sumTail e frame len sum32
  let headerLen ← readByte e frame 46
  let msgLen := (headerLen >>> 2).setWidth 16 + (len - BitVec.ofNat 32 sizeofTcp).setWidth 16
  let pseudo ← pseudoIp e frame msgLen
  let sum32 := pseudo.foldl (fun sum32 w => sum32 + w.setWidth 32) sum32
  writeWord e frame 50 (checksumOf sum32)

end SheepShear.Router
