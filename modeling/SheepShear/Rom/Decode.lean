import SheepShear.Lib.CString
import SheepShear.Rom.Lzss

/-!
# ROM files

`DecodeROM` and `decode_parcels` of `rom_patches.cpp` on a 64-bit host. The file
is a list of bytes, and reading past its end is an error, as is writing past the
end of the ROM. A search reads no further than its match or the terminator.
-/

namespace SheepShear.Rom

inductive Fault where
  | readOutside
  | writeOutside
  /-- The fuel is used up. -/
  | endless
deriving DecidableEq, Repr

abbrev RomArea := Nat → Byte

def romSize : Nat := 0x400000

-- ---------------------------------------------------------------------------
-- The C library
-- ---------------------------------------------------------------------------

/-- `strncmp(s, key, strlen(key)) == 0`. -/
def startsWith : List Byte → List Byte → Except Fault Bool
  | [], _ => .ok true
  | _ :: _, [] => .error .readOutside
  | k :: key, c :: s => if c = k then startsWith key s else .ok false

/-- The offset of the first occurrence, or `none` for the null pointer. -/
def strstr (key : List Byte) : List Byte → Except Fault (Option Nat)
  | [] => .error .readOutside
  | c :: s => do
    if ← startsWith key (c :: s) then
      return some 0
    else if c = 0 then
      return none
    else
      return (← strstr key s).map (· + 1)

def hexDigit (c : Byte) : Option Nat :=
  if 0x30#8 ≤ c ∧ c ≤ 0x39#8 then some (c.toNat - 0x30)
  else if 0x61#8 ≤ c ∧ c ≤ 0x66#8 then some (c.toNat - 0x61 + 10)
  else if 0x41#8 ≤ c ∧ c ≤ 0x46#8 then some (c.toNat - 0x41 + 10)
  else none

def skipSpace : List Byte → Except Fault (List Byte)
  | [] => .error .readOutside
  | c :: s => if isspace c then skipSpace s else .ok (c :: s)

def scanHexDigits : Nat → List Byte → Option Nat → Except Fault (Option Nat)
  | 0, _, v => .ok v
  | _ + 1, [], _ => .error .readOutside
  | width + 1, c :: s, v =>
    match hexDigit c with
    | some d => scanHexDigits width s (some (v.getD 0 * 16 + d))
    | none => .ok v

def scanHexNumber (width : Nat) (s : List Byte) : Except Fault (Option Nat) :=
  match s with
  | zero :: x :: rest =>
    if zero = 0x30#8 ∧ (x = 0x78#8 ∨ x = 0x58#8) then scanHexDigits (width - 2) rest none
    else scanHexDigits width s none
  | _ => scanHexDigits width s none

/-- `sscanf` with `%06x`; no number is a result other than 1. -/
def sscanfHex (s : List Byte) : Except Fault (Option Word) := do
  match ← skipSpace s with
  | [] => return none
  | c :: s =>
    if c = 0x2d#8 then return (← scanHexNumber 5 s).map fun v => -BitVec.ofNat 32 v
    else if c = 0x2b#8 then return (← scanHexNumber 5 s).map (BitVec.ofNat 32)
    else return (← scanHexNumber 6 (c :: s)).map (BitVec.ofNat 32)

-- ---------------------------------------------------------------------------
-- Streams and parcels
-- ---------------------------------------------------------------------------

/-- The four bytes at an offset, if they are in the file. -/
def wordAt (data : List Byte) (i : Nat) : Option Word :=
  match data.drop i with
  | b0 :: b1 :: b2 :: b3 :: _ => some (Word.ofBytes b0 b1 b2 b3)
  | _ => none

/-- `ntohl(*(uint32 *)(data + i))`. -/
def readWord (data : List Byte) (i : Nat) : Except Fault Word :=
  match wordAt data i with
  | some w => .ok w
  | none => .error .readOutside

/-- `decode_lzss(data + offset, ROMBaseHost, size)`; `dict` is what its array holds at first. -/
def decodeStream (dict : Nat → Byte) (data : List Byte) (offset : Nat) (size : Word) (rom : RomArea) :
    Except Fault RomArea :=
  match decodeLzss dict (fun i => data.getD (offset + i) 0) size.toInt with
  | none => .error .endless
  | some s =>
    if 0 < s.src ∧ data.length < offset + s.src then .error .readOutside
    else if romSize < s.dest.length then .error .writeOutside
    else .ok fun i => s.dest.getD i (rom i)

def parcelSignature : Word := 0x7072636c
def romParcel : Word := 0x726f6d20

/-- `while (parcel_offset != 0)`, with the parcels at `src` in the file. -/
def decodeParcels (dict : Word → Nat → Byte) (data : List Byte) (src : Nat) :
    Nat → Word → RomArea → Except Fault RomArea
  | 0, _, _ => .error .endless
  | fuel + 1, parcelOffset, rom =>
    if parcelOffset = 0 then .ok rom
    else do
      let parcelData := src + parcelOffset.toNat
      let nextOffset ← readWord data parcelData
      let parcelType ← readWord data (parcelData + 4)
      if parcelType = romParcel then
        let lzssOffset ← readWord data (parcelData + 8)
        let lzssSize := nextOffset - (parcelOffset + lzssOffset)
        let rom ← decodeStream (dict parcelOffset) data (parcelData + lzssOffset.toNat) lzssSize rom
        decodeParcels dict data src fuel nextOffset rom
      else
        decodeParcels dict data src fuel nextOffset rom

-- ---------------------------------------------------------------------------
-- DecodeROM
-- ---------------------------------------------------------------------------

def chrpBoot : List Byte := ascii "<CHRP-BOOT>"
def lzssOffsetKey : List Byte := ascii "constant lzss-offset"
def lzssSizeKey : List Byte := ascii "constant lzss-size"
def parcelsOffsetKey : List Byte := ascii "constant parcels-offset"
def parcelsSizeKey : List Byte := ascii "constant parcels-size"

/-- `sscanf(s - 7, "%06x", ..)`, where `s` is an offset in the file. -/
def numberBefore (data : List Byte) (s : Nat) : Except Fault (Option Word) :=
  if s < 7 then .error .readOutside else sscanfHex (data.drop (s - 7))

/-- The number in front of the first key, at `s`, and the one in front of the second key. -/
def decodeInfoAt (data : List Byte) (s : Nat) (sizeKey : List Byte) :
    Except Fault (Option (Word × Word)) := do
  match ← numberBefore data s with
  | none => return none
  | some imageOffset =>
    match ← strstr sizeKey data with
    | none => return none
    | some s => return (← numberBefore data s).map (imageOffset, ·)

def decodeInfo (data : List Byte) : Except Fault (Option (Word × Word)) := do
  match ← strstr lzssOffsetKey data with
  | some s => decodeInfoAt data s lzssSizeKey
  | none =>
    match ← strstr parcelsOffsetKey data with
    | some s => decodeInfoAt data s parcelsSizeKey
    | none => return none

/-- The result, and the ROM area afterwards. -/
def decodeRom (fuel : Nat) (dict : Word → Nat → Byte) (data : List Byte) (rom : RomArea) :
    Except Fault (Bool × RomArea) :=
  if data.length = romSize then .ok (true, fun i => data.getD i (rom i))
  else do
    if ← startsWith chrpBoot data then
      match ← decodeInfo data with
      | none => return (false, rom)
      | some (imageOffset, imageSize) =>
        let romSignature ← readWord data imageOffset.toNat
        if romSignature = parcelSignature then
          return (true, ← decodeParcels dict data imageOffset.toNat fuel 0x14 rom)
        else
          return (true, ← decodeStream (dict 0) data imageOffset.toNat imageSize rom)
    else
      return (false, rom)

end SheepShear.Rom
