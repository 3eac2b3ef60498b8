import SheepShear.Lib.Buffer
import SheepShear.Lib.CString

/-!
# File names on Windows

`charset_mac2host` and `charset_host2mac` of `posix_emu.cpp`. Both go through a
name from its end and move what is behind a character in the buffer of the name,
which has to hold the longest form that the name takes on.
-/

namespace SheepShear.ExtFs.Charset

/-- An access past the end of the buffer. -/
inductive Fault where
  | overrun
  deriving DecidableEq, Repr

-- ---------------------------------------------------------------------------
-- The C library on a buffer
-- ---------------------------------------------------------------------------

def byteAt (buf : List Byte) (i : Nat) : Except Fault Byte := Buffer.get .overrun buf i

/-- `strlen(&s[i])` -/
def strlen (buf : List Byte) (i : Nat) : Except Fault Nat :=
  let n := ((buf.drop i).takeWhile (· ≠ 0#8)).length
  if n < (buf.drop i).length then .ok n else .error .overrun

/-- `memmove(&s[dst], &s[src], n)` -/
def memmove (buf : List Byte) (dst src n : Nat) : Except Fault (List Byte) := do
  let bytes ← Buffer.read .overrun buf src n
  Buffer.write .overrun buf dst bytes

def isxdigit (c : Byte) : Bool :=
  isdigit c || (0x41#8 ≤ c && c ≤ 0x46#8) || (0x61#8 ≤ c && c ≤ 0x66#8)

/-- The value of a hexadecimal digit. -/
def xdigitValue (c : Byte) : Byte :=
  if isdigit c then c - 0x30 else if c ≤ 0x46 then c - 0x37 else c - 0x57

/-- A digit of the conversion `X`. -/
def upperDigit (d : Byte) : Byte := if d < 10 then 0x30 + d else 0x37 + d

def percent : Byte := 0x25

-- ---------------------------------------------------------------------------
-- charset_mac2host
-- ---------------------------------------------------------------------------

/-- The characters that are escaped: `/ * ? " < > | %` and those below the space. -/
def converts (c : Byte) : Bool :=
  c ∈ [0x2f#8, 0x2a#8, 0x3f#8, 0x22#8, 0x3c#8, 0x3e#8, 0x7c#8, percent] || c < 0x20#8

/-- `sprintf(sml, "%%%02X", c)` for a character that is escaped. -/
def escape (c : Byte) : List Byte := [percent, upperDigit (c >>> 4), upperDigit (c &&& 0x0f)]

/-- The replacement of the character at `i` by its escape. -/
def insertEscape (buf : List Byte) (i : Nat) (c : Byte) : Except Fault (List Byte) := do
  let n ← strlen buf i
  let buf ← memmove buf (i + 2) i (n + 1)
  Buffer.write .overrun buf i (escape c)

def charsetMac2HostLoop : (i : Nat) → List Byte → Except Fault (List Byte)
  | 0, buf => .ok buf
  | i + 1, buf => do
    let c ← byteAt buf i
    if converts c then
      let buf ← insertEscape buf i c
      charsetMac2HostLoop i buf
    else charsetMac2HostLoop i buf

def charsetMac2Host (buf : List Byte) : Except Fault (List Byte) := do
  let len ← strlen buf 0
  charsetMac2HostLoop len buf

-- ---------------------------------------------------------------------------
-- charset_host2mac
-- ---------------------------------------------------------------------------

/-- `s[i] == '%' && isxdigit(s[i+1]) && isxdigit(s[i+2])` -/
def isEscape (buf : List Byte) (i : Nat) : Except Fault Bool := do
  if (← byteAt buf i) ≠ percent then return false
  if !isxdigit (← byteAt buf (i + 1)) then return false
  return isxdigit (← byteAt buf (i + 2))

/-- The replacement of the escape at `i` by its character. -/
def removeEscape (buf : List Byte) (i : Nat) : Except Fault (List Byte) := do
  -- sscanf(&s[i], "%%%02X", &code)
  let code := xdigitValue (← byteAt buf (i + 1)) <<< 4 ||| xdigitValue (← byteAt buf (i + 2))
  let n ← strlen buf (i + 2)
  let buf ← memmove buf i (i + 2) (n + 1)
  Buffer.write .overrun buf i [code]

def charsetHost2MacLoop : (i : Nat) → List Byte → Except Fault (List Byte)
  | 0, buf => .ok buf
  | i + 1, buf => do
    if ← isEscape buf i then
      let buf ← removeEscape buf i
      charsetHost2MacLoop i buf
    else charsetHost2MacLoop i buf

def charsetHost2Mac (buf : List Byte) : Except Fault (List Byte) := do
  let len ← strlen buf 0
  charsetHost2MacLoop (len - 2) buf

end SheepShear.ExtFs.Charset
