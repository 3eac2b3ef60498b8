import SheepShear.Lib.CString

/-!
# The FTP patch of the IP router

`ftp.cpp`: the ports of FTP control connections, the parser for the `PORT`
command of a client and the `227` reply of a server, and the command that
replaces it.
-/

namespace SheepShear.Router

/-- The first number of a string; the C library clamps it to the range of `int`. -/
def atoi (s : List Byte) : Int :=
  max (-2 ^ 31) (min (2 ^ 31 - 1) (scanInt (s.dropWhile isspace)))

/-- `tolower` in the C locale. -/
def tolower (c : Byte) : Byte := if 0x41#8 ≤ c ∧ c ≤ 0x5a#8 then c + 0x20#8 else c

/-- What the parser makes of a byte of the command. -/
def ftpFold (c : Byte) : Byte := if c < 0x20#8 ∨ 0x7a#8 < c then space else tolower c

def comma : Byte := 0x2c#8
def openParen : Byte := 0x28#8
def closeParen : Byte := 0x29#8

/-- The loop over the four numbers of the address; none when one of them is missing. -/
def ftpAddress : (n : Nat) → Word → List Byte → Option (Word × List Byte)
  | 0, ip, s => some (ip, s)
  | n + 1, ip, s =>
    let s := s.dropWhile (· == space)
    if (s.head?.any isdigit) = false then none
    else
      match s.dropWhile (· ≠ comma) with
      | [] => none
      | _ :: rest => ftpAddress n ((ip <<< 8) + BitVec.ofInt 32 (atoi s)) rest

/-- The loop over the two numbers of the port. -/
def ftpPort : (n : Nat) → BitVec 16 → List Byte → BitVec 16
  | 0, port, _ => port
  | n + 1, port, s =>
    let s := s.dropWhile (· == space)
    if (s.head?.any isdigit) = false then 0
    else
      let port := (port <<< 8) + BitVec.ofInt 16 (atoi s)
      match s.dropWhile (fun c => c ≠ comma && c ≠ closeParen) with
      | [] => port
      | _ :: rest => ftpPort n port rest

/-- Where the numbers of a command start. -/
def ftpArguments (isPasv : Bool) (s : List Byte) : Option (List Byte) :=
  if isPasv then
    -- LOCAL SERVER: ..227 Entering Passive Mode (192,168,0,2,6,236). 0d 0a
    if atoi s = 227 ∧ ascii "passive" <:+: s then
      match s.dropWhile (· ≠ openParen) with
      | [] => none
      | _ :: rest => some rest
    else none
  else
    -- LOCAL CLIENT: PORT 192,168,0,1,14,147 0d 0a
    if (ascii "port ").isPrefixOf s then some (s.drop 5) else none

/-- `ftp_parse_port_command`: the data port, 0 if there is none. The parser looks at the first 99
bytes. -/
def ftpParsePortCommand (buf : List Byte) (isPasv : Bool) : BitVec 16 :=
  let s := ((buf.take 99).map ftpFold).dropWhile (· == space)
  match ftpArguments isPasv s with
  | none => 0
  | some s =>
    match ftpAddress 4 0 s with
    | none => 0
    | some (ip, s) => if ip = 0 then 0 else ftpPort 2 0 s

/-- `ftp_modify_port_command`, for a buffer of at least 100 bytes. -/
def ftpModifyPortCommand (ip : Word) (port : BitVec 16) (isPasv : Bool) : List Byte :=
  let numbers := [ip >>> 24, (ip >>> 16) &&& 0xff#32, (ip >>> 8) &&& 0xff#32, ip &&& 0xff#32,
    (port.setWidth 32 >>> 8) &&& 0xff#32, port.setWidth 32 &&& 0xff#32]
  let list := [comma].intercalate (numbers.map fun n => printNat n.toNat)
  if isPasv then
    ascii "227 Entering Passive Mode (" ++ list ++ ascii ")." ++ [0x0d#8, newline]
  else ascii "PORT " ++ list ++ [0x0d#8, newline]

end SheepShear.Router
