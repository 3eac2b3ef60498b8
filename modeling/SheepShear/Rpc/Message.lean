import SheepShear.Lib.CString

/-!
# RPC messages

`rpc_unix.cpp`: a sender that marshals typed arguments through a bounded
buffer, and a receiver that reads them back from a stream socket. The socket
decides how many bytes each `recv` returns; that choice is an explicit script.
User-defined marshalers are not modelled: no argument here has such a type.
-/

namespace SheepShear.Rpc

-- ---------------------------------------------------------------------------
-- Types, errors and arguments
-- ---------------------------------------------------------------------------

inductive RpcError where
  | errnoSet
  | noMemory
  | messageArgumentMismatch
  | messageArgumentUnknown
deriving DecidableEq, Repr

inductive RpcType where
  | char
  | boolean
  | int32
  | uint32
  | string
  | array
deriving DecidableEq, Repr

def RpcType.code : RpcType → Word
  | .char => BitVec.ofInt 32 (-2000)
  | .boolean => BitVec.ofInt 32 (-2001)
  | .int32 => BitVec.ofInt 32 (-2002)
  | .uint32 => BitVec.ofInt 32 (-2003)
  | .string => BitVec.ofInt 32 (-2004)
  | .array => BitVec.ofInt 32 (-2005)

/-- A `char *`; `none` is the null pointer. -/
abbrev CharPtr := Option CString

def CharPtr.bytes : CharPtr → List Byte
  | none => []
  | some s => s.val

inductive ArrayArg where
  | chars (elems : List Byte)
  | booleans (elems : List Word)
  | int32s (elems : List Word)
  | uint32s (elems : List Word)
  | strings (elems : List CharPtr)
deriving DecidableEq

inductive Arg where
  | char (c : Byte)
  | boolean (v : Word)
  | int32 (v : Word)
  | uint32 (v : Word)
  | string (str : CharPtr)
  | array (a : ArrayArg)
deriving DecidableEq

def ArrayArg.type : ArrayArg → RpcType
  | .chars _ => .char
  | .booleans _ => .boolean
  | .int32s _ => .int32
  | .uint32s _ => .uint32
  | .strings _ => .string

def ArrayArg.length : ArrayArg → Nat
  | .chars es => es.length
  | .booleans es | .int32s es | .uint32s es => es.length
  | .strings es => es.length

/-- The `uint32_t` size that accompanies an array in the argument list. -/
def ArrayArg.size (a : ArrayArg) : Word := BitVec.ofNat 32 a.length

def Arg.type : Arg → RpcType
  | .char _ => .char
  | .boolean _ => .boolean
  | .int32 _ => .int32
  | .uint32 _ => .uint32
  | .string _ => .string
  | .array _ => .array

-- ---------------------------------------------------------------------------
-- Sending
-- ---------------------------------------------------------------------------

/-- `BUFSIZ` of the C library. -/
def bufSiz : Nat := 8192

structure Message where
  /-- The first `offset` bytes of the message's buffer. -/
  buffer : List Byte
  /-- Everything handed to `send` so far. -/
  sent : List Byte
  inBounds : buffer.length ≤ bufSiz

/-- `send(2)`: all of a possible byte count goes out, in order. A negative
count is a `size_t` beyond any object, which the call refuses with `-1`. -/
def send (bytes : List Byte) (count : Int) : Int × List Byte :=
  if 0 ≤ count then (count, bytes.take count.toNat) else (-1, [])

namespace Message

def init : Message := ⟨[], [], by simp⟩

/-- The source's `_rpc_message_send_bytes`. -/
def sendBytesRaw (m : Message) (bytes : List Byte) (count : Int) : Except RpcError Message :=
  let (n, out) := send bytes count
  if n ≠ count then .error .errnoSet else .ok { m with sent := m.sent ++ out }

def flush (m : Message) : Except RpcError { m' : Message // m'.buffer = [] } := do
  let m' ← m.sendBytesRaw m.buffer m.buffer.length
  return ⟨{ m' with buffer := [], inBounds := by simp }, rfl⟩

def sendBytesBuffered (m : Message) (bytes : List Byte)
    (h : m.buffer.length + bytes.length ≤ bufSiz) : Message :=
  { m with buffer := m.buffer ++ bytes, inBounds := by simpa using h }

/-- The common body of the fixed-size senders: flush when the value would
reach the end of the buffer, then append it. -/
def sendValue (m : Message) (value : List Byte) (h : value.length ≤ bufSiz) :
    Except RpcError Message :=
  if hb : m.buffer.length + value.length ≥ bufSiz then do
    let ⟨m', hm⟩ ← m.flush
    return m'.sendBytesBuffered value (by simpa [hm] using h)
  else
    return m.sendBytesBuffered value (by omega)

def sendChar (m : Message) (c : Byte) : Except RpcError Message :=
  m.sendValue [c] (by simp [bufSiz])

def sendInt32 (m : Message) (value : Word) : Except RpcError Message :=
  m.sendValue value.bytes (by simp [bufSiz])

def sendUint32 (m : Message) (value : Word) : Except RpcError Message :=
  m.sendValue value.bytes (by simp [bufSiz])

def sendString (m : Message) (str : CharPtr) : Except RpcError Message := do
  -- `int length = strlen(str)`
  let length : Word := BitVec.ofNat 32 str.bytes.length
  let m ← m.sendValue length.bytes (by simp [bufSiz])
  let m ← m.flush
  m.val.sendBytesRaw str.bytes length.toInt

/-- The inner switch of the `RPC_TYPE_ARRAY` case. The loops count an `int` up
to `array_size`, which is an `int` as well. -/
def sendElems (m : Message) (a : ArrayArg) (arraySize : Int) : Except RpcError Message :=
  match a with
  | .chars es => do (← m.flush).val.sendBytesRaw es arraySize
  | .booleans es | .int32s es => (es.take arraySize.toNat).foldlM sendInt32 m
  | .uint32s es => (es.take arraySize.toNat).foldlM sendUint32 m
  | .strings es => (es.take arraySize.toNat).foldlM sendString m

def sendArray (m : Message) (a : ArrayArg) : Except RpcError Message := do
  let m ← m.sendInt32 a.type.code
  let m ← m.sendUint32 a.size
  m.sendElems a a.size.toInt

def sendArgValue (m : Message) : Arg → Except RpcError Message
  | .char c => m.sendChar c
  | .boolean v | .int32 v => m.sendInt32 v
  | .uint32 v => m.sendUint32 v
  | .string str => m.sendString str
  | .array a => m.sendArray a

def sendArg (m : Message) (a : Arg) : Except RpcError Message := do
  let m ← m.sendInt32 a.type.code
  m.sendArgValue a

def sendArgs (m : Message) (args : List Arg) : Except RpcError Message :=
  args.foldlM sendArg m

end Message

-- ---------------------------------------------------------------------------
-- Receiving
-- ---------------------------------------------------------------------------

/-- How one `recv` behaves: it is interrupted, or it returns at most the given
number of bytes (and at least one, if there are any). -/
inductive RecvStep where
  | eintr
  | chunk (n : Nat)
deriving DecidableEq, Repr

/-- A stream socket: the bytes still to be read and the behaviour of the next
calls. Once the script is used up each call returns all it can. -/
structure Socket where
  inbox : List Byte
  script : List RecvStep
deriving DecidableEq, Repr

inductive RecvResult where
  | interrupted
  | bytes (bs : List Byte)
deriving DecidableEq, Repr

def Socket.take (s : Socket) (n : Nat) (script : List RecvStep) : RecvResult × Socket :=
  (.bytes (s.inbox.take n), ⟨s.inbox.drop n, script⟩)

/-- `recv(2)` with a possible byte count. No bytes is the end of the stream,
or the answer to a request for none. -/
def Socket.recv (s : Socket) (count : Nat) : RecvResult × Socket :=
  match s.script with
  | .eintr :: script => (.interrupted, { s with script })
  | .chunk n :: script => s.take (min (max 1 n) count) script
  | [] => s.take count []

abbrev Recv := StateT Socket (Except RpcError)

theorem Socket.recv_measure (s : Socket) (count : Nat) :
    (∀ s', s.recv count = (.interrupted, s') → s'.script.length < s.script.length) ∧
    (∀ b bs s', s.recv count = (.bytes (b :: bs), s') →
      count - (b :: bs).length + s'.script.length < count + s.script.length) := by
  have hpos {n : Nat} {l bs : List Byte} {b : Byte} (h : l.take n = b :: bs) :
      bs.length + 1 ≤ n := by
    have := congrArg List.length h
    simp only [List.length_take, List.length_cons] at this
    omega
  unfold Socket.recv
  split
  · simp_all
  · refine ⟨by simp [Socket.take], fun b bs s' h => ?_⟩
    simp only [Socket.take, Prod.mk.injEq, RecvResult.bytes.injEq] at h
    obtain ⟨h, rfl⟩ := h
    have := hpos h
    simp_all only [List.length_cons]
    omega
  · refine ⟨by simp [Socket.take], fun b bs s' h => ?_⟩
    simp only [Socket.take, Prod.mk.injEq, RecvResult.bytes.injEq] at h
    obtain ⟨h, rfl⟩ := h
    have := hpos h
    simp_all only [List.length_cons, List.length_nil]
    omega

/-- The `do … while (count > 0)` of `_rpc_message_recv_bytes`; `continue` goes
to the loop condition. -/
def recvBytesLoop (s : Socket) (count : Nat) : Except RpcError (List Byte × Socket) :=
  match _h : s.recv count with
  | (.bytes (b :: bs), s') =>
    if 0 < count - (b :: bs).length then do
      let (rest, s'') ← recvBytesLoop s' (count - (b :: bs).length)
      return (b :: bs ++ rest, s'')
    else
      return (b :: bs, s')
  | (.interrupted, s') =>
    if 0 < count then recvBytesLoop s' count else return ([], s')
  | (.bytes [], _) => .error .errnoSet
termination_by count + s.script.length
decreasing_by
  · exact (s.recv_measure count).2 _ _ _ _h
  · have := (s.recv_measure count).1 _ _h
    omega

/-- The source's `_rpc_message_recv_bytes`. `recv` refuses a negative count. -/
def recvBytes (count : Int) : Recv (List Byte) := fun s =>
  if 0 ≤ count then recvBytesLoop s count.toNat else .error .errnoSet

def recvChar : Recv Byte := do
  match ← recvBytes 1 with
  | [c] => return c
  | _ => throw .errnoSet

def recvInt32 : Recv Word := do
  match ← recvBytes 4 with
  | [b0, b1, b2, b3] => return Word.ofBytes b0 b1 b2 b3
  | _ => throw .errnoSet

def recvUint32 : Recv Word := recvInt32

/-- `malloc` of a negative `int` is a request beyond the address space. -/
def malloc (size : Int) : Recv Unit :=
  if size < 0 then throw .noMemory else return ()

def recvString : Recv CharPtr := do
  let length := (← recvUint32).toInt
  if length = 0 then
    return none
  else
    malloc (length + 1)
    let str ← recvBytes length
    return some (CString.ofBuffer str)

def recvEach (elem : Recv α) : Nat → Recv (List α)
  | 0 => return []
  | n + 1 => do
    let x ← elem
    let xs ← recvEach elem n
    return x :: xs

/-- The `RPC_TYPE_ARRAY` case. Here `array_size` is unsigned, and so is the
comparison in the loops; only the raw read takes it as an `int`. -/
def recvArray : Recv ArrayArg := do
  let arrayType ← recvInt32
  let arraySize ← recvUint32
  if arrayType = RpcType.char.code then
    return .chars (← recvBytes arraySize.toInt)
  else if arrayType = RpcType.boolean.code then
    return .booleans (← recvEach recvInt32 arraySize.toNat)
  else if arrayType = RpcType.int32.code then
    return .int32s (← recvEach recvInt32 arraySize.toNat)
  else if arrayType = RpcType.uint32.code then
    return .uint32s (← recvEach recvUint32 arraySize.toNat)
  else if arrayType = RpcType.string.code then
    return .strings (← recvEach recvString arraySize.toNat)
  else
    throw .messageArgumentUnknown

def recvArgValue : RpcType → Recv Arg
  | .char => return .char (← recvChar)
  | .boolean => return .boolean (← recvInt32)
  | .int32 => return .int32 (← recvInt32)
  | .uint32 => return .uint32 (← recvUint32)
  | .string => return .string (← recvString)
  | .array => return .array (← recvArray)

def recvArg (expectedType : RpcType) : Recv Arg := do
  let type ← recvInt32
  if type ≠ expectedType.code then
    throw .messageArgumentMismatch
  else
    recvArgValue expectedType

def recvArgs : List RpcType → Recv (List Arg)
  | [] => return []
  | t :: ts => do
    let a ← recvArg t
    let as ← recvArgs ts
    return a :: as

end SheepShear.Rpc
