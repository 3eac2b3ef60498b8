import SheepShear.Rpc.RoundTrip

/-!
# Remote procedure calls

`rpc_method_invoke` and `rpc_method_wait_for_reply` on the side of the client,
`rpc_dispatch` with its callbacks on the side of the server. A message has no
length: what a failed read has taken off the socket is gone, so the receivers
are stated here again with the position they leave when they fail.
-/

namespace SheepShear.Rpc

-- ---------------------------------------------------------------------------
-- Receivers that keep their position
-- ---------------------------------------------------------------------------

/-- A receiver leaves the socket somewhere whether it succeeds or not. -/
abbrev Reader := ExceptT RpcError (StateM Socket)

namespace Reader

def recvBytesLoop (s : Socket) (count : Nat) : Except RpcError (List Byte) × Socket :=
  match _h : s.recv count with
  | (.bytes (b :: bs), s') =>
    if 0 < count - (b :: bs).length then
      match recvBytesLoop s' (count - (b :: bs).length) with
      | (.ok rest, s'') => (.ok (b :: bs ++ rest), s'')
      | (.error e, s'') => (.error e, s'')
    else (.ok (b :: bs), s')
  | (.interrupted, s') => if 0 < count then recvBytesLoop s' count else (.ok [], s')
  | (.bytes [], s') => (.error .errnoSet, s')
termination_by count + s.script.length
decreasing_by
  · exact (s.recv_measure count).2 _ _ _ _h
  · have := (s.recv_measure count).1 _ _h
    omega

def recvBytes (count : Int) : Reader (List Byte) := fun s =>
  if 0 ≤ count then recvBytesLoop s count.toNat else (.error .errnoSet, s)

def recvChar : Reader Byte := do
  match ← recvBytes 1 with
  | [c] => return c
  | _ => throw .errnoSet

def recvInt32 : Reader Word := do
  match ← recvBytes 4 with
  | [b0, b1, b2, b3] => return Word.ofBytes b0 b1 b2 b3
  | _ => throw .errnoSet

def recvUint32 : Reader Word := recvInt32

def malloc (size : Int) : Reader Unit :=
  if size < 0 then throw .noMemory else return ()

def recvString : Reader CharPtr := do
  let length := (← recvUint32).toInt
  if length = 0 then
    return none
  else
    malloc (length + 1)
    let str ← recvBytes length
    return some (CString.ofBuffer str)

def recvEach (elem : Reader α) : Nat → Reader (List α)
  | 0 => return []
  | n + 1 => do
    let x ← elem
    let xs ← recvEach elem n
    return x :: xs

def recvArray : Reader ArrayArg := do
  let arrayType ← recvInt32
  let arraySize ← recvUint32
  if arrayType = RpcType.char.code then
    return .chars (← recvBytes arraySize.toInt)
  else if arrayType = RpcType.boolean.code then
    return .booleans (← recvEach recvInt32 arraySize.toNat)
  else if arrayType = RpcType.int32.code then
    return .int32s (← recvEach recvInt32 arraySize.toNat)
  else if arrayType = RpcType.uint32.code then
    return .uint32s (← recvEach recvUint32 arraySize.toNat)
  else if arrayType = RpcType.string.code then
    return .strings (← recvEach recvString arraySize.toNat)
  else
    throw .messageArgumentUnknown

def recvArgValue : RpcType → Reader Arg
  | .char => return .char (← recvChar)
  | .boolean => return .boolean (← recvInt32)
  | .int32 => return .int32 (← recvInt32)
  | .uint32 => return .uint32 (← recvUint32)
  | .string => return .string (← recvString)
  | .array => return .array (← recvArray)

def recvArg (expectedType : RpcType) : Reader Arg := do
  let type ← recvInt32
  if type ≠ expectedType.code then
    throw .messageArgumentMismatch
  else
    recvArgValue expectedType

def recvArgs : List RpcType → Reader (List Arg)
  | [] => return []
  | t :: ts => do
    let a ← recvArg t
    let as ← recvArgs ts
    return a :: as

end Reader

-- ---------------------------------------------------------------------------
-- Messages
-- ---------------------------------------------------------------------------

inductive Marker where
  | start
  | stop
  | ack
  | reply
  | failure
deriving DecidableEq, Repr

/-- `RPC_MESSAGE_START` and so on; `stop` is `RPC_MESSAGE_END`. -/
def Marker.code : Marker → Word
  | .start => BitVec.ofInt 32 (-3000)
  | .stop => BitVec.ofInt 32 (-3001)
  | .ack => BitVec.ofInt 32 (-3002)
  | .reply => BitVec.ofInt 32 (-3003)
  | .failure => BitVec.ofInt 32 (-3004)

/-- The bytes that a sender hands to `send` up to its last flush. -/
def sentBytes (m : Except RpcError Message) : Except RpcError (List Byte) := do
  let m ← (← m).flush
  return m.val.sent

/-- `rpc_method_invoke`, up to the bytes it sends. -/
def methodInvoke (method : Word) (args : List Arg) : Except RpcError (List Byte) :=
  sentBytes do
    let m ← Message.init.sendInt32 Marker.start.code
    let m ← m.sendInt32 method
    let m ← m.sendArgs args
    m.sendInt32 Marker.stop.code

/-- `rpc_method_send_reply`. -/
def methodSendReply (args : List Arg) : Except RpcError (List Byte) :=
  sentBytes do
    let m ← Message.init.sendInt32 Marker.reply.code
    let m ← m.sendArgs args
    m.sendInt32 Marker.stop.code

-- ---------------------------------------------------------------------------
-- The server
-- ---------------------------------------------------------------------------

/-- Arguments whose strings and arrays have lengths that are an `int`; no send of them fails. -/
abbrev Sendable := { args : List Arg // ∀ a ∈ args, a.Fits }

/-- A callback is a program over the functions of the server side. It sees what its reads return, and
in the end it succeeds or fails. -/
inductive Callback where
  | ret (ok : Bool)
  | getArgs (types : List RpcType) (next : Except RpcError (List Arg) → Callback)
  | sendReply (args : Sendable) (next : Except RpcError Unit → Callback)

/-- The socket the server reads from, and what it has sent. -/
structure Server where
  socket : Socket
  sent : List Byte

def Callback.run : Callback → Server → Bool × Server
  | .ret ok, s => (ok, s)
  | .getArgs types next, s =>
    let (r, socket) := Reader.recvArgs types s.socket
    (next r).run { s with socket := socket }
  | .sendReply args next, s =>
    match methodSendReply args.val with
    | .ok bytes => (next (.ok ())).run { s with sent := s.sent ++ bytes }
    | .error e => (next (.error e)).run s

structure MethodDescriptor where
  id : Word
  callback : Option Callback

/-- The 8 KiB blocks in which `rpc_message_skip_arg` reads a string. The comparison with
`sizeof(dummy)` is unsigned, so a negative length counts as a large one. -/
def skipBlocks : Nat → Int → Socket → Bool × Socket
  | 0, _, s => (false, s)
  | fuel + 1, length, s =>
    if bufSiz ≤ length ∨ length < 0 then
      match Reader.recvBytes bufSiz s with
      | (.ok _, s') => skipBlocks fuel (length - bufSiz) s'
      | (.error _, s') => (false, s')
    else if 0 < length then
      match Reader.recvBytes length s with
      | (.ok _, s') => (true, s')
      | (.error _, s') => (false, s')
    else (true, s)

def skipBytes (count : Int) (s : Socket) : Bool × Socket :=
  match Reader.recvBytes count s with
  | (.ok _, s') => (true, s')
  | (.error _, s') => (false, s')

/-- `rpc_message_skip_arg`: an argument of a scalar or string type is read and dropped. -/
def skipArg (type : Word) (s : Socket) : Bool × Socket :=
  if type = RpcType.char.code then skipBytes 1 s
  else if type = RpcType.boolean.code ∨ type = RpcType.int32.code ∨ type = RpcType.uint32.code then
    skipBytes 4 s
  else if type = RpcType.string.code then
    match Reader.recvInt32 s with
    | (.ok length, s') => skipBlocks (s'.inbox.length + 1) length.toInt s'
    | (.error _, s') => (false, s')
  else (false, s)

/-- The loop over left-over arguments, which ends at the end marker or with an error. -/
def skipArgs : Nat → Word → Socket → Socket
  | 0, _, s => s
  | fuel + 1, value, s =>
    match skipArg value s with
    | (false, s') => s'
    | (true, s') =>
      match Reader.recvInt32 s' with
      | (.error _, s'') => s''
      | (.ok value', s'') =>
        if value' = Marker.stop.code then s'' else skipArgs fuel value' s''

/-- The end of a message whose callback has succeeded. When the marker cannot be read, `value` is
what was read before. -/
def finishMessage (value : Word) (s : Server) : Marker × Server :=
  match Reader.recvInt32 s.socket with
  | (.ok value, socket) =>
    if value = Marker.stop.code then (.ack, { s with socket := socket })
    else (.failure, { s with socket := skipArgs (socket.inbox.length + 1) value socket })
  | (.error _, socket) =>
    (.failure, { s with socket := skipArgs (socket.inbox.length + 1) value socket })

/-- The loop over the callbacks: one that fails is passed over. -/
def callMethod (value method : Word) : List MethodDescriptor → Server → Marker × Server
  | [], s => (.failure, s)
  | d :: ds, s =>
    if d.id = method then
      match d.callback with
      | none => callMethod value method ds s
      | some callback =>
        match callback.run s with
        | (true, s') => finishMessage value s'
        | (false, s') => callMethod value method ds s'
    else callMethod value method ds s

/-- `rpc_dispatch`: the marker it sends, or none when it could not even read the first one. The
first marker is not looked at once it was read. -/
def rpcDispatch (callbacks : List MethodDescriptor) (s : Server) : Option Marker × Server :=
  match Reader.recvInt32 s.socket with
  | (.error _, socket) => (none, { s with socket := socket })
  | (.ok value, socket) =>
    let (ret, s') :=
      match Reader.recvInt32 socket with
      | (.error _, socket) => (Marker.failure, { s with socket := socket })
      | (.ok method, socket) => callMethod value method callbacks { s with socket := socket }
    (some ret, { s' with sent := s'.sent ++ ret.code.bytes })

-- ---------------------------------------------------------------------------
-- The client
-- ---------------------------------------------------------------------------

/-- What `rpc_method_wait_for_reply` returns; `truncated` is `RPC_ERROR_MESSAGE_TRUNCATED`. -/
inductive WaitResult where
  | ok (args : List Arg)
  | truncated
  | error (e : RpcError)
deriving DecidableEq

def recvMarker (expected : Marker) (next : Socket → WaitResult × Socket) (s : Socket) :
    WaitResult × Socket :=
  match Reader.recvInt32 s with
  | (.error e, s') => (.error e, s')
  | (.ok ret, s') => if ret ≠ expected.code then (.truncated, s') else next s'

/-- The part of a reply after its first marker. -/
def recvReply (types : List RpcType) (s : Socket) : WaitResult × Socket :=
  match Reader.recvArgs types s with
  | (.error e, s') => (.error e, s')
  | (.ok args, s') => recvMarker .stop (recvMarker .ack fun s => (.ok args, s)) s'

def methodWaitForReply (types : List RpcType) (s : Socket) : WaitResult × Socket :=
  if types ≠ [] then recvMarker .reply (recvReply types) s
  else recvMarker .ack (fun s => (.ok [], s)) s

-- ---------------------------------------------------------------------------
-- Calls
-- ---------------------------------------------------------------------------

/-- A call: the method with its arguments, and the types of the reply the client waits for. -/
structure Call where
  method : Word
  args : Sendable
  expects : List RpcType

/-- The two directions of the connection. -/
structure Connection where
  callbacks : List MethodDescriptor
  toServer : Socket
  toClient : Socket

/-- What the two sides have done, and the connection after it. -/
structure Exchange where
  status : Option Marker
  sent : List Byte
  result : WaitResult
  connection : Connection

/-- `rpc_method_invoke`, the dispatch of the server and `rpc_method_wait_for_reply`. -/
def exchange (k : Connection) (c : Call) : Option Exchange :=
  match methodInvoke c.method c.args.val with
  | .error _ => none
  | .ok bytes =>
    let (status, server) :=
      rpcDispatch k.callbacks ⟨{ k.toServer with inbox := k.toServer.inbox ++ bytes }, []⟩
    let (result, toClient) :=
      methodWaitForReply c.expects { k.toClient with inbox := k.toClient.inbox ++ server.sent }
    some ⟨status, server.sent, result, ⟨k.callbacks, server.socket, toClient⟩⟩

end SheepShear.Rpc
