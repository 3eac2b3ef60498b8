import SheepShear.Lib.Except
import SheepShear.Rpc.Message

/-!
# RPC marshalling round trip

The buffered sender puts the unbuffered encoding of its arguments on the wire,
and the receiver reads it back whatever the sizes of the single reads. The one
encoding it cannot read is that of an empty array of characters; beyond the
range of an `int`, lengths are truncated and less is sent than was given.
-/

namespace SheepShear.Rpc

-- ---------------------------------------------------------------------------
-- The wire format
-- ---------------------------------------------------------------------------

abbrev Encoding := Except RpcError (List Byte)

/-- What a raw send of `count` of the given bytes puts on the wire. A count of
`-1` is refused by the call and compares equal to its result. -/
def encodeBytes (bytes : List Byte) (count : Int) : Encoding :=
  if 0 ≤ count then .ok (bytes.take count.toNat)
  else if count = -1 then .ok []
  else .error .errnoSet

def Encoding.append (x y : Encoding) : Encoding := do return (← x) ++ (← y)

def encodeWord (v : Word) : Encoding := .ok v.bytes

def encodeString (str : CharPtr) : Encoding :=
  let length : Word := BitVec.ofNat 32 str.bytes.length
  (encodeWord length).append (encodeBytes str.bytes length.toInt)

def encodeEach (encode : α → Encoding) : List α → Encoding
  | [] => .ok []
  | x :: xs => (encode x).append (encodeEach encode xs)

def ArrayArg.encodeElems (a : ArrayArg) : Encoding :=
  let n := a.size.toInt
  match a with
  | .chars es => encodeBytes es n
  | .booleans es | .int32s es | .uint32s es => encodeEach encodeWord (es.take n.toNat)
  | .strings es => encodeEach encodeString (es.take n.toNat)

def ArrayArg.encode (a : ArrayArg) : Encoding :=
  (encodeWord a.type.code).append ((encodeWord a.size).append a.encodeElems)

def Arg.encodeValue : Arg → Encoding
  | .char c => .ok [c]
  | .boolean v | .int32 v | .uint32 v => encodeWord v
  | .string str => encodeString str
  | .array a => a.encode

def Arg.encode (a : Arg) : Encoding := (encodeWord a.type.code).append a.encodeValue

-- ---------------------------------------------------------------------------
-- The buffered sender emits the encoding
-- ---------------------------------------------------------------------------

/-- What the receiver will have seen once the buffer is flushed. -/
def Message.stream (m : Message) : List Byte := m.sent ++ m.buffer

/-- The sender `f` appends the encoding `enc` to the stream, or fails with it. -/
def Emits (f : Message → Except RpcError Message) (enc : Encoding) : Prop :=
  ∀ m, (∀ bs, enc = .ok bs → ∃ m', f m = .ok m' ∧ m'.stream = m.stream ++ bs) ∧
    ∀ e, enc = .error e → f m = .error e

theorem Emits.ok (h : ∀ m, ∃ m', f m = .ok m' ∧ m'.stream = m.stream ++ bs) :
    Emits f (.ok bs) := by
  intro m
  refine ⟨fun bs' hb => ?_, by simp⟩
  cases hb
  exact h m

theorem Emits.bind {enc enc' : Encoding} (hf : Emits f enc) (hg : Emits g enc') :
    Emits (fun m => f m >>= g) (enc.append enc') := by
  intro m
  cases enc with
  | error e => simp [Encoding.append, (hf m).2 e rfl]
  | ok bs =>
    obtain ⟨m', hm, hs⟩ := (hf m).1 bs rfl
    cases enc' with
    | error e => simp [Encoding.append, hm, (hg m').2 e rfl]
    | ok bs' =>
      obtain ⟨m'', hm', hs'⟩ := (hg m').1 bs' rfl
      simp [Encoding.append, hm, hm', hs', hs]

theorem Emits.foldlM {f : Message → α → Except RpcError Message} (h : ∀ x, Emits (f · x) (enc x))
    (xs : List α) : Emits (fun m => xs.foldlM f m) (encodeEach enc xs) := by
  induction xs with
  | nil => exact Emits.ok fun m => ⟨m, rfl, by simp⟩
  | cons x xs ih =>
    simp only [List.foldlM_cons]
    exact (h x).bind ih

theorem flush_spec (m : Message) :
    ∃ m', m.flush = .ok m' ∧ m'.val.sent = m.stream := by
  refine ⟨⟨⟨[], m.stream, by simp⟩, rfl⟩, ?_, rfl⟩
  simp [Message.flush, Message.sendBytesRaw, send, Message.stream]

theorem sendValue_emits (bs : List Byte) (h : bs.length ≤ bufSiz) :
    Emits (·.sendValue bs h) (.ok bs) := by
  refine Emits.ok fun m => ?_
  simp only [Message.sendValue]
  split
  · obtain ⟨⟨m', hb⟩, hm, hs⟩ := flush_spec m
    refine ⟨_, by rw [hm]; rfl, ?_⟩
    simp_all [Message.stream, Message.sendBytesBuffered]
  · exact ⟨_, rfl, by simp [Message.stream, Message.sendBytesBuffered]⟩

theorem sendInt32_emits (v : Word) : Emits (·.sendInt32 v) (encodeWord v) :=
  sendValue_emits _ _

theorem sendUint32_emits (v : Word) : Emits (·.sendUint32 v) (encodeWord v) :=
  sendValue_emits _ _

/-- The side path of strings and character arrays: flush, then send raw. -/
theorem flush_sendBytesRaw_emits (bs : List Byte) (count : Int) :
    Emits (fun m => do (← m.flush).val.sendBytesRaw bs count) (encodeBytes bs count) := by
  intro m
  obtain ⟨⟨m', hb⟩, hm, hs⟩ := flush_spec m
  simp only at hs
  simp only [hm, Except.ok_bind, encodeBytes, Message.sendBytesRaw, send]
  by_cases hc : 0 ≤ count
  · simp [hc, Message.stream, hb, hs]
  · by_cases h1 : count = -1
    · simp [h1, Message.stream, hb, hs]
    · simp [hc, h1, Ne.symm h1]

theorem sendString_emits (str : CharPtr) : Emits (·.sendString str) (encodeString str) :=
  (sendValue_emits _ _).bind (flush_sendBytesRaw_emits _ _)

theorem sendElems_emits (a : ArrayArg) : Emits (·.sendElems a a.size.toInt) a.encodeElems := by
  cases a with
  | chars es => exact flush_sendBytesRaw_emits _ _
  | booleans es => exact Emits.foldlM sendInt32_emits _
  | int32s es => exact Emits.foldlM sendInt32_emits _
  | uint32s es => exact Emits.foldlM sendUint32_emits _
  | strings es => exact Emits.foldlM sendString_emits _

theorem sendArray_emits (a : ArrayArg) : Emits (·.sendArray a) a.encode :=
  (sendInt32_emits _).bind ((sendUint32_emits _).bind (sendElems_emits a))

theorem sendArgValue_emits (a : Arg) : Emits (·.sendArgValue a) a.encodeValue := by
  cases a with
  | char c => exact sendValue_emits [c] (by simp [bufSiz])
  | boolean v => exact sendInt32_emits _
  | int32 v => exact sendInt32_emits _
  | uint32 v => exact sendUint32_emits _
  | string str => exact sendString_emits _
  | array a => exact sendArray_emits _

theorem sendArg_emits (a : Arg) : Emits (·.sendArg a) a.encode :=
  (sendInt32_emits _).bind (sendArgValue_emits a)

theorem sendArgs_emits (args : List Arg) : Emits (·.sendArgs args) (encodeEach Arg.encode args) :=
  Emits.foldlM sendArg_emits args

-- ---------------------------------------------------------------------------
-- Reading what was sent
-- ---------------------------------------------------------------------------

/-- The receiver `f` reads the bytes `bs` off the stream and returns `v`,
however the reads are split. -/
def Receives (f : Recv α) (bs : List Byte) (v : α) : Prop :=
  ∀ script rest, ∃ script', script' <:+ script ∧
    f ⟨bs ++ rest, script⟩ = .ok (v, ⟨rest, script'⟩)

theorem Receives.pure (v : α) : Receives (Pure.pure v) [] v :=
  fun script _ => ⟨script, List.suffix_rfl, rfl⟩

theorem Receives.bind {f : Recv α} {g : α → Recv β} (hf : Receives f bs v)
    (hg : Receives (g v) bs' w) : Receives (f >>= g) (bs ++ bs') w := by
  intro script rest
  obtain ⟨script₁, hsuf₁, hrun₁⟩ := hf script (bs' ++ rest)
  obtain ⟨script₂, hsuf₂, hrun₂⟩ := hg script₁ rest
  refine ⟨script₂, hsuf₂.trans hsuf₁, ?_⟩
  rw [List.append_assoc, StateT.bind_apply, hrun₁, Except.ok_bind, hrun₂]

theorem Receives.map {f : Recv α} (hf : Receives f bs v) (g : α → β) :
    Receives (do return g (← f)) bs (g v) := by
  simpa using hf.bind (g := fun x => Pure.pure (g x)) (Receives.pure (g v))

theorem Receives.each {elem : Recv α} {enc : α → List Byte} {val : α → α} {xs : List α}
    (h : ∀ x ∈ xs, Receives elem (enc x) (val x)) :
    Receives (recvEach elem xs.length) (xs.flatMap enc) (xs.map val) := by
  induction xs with
  | nil => exact Receives.pure _
  | cons x xs ih =>
    have hx := h x (List.mem_cons_self ..)
    have hxs := ih fun y hy => h y (List.mem_cons_of_mem _ hy)
    exact hx.bind (hxs.map (val x :: ·))

theorem recvBytesLoop_bytes (h : s.recv count = (.bytes (b :: bs), s')) :
    recvBytesLoop s count =
      if 0 < count - (b :: bs).length then do
        let (rest, s'') ← recvBytesLoop s' (count - (b :: bs).length)
        return (b :: bs ++ rest, s'')
      else
        return (b :: bs, s') := by
  rw [recvBytesLoop]
  split <;> simp_all

theorem recvBytesLoop_interrupted (h : s.recv count = (.interrupted, s')) :
    recvBytesLoop s count = if 0 < count then recvBytesLoop s' count else return ([], s') := by
  rw [recvBytesLoop]
  split <;> simp_all

theorem recvBytesLoop_empty (h : s.recv count = (.bytes [], s')) :
    recvBytesLoop s count = .error .errnoSet := by
  rw [recvBytesLoop]
  split <;> simp_all

/-- Partial reads add up: the loop returns the first `count` bytes. -/
theorem recvBytesLoop_receives (script : List RecvStep) (bs rest : List Byte) (hb : bs ≠ []) :
    ∃ script', script' <:+ script ∧
      recvBytesLoop ⟨bs ++ rest, script⟩ bs.length = .ok (bs, ⟨rest, script'⟩) := by
  obtain ⟨b, bs, rfl⟩ := List.exists_cons_of_ne_nil hb
  induction script generalizing b bs with
  | nil =>
    have hrecv : Socket.recv ⟨b :: bs ++ rest, []⟩ (b :: bs).length =
        (.bytes (b :: bs), ⟨rest, []⟩) := by
      simp [Socket.recv, Socket.take]
    refine ⟨[], List.suffix_rfl, ?_⟩
    rw [recvBytesLoop_bytes hrecv]
    simp
  | cons step script ih =>
    cases step with
    | eintr =>
      obtain ⟨script', hsuf, hrun⟩ := ih b bs (by simp)
      refine ⟨script', hsuf.trans (List.suffix_cons _ _), ?_⟩
      have hrecv : Socket.recv ⟨b :: bs ++ rest, .eintr :: script⟩ (b :: bs).length =
          (.interrupted, ⟨b :: bs ++ rest, script⟩) := rfl
      rw [recvBytesLoop_interrupted hrecv]
      simpa using hrun
    | chunk n =>
      obtain ⟨k, hk⟩ : ∃ k, min (max 1 n) (bs.length + 1) = k + 1 :=
        ⟨min (max 1 n) (bs.length + 1) - 1, by omega⟩
      have hle : k ≤ bs.length := by omega
      have hrecv : Socket.recv ⟨b :: bs ++ rest, .chunk n :: script⟩ (b :: bs).length =
          (.bytes (b :: bs.take k), ⟨bs.drop k ++ rest, script⟩) := by
        simp [Socket.recv, Socket.take, hk, List.take_append_of_le_length hle,
          List.drop_append_of_le_length hle]
      have hlen : (b :: bs).length - (b :: bs.take k).length = (bs.drop k).length := by
        simp [Nat.min_eq_left hle]
      rw [recvBytesLoop_bytes hrecv, hlen]
      cases hrest : bs.drop k with
      | nil =>
        refine ⟨script, List.suffix_cons _ _, ?_⟩
        have hall : bs.take k = bs := List.take_of_length_le (by simpa using hrest)
        simp [hall]
      | cons c cs =>
        -- a short read: the rest of the bytes is still in the stream
        obtain ⟨script', hsuf, hrun⟩ := ih c cs (by simp)
        refine ⟨script', hsuf.trans (List.suffix_cons _ _), ?_⟩
        rw [if_pos (by simp), hrun, ← hrest]
        simp

theorem recvBytes_receives (bs : List Byte) (hb : bs ≠ []) :
    Receives (recvBytes bs.length) bs bs :=
  fun script rest => recvBytesLoop_receives script bs rest hb

theorem recvChar_receives (c : Byte) : Receives recvChar [c] c :=
  (recvBytes_receives [c] (by simp)).bind (Receives.pure c)

theorem recvInt32_receives (v : Word) : Receives recvInt32 v.bytes v := by
  rw [← List.append_nil v.bytes]
  refine (recvBytes_receives v.bytes (by simp [Word.bytes])).bind ?_
  simpa only [Word.bytes, Word.ofBytes_bytes] using Receives.pure v

-- ---------------------------------------------------------------------------
-- Arguments the code can carry
-- ---------------------------------------------------------------------------

/-- The length is an `int`. -/
def CharPtr.Fits (str : CharPtr) : Prop := str.bytes.length < 2 ^ 31

def ArrayArg.Fits (a : ArrayArg) : Prop :=
  a.length < 2 ^ 31 ∧ match a with
    | .strings es => ∀ str ∈ es, CharPtr.Fits str
    | _ => True

def Arg.Fits : Arg → Prop
  | .string str => str.Fits
  | .array a => a.Fits
  | _ => True

def CharPtr.wire (str : CharPtr) : List Byte :=
  Word.bytes (BitVec.ofNat 32 str.bytes.length) ++ str.bytes

def ArrayArg.elemsWire : ArrayArg → List Byte
  | .chars es => es
  | .booleans es | .int32s es | .uint32s es => es.flatMap Word.bytes
  | .strings es => es.flatMap CharPtr.wire

/-- The complete encoding of the value, nothing truncated. -/
def Arg.valueWire : Arg → List Byte
  | .char c => [c]
  | .boolean v | .int32 v | .uint32 v => v.bytes
  | .string str => str.wire
  | .array a => a.type.code.bytes ++ (a.size.bytes ++ a.elemsWire)

def Arg.wire (a : Arg) : List Byte := a.type.code.bytes ++ a.valueWire

/-- An empty string comes back as a null pointer. -/
def CharPtr.received (str : CharPtr) : CharPtr :=
  if str.bytes = [] then none else str

def ArrayArg.received : ArrayArg → ArrayArg
  | .strings es => .strings (es.map CharPtr.received)
  | a => a

def Arg.received : Arg → Arg
  | .string str => .string str.received
  | .array a => .array a.received
  | a => a

-- ---------------------------------------------------------------------------
-- The sender on them
-- ---------------------------------------------------------------------------

@[simp] theorem Encoding.ok_append_ok (x y : List Byte) :
    Encoding.append (.ok x) (.ok y) = .ok (x ++ y) := rfl

theorem toInt_ofNat_of_lt (h : n < 2 ^ 31) : (BitVec.ofNat 32 n).toInt = n := by
  rw [BitVec.toInt_eq_toNat_of_lt] <;> simp <;> omega

theorem encodeBytes_ok (h : bs.length < 2 ^ 31) :
    encodeBytes bs (BitVec.ofNat 32 bs.length).toInt = .ok bs := by
  rw [toInt_ofNat_of_lt h]
  simp [encodeBytes]

theorem encodeEach_ok {encode : α → Encoding} {xs : List α} (h : ∀ x ∈ xs, encode x = .ok (wire x)) :
    encodeEach encode xs = .ok (xs.flatMap wire) := by
  induction xs with
  | nil => rfl
  | cons x xs ih =>
    have hxs := ih fun y hy => h y (List.mem_cons_of_mem _ hy)
    simp [encodeEach, h x (List.mem_cons_self ..), hxs]

theorem encodeString_ok (h : CharPtr.Fits str) : encodeString str = .ok str.wire := by
  simp [encodeString, encodeBytes_ok h, encodeWord, CharPtr.wire]

theorem ArrayArg.encodeElems_ok {a : ArrayArg} (h : a.Fits) : a.encodeElems = .ok a.elemsWire := by
  obtain ⟨hlen, helems⟩ := h
  have hn : a.size.toInt.toNat = a.length := by simp [ArrayArg.size, toInt_ofNat_of_lt hlen]
  cases a with
  | chars es => exact encodeBytes_ok hlen
  | strings es =>
    simp only [ArrayArg.encodeElems, hn, ArrayArg.length, List.take_length]
    exact encodeEach_ok fun str hs => encodeString_ok (helems str hs)
  | _ es =>
    simp only [ArrayArg.encodeElems, hn, ArrayArg.length, List.take_length]
    exact encodeEach_ok fun _ _ => rfl

theorem Arg.encode_ok {a : Arg} (h : a.Fits) : a.encode = .ok a.wire := by
  have hv : a.encodeValue = .ok a.valueWire := by
    cases a with
    | string str => exact encodeString_ok h
    | array a =>
      simp [Arg.encodeValue, ArrayArg.encode, ArrayArg.encodeElems_ok h, encodeWord, Arg.valueWire]
    | _ => rfl
  simp [Arg.encode, hv, encodeWord, Arg.wire]

-- ---------------------------------------------------------------------------
-- The receiver on them
-- ---------------------------------------------------------------------------

theorem recvString_receives (h : CharPtr.Fits str) : Receives recvString str.wire str.received := by
  refine (recvInt32_receives _).bind ?_
  simp only [toInt_ofNat_of_lt h]
  by_cases hb : str.bytes = []
  · simpa [hb, CharPtr.received] using Receives.pure none
  · obtain ⟨s, rfl⟩ : ∃ s, str = some s := by
      cases str with
      | none => exact absurd rfl hb
      | some s => exact ⟨s, rfl⟩
    have hlen : ((CharPtr.bytes (some s)).length : Int) ≠ 0 := by
      simpa using hb
    have hm : ¬ ((CharPtr.bytes (some s)).length : Int) + 1 < 0 := by omega
    simp only [hlen, if_false, malloc, hm, CharPtr.received, hb]
    have hs := (recvBytes_receives _ hb).map (fun bs => some (CString.ofBuffer bs))
    simpa [CharPtr.bytes, CString.ofBuffer_bytes] using hs

theorem recvArray_receives {a : ArrayArg} (h : a.Fits) (hne : a ≠ .chars []) :
    Receives recvArray (a.type.code.bytes ++ (a.size.bytes ++ a.elemsWire)) a.received := by
  refine (recvInt32_receives _).bind ((recvInt32_receives _).bind ?_)
  obtain ⟨hlen, helems⟩ := h
  have hnat : a.size.toNat = a.length := by
    simp only [ArrayArg.size, BitVec.toNat_ofNat]
    omega
  have hint : a.size.toInt = a.length := toInt_ofNat_of_lt hlen
  have hwords (es : List Word) : Receives (recvEach recvInt32 es.length) (es.flatMap Word.bytes) es := by
    have h := Receives.each fun v (_ : v ∈ es) => recvInt32_receives v
    rwa [List.map_id'] at h
  rw [hnat, hint]
  cases a with
  | chars es => exact (recvBytes_receives es (by simpa using hne)).map ArrayArg.chars
  | booleans es => exact (hwords es).map ArrayArg.booleans
  | int32s es => exact (hwords es).map ArrayArg.int32s
  | uint32s es => exact (hwords es).map ArrayArg.uint32s
  | strings es =>
    exact (Receives.each fun str hs => recvString_receives (helems str hs)).map ArrayArg.strings

theorem recvArg_receives {a : Arg} (h : a.Fits) (hne : a ≠ .array (.chars [])) :
    Receives (recvArg a.type) a.wire a.received := by
  refine (recvInt32_receives _).bind ?_
  simp only [ne_eq, not_true_eq_false, if_false]
  cases a with
  | char c => exact (recvChar_receives c).map Arg.char
  | boolean v => exact (recvInt32_receives v).map Arg.boolean
  | int32 v => exact (recvInt32_receives v).map Arg.int32
  | uint32 v => exact (recvInt32_receives v).map Arg.uint32
  | string str => exact (recvString_receives h).map Arg.string
  | array a => exact (recvArray_receives h (by simpa using hne)).map Arg.array

theorem recvArgs_receives {args : List Arg}
    (h : ∀ a ∈ args, a.Fits ∧ a ≠ .array (.chars [])) :
    Receives (recvArgs (args.map Arg.type)) (args.flatMap Arg.wire) (args.map Arg.received) := by
  induction args with
  | nil => exact Receives.pure _
  | cons a args ih =>
    have ha := h a (List.mem_cons_self ..)
    have hargs := ih fun b hb => h b (List.mem_cons_of_mem _ hb)
    exact (recvArg_receives ha.1 ha.2).bind (hargs.map (a.received :: ·))

-- ---------------------------------------------------------------------------
-- An empty array of characters is refused
-- ---------------------------------------------------------------------------

/-- With full reads the receiver fails on the bytes `bs`. -/
def Refuses (f : Recv α) (bs : List Byte) : Prop :=
  ∀ rest, f ⟨bs ++ rest, []⟩ = .error .errnoSet

theorem Refuses.bind {f : Recv α} (hf : Refuses f bs) (g : α → Recv β) : Refuses (f >>= g) bs := by
  intro rest
  rw [StateT.bind_apply, hf rest, Except.error_bind]

theorem Receives.bind_refuses {f : Recv α} {g : α → Recv β} (hf : Receives f bs v)
    (hg : Refuses (g v) bs') : Refuses (f >>= g) (bs ++ bs') := by
  intro rest
  obtain ⟨script', hsuf, hrun⟩ := hf [] (bs' ++ rest)
  rw [List.suffix_nil.mp hsuf] at hrun
  rw [List.append_assoc, StateT.bind_apply, hrun, Except.ok_bind, hg rest]

theorem recvBytes_zero_refuses : Refuses (recvBytes 0) [] :=
  fun _ => recvBytesLoop_empty rfl

theorem recvArg_emptyChars_refuses :
    Refuses (recvArg (Arg.array (.chars [])).type) (Arg.array (.chars [])).wire := by
  have harray : Refuses recvArray (RpcType.char.code.bytes ++ (Word.bytes 0 ++ [])) := by
    refine (recvInt32_receives _).bind_refuses ((recvInt32_receives 0).bind_refuses ?_)
    exact recvBytes_zero_refuses.bind _
  refine (recvInt32_receives _).bind_refuses ?_
  simp only [ne_eq, not_true_eq_false, if_false]
  exact harray.bind _

theorem recvArgs_emptyChars_refuses {args : List Arg} (h : ∀ a ∈ args, a.Fits)
    (hmem : Arg.array (.chars []) ∈ args) :
    Refuses (recvArgs (args.map Arg.type)) (args.flatMap Arg.wire) := by
  induction args with
  | nil => simp at hmem
  | cons a args ih =>
    have hargs := ih fun b hb => h b (List.mem_cons_of_mem _ hb)
    by_cases ha : a = .array (.chars [])
    · subst ha
      intro rest
      rw [List.flatMap_cons, List.append_assoc]
      exact recvArg_emptyChars_refuses.bind _ _
    · have hmem' := (List.mem_cons.mp hmem).resolve_left (Ne.symm ha)
      exact (recvArg_receives (h a (List.mem_cons_self ..)) ha).bind_refuses
        ((hargs hmem').bind _)

-- ---------------------------------------------------------------------------
-- A truncated length sends less than a receiver needs
-- ---------------------------------------------------------------------------

/-- A successful run of `f` takes at least `size` of its result off the stream. -/
def Consumes (f : Recv α) (size : α → Nat) : Prop :=
  ∀ s v s', f s = .ok (v, s') → size v + s'.inbox.length ≤ s.inbox.length

theorem Consumes.pure {size : α → Nat} (h : size v = 0) :
    Consumes (Pure.pure v : Recv α) size := by
  intro s w s' hrun
  cases hrun
  simp [h]

theorem Consumes.throw (e : RpcError) : Consumes (throw e : Recv α) size := by
  intro s v s' hrun
  cases hrun

theorem Consumes.bind {f : Recv α} {g : α → Recv β} {size : α → Nat} {size' : β → Nat}
    (hf : Consumes f size) (hg : ∀ v, Consumes (g v) fun w => size' w - size v) :
    Consumes (f >>= g) size' := by
  intro s w s' hrun
  obtain ⟨v, s₁, h₁, h₂⟩ := StateT.bind_eq_ok.mp hrun
  have hsize := hf _ _ _ h₁
  have hsize' := hg _ _ _ _ h₂
  simp only at hsize'
  omega

theorem Consumes.map {f : Recv α} {g : α → β} {size : α → Nat} {size' : β → Nat}
    (hf : Consumes f size) (h : ∀ v, size' (g v) ≤ size v) : Consumes (do return g (← f)) size' := by
  refine hf.bind fun v => Consumes.pure ?_
  have := h v
  omega

theorem Consumes.each {elem : Recv α} {size : α → List Byte}
    (h : Consumes elem fun v => (size v).length) (n : Nat) :
    Consumes (recvEach elem n) fun vs => (vs.flatMap size).length := by
  induction n with
  | zero => exact Consumes.pure rfl
  | succ n ih =>
    refine h.bind fun v => ih.map fun vs => ?_
    simp

theorem recv_bytes_inbox {s s' : Socket} (h : s.recv count = (.bytes bs, s')) :
    bs ++ s'.inbox = s.inbox := by
  unfold Socket.recv at h
  split at h <;> simp [Socket.take] at h
  all_goals
    obtain ⟨rfl, rfl⟩ := h
    simp

theorem recv_interrupted_inbox {s s' : Socket} (h : s.recv count = (.interrupted, s')) :
    s'.inbox = s.inbox := by
  unfold Socket.recv at h
  split at h <;> simp [Socket.take] at h
  rw [← h]

theorem recvBytesLoop_consumes (s : Socket) (count : Nat)
    (h : recvBytesLoop s count = .ok (bs, s')) : bs ++ s'.inbox = s.inbox := by
  fun_induction recvBytesLoop s count generalizing bs s' with
  | case1 s count b bs₁ s₁ hrecv hc ih =>
    obtain ⟨⟨rest, s₂⟩, hrest, hout⟩ := Except.bind_eq_ok.mp h
    cases hout
    rw [← recv_bytes_inbox hrecv, ← ih hrest]
    simp
  | case2 s count b bs₁ s₁ hrecv hc =>
    cases h
    exact recv_bytes_inbox hrecv
  | case3 s count s₁ hrecv hc ih => rw [ih h, recv_interrupted_inbox hrecv]
  | case4 s count s₁ hrecv hc =>
    cases h
    exact recv_interrupted_inbox hrecv
  | case5 s count s₁ hrecv => simp at h

theorem recvBytes_consumes (count : Int) : Consumes (recvBytes count) List.length := by
  intro s bs s' h
  unfold recvBytes at h
  split at h
  · rw [← recvBytesLoop_consumes s _ h, List.length_append]
  · cases h

theorem recvChar_consumes : Consumes recvChar fun _ => 1 := by
  refine (recvBytes_consumes 1).bind fun bs => ?_
  split
  · exact Consumes.pure rfl
  · exact Consumes.throw _

theorem recvInt32_consumes : Consumes recvInt32 fun v => v.bytes.length := by
  refine (recvBytes_consumes 4).bind fun bs => ?_
  split
  · exact Consumes.pure rfl
  · exact Consumes.throw _

theorem malloc_consumes (n : Int) : Consumes (malloc n) fun _ => 0 := by
  unfold malloc
  split
  · exact Consumes.throw _
  · exact Consumes.pure rfl

theorem recvString_consumes : Consumes recvString fun str => str.wire.length := by
  refine recvInt32_consumes.bind fun v => ?_
  simp only
  split
  · exact Consumes.pure rfl
  · refine (malloc_consumes _).bind fun _ => ?_
    · refine (recvBytes_consumes _).map fun bs => ?_
      have := (List.takeWhile_prefix (l := bs) (· ≠ 0)).length_le
      simpa [CharPtr.wire, CharPtr.bytes, CString.ofBuffer] using this

theorem recvArray_consumes :
    Consumes recvArray fun a => a.type.code.bytes.length + (a.size.bytes ++ a.elemsWire).length := by
  refine recvInt32_consumes.bind fun _ => recvInt32_consumes.bind fun n => ?_
  have hwords : Consumes (recvEach recvInt32 n.toNat) fun vs => (vs.flatMap Word.bytes).length :=
    recvInt32_consumes.each _
  split
  · exact (recvBytes_consumes _).map fun _ => by simp [ArrayArg.elemsWire]
  split
  · exact hwords.map fun _ => by simp [ArrayArg.elemsWire]
  split
  · exact hwords.map fun _ => by simp [ArrayArg.elemsWire]
  split
  · exact hwords.map fun _ => by simp [ArrayArg.elemsWire]
  split
  · exact (recvString_consumes.each _).map fun _ => by simp [ArrayArg.elemsWire]
  · exact Consumes.throw _

theorem recvArg_consumes (t : RpcType) : Consumes (recvArg t) fun a => a.wire.length := by
  refine recvInt32_consumes.bind fun v => ?_
  split
  · exact Consumes.throw _
  cases t with
  | char => exact recvChar_consumes.map fun _ => by simp [Arg.wire, Arg.valueWire]
  | boolean => exact recvInt32_consumes.map fun _ => by simp [Arg.wire, Arg.valueWire]
  | int32 => exact recvInt32_consumes.map fun _ => by simp [Arg.wire, Arg.valueWire]
  | uint32 => exact recvInt32_consumes.map fun _ => by simp [Arg.wire, Arg.valueWire]
  | string => exact recvString_consumes.map fun _ => by simp [Arg.wire, Arg.valueWire]
  | array => exact recvArray_consumes.map fun _ => by simp [Arg.wire, Arg.valueWire]

theorem recvArgs_consumes (ts : List RpcType) :
    Consumes (recvArgs ts) fun args => (args.flatMap Arg.wire).length := by
  induction ts with
  | nil => exact Consumes.pure rfl
  | cons t ts ih => exact (recvArg_consumes t).bind fun a => ih.map fun as => by simp

def Encoding.Within (x : Encoding) (n : Nat) : Prop := ∀ bs, x = .ok bs → bs.length ≤ n

def Encoding.Short (x : Encoding) (n : Nat) : Prop := ∀ bs, x = .ok bs → bs.length < n

theorem Encoding.append_eq_ok {x y : Encoding} (h : x.append y = .ok bs) :
    ∃ bx, x = .ok bx ∧ ∃ by', y = .ok by' ∧ bs = bx ++ by' := by
  obtain ⟨bx, hx, h⟩ := Except.bind_eq_ok.mp h
  obtain ⟨by', hy, h⟩ := Except.bind_eq_ok.mp h
  cases h
  exact ⟨bx, hx, by', hy, rfl⟩

theorem Encoding.Within.append {x y : Encoding} (hx : x.Within m) (hy : y.Within n) :
    (x.append y).Within (m + n) := by
  intro bs h
  obtain ⟨bx, h₁, by', h₂, rfl⟩ := Encoding.append_eq_ok h
  have := hx _ h₁
  have := hy _ h₂
  simp only [List.length_append]
  omega

theorem Encoding.Short.append {x y : Encoding} (hx : x.Within m) (hy : y.Within n)
    (h : x.Short m ∨ y.Short n) : (x.append y).Short (m + n) := by
  intro bs he
  obtain ⟨bx, h₁, by', h₂, rfl⟩ := Encoding.append_eq_ok he
  have := hx _ h₁
  have := hy _ h₂
  simp only [List.length_append]
  rcases h with h | h
  · have := h _ h₁
    omega
  · have := h _ h₂
    omega

theorem encodeWord_within (v : Word) : (encodeWord v).Within v.bytes.length := by
  intro bs h
  cases h
  exact Nat.le_refl _

theorem encodeEach_within {encode : α → Encoding} {wire : α → List Byte} {xs : List α}
    (h : ∀ x ∈ xs, (encode x).Within (wire x).length) :
    (encodeEach encode xs).Within (xs.flatMap wire).length := by
  induction xs with
  | nil => intro bs h; cases h; simp
  | cons x xs ih =>
    rw [List.flatMap_cons, List.length_append]
    exact (h x (List.mem_cons_self ..)).append (ih fun y hy => h y (List.mem_cons_of_mem _ hy))

theorem encodeEach_short {encode : α → Encoding} {wire : α → List Byte} {xs : List α}
    (h : ∀ x ∈ xs, (encode x).Within (wire x).length)
    (hs : ∃ x ∈ xs, (encode x).Short (wire x).length) :
    (encodeEach encode xs).Short (xs.flatMap wire).length := by
  induction xs with
  | nil => simp at hs
  | cons x xs ih =>
    have hxs := fun y hy => h y (List.mem_cons_of_mem _ hy)
    rw [List.flatMap_cons, List.length_append]
    refine Encoding.Short.append (h x (List.mem_cons_self ..)) (encodeEach_within hxs) ?_
    obtain ⟨y, hy, hshort⟩ := hs
    rcases List.mem_cons.mp hy with rfl | hy
    · exact .inl hshort
    · exact .inr (ih hxs ⟨y, hy, hshort⟩)

theorem toInt_toNat_lt (v : Word) : v.toInt.toNat < 2 ^ 31 := by
  have := BitVec.toInt_lt (x := v)
  omega

theorem encodeBytes_within (bs : List Byte) (count : Int) :
    (encodeBytes bs count).Within bs.length := by
  intro out h
  unfold encodeBytes at h
  split at h
  · cases h
    simp
  split at h <;> cases h
  simp

theorem encodeBytes_short (v : Word) (h : 2 ^ 31 ≤ bs.length) :
    (encodeBytes bs v.toInt).Short bs.length := by
  intro out hout
  have := toInt_toNat_lt v
  unfold encodeBytes at hout
  split at hout
  · cases hout
    simp only [List.length_take]
    omega
  split at hout <;> cases hout
  simp only [List.length_nil]
  omega

theorem encodeString_within (str : CharPtr) : (encodeString str).Within str.wire.length := by
  rw [CharPtr.wire, List.length_append]
  exact (encodeWord_within _).append (encodeBytes_within _ _)

theorem encodeString_short (h : ¬ CharPtr.Fits str) : (encodeString str).Short str.wire.length := by
  rw [CharPtr.wire, List.length_append]
  refine Encoding.Short.append (encodeWord_within _) (encodeBytes_within _ _) (.inr ?_)
  exact encodeBytes_short _ (Nat.le_of_not_lt h)

/-- Sending only a part of an array whose elements take room is short. -/
theorem flatMap_take_short {wire : α → List Byte} (hw : ∀ x, 0 < (wire x).length) (xs : List α)
    (h : n < xs.length) : ((xs.take n).flatMap wire).length < (xs.flatMap wire).length := by
  obtain ⟨y, ys, hys⟩ := List.exists_cons_of_ne_nil (l := xs.drop n) (by simpa using h)
  conv_rhs => rw [← List.take_append_drop n xs, hys]
  have := hw y
  simp only [List.flatMap_append, List.flatMap_cons, List.length_append]
  omega

theorem encodeElems_within (a : ArrayArg) : a.encodeElems.Within a.elemsWire.length := by
  have htake {β : Type} {encode : β → Encoding} {wire : β → List Byte} (n : Nat) (es : List β)
      (h : ∀ x, (encode x).Within (wire x).length) :
      (encodeEach encode (es.take n)).Within (es.flatMap wire).length := by
    intro bs hbs
    refine (encodeEach_within (fun x _ => h x) bs hbs).trans ?_
    conv_rhs => rw [← List.take_append_drop n es, List.flatMap_append, List.length_append]
    exact Nat.le_add_right _ _
  cases a with
  | chars es => exact encodeBytes_within _ _
  | strings es => exact htake _ es encodeString_within
  | _ es => exact htake _ es encodeWord_within

theorem encodeElems_short {a : ArrayArg} (h : ¬ a.Fits) :
    a.encodeElems.Short a.elemsWire.length := by
  by_cases hlen : a.length < 2 ^ 31
  · -- only an element can be too long, so this is an array of strings
    have hn : a.size.toInt.toNat = a.length := by simp [ArrayArg.size, toInt_ofNat_of_lt hlen]
    cases a with
    | strings es =>
      obtain ⟨str, hmem, hstr⟩ : ∃ str ∈ es, ¬ CharPtr.Fits str := by
        by_contra hall
        push Not at hall
        exact h ⟨hlen, hall⟩
      simp only [ArrayArg.encodeElems, hn, ArrayArg.length, List.take_length]
      exact encodeEach_short (fun x _ => encodeString_within x)
        ⟨str, hmem, encodeString_short hstr⟩
    | _ es => exact absurd ⟨hlen, trivial⟩ h
  · have hn : a.size.toInt.toNat < a.length :=
      (toInt_toNat_lt _).trans_le (Nat.le_of_not_lt hlen)
    have htake {β : Type} {encode : β → Encoding} {wire : β → List Byte} {n : Nat} {es : List β}
        (hw : ∀ x, 0 < (wire x).length) (h : ∀ x, (encode x).Within (wire x).length)
        (hn : n < es.length) : (encodeEach encode (es.take n)).Short (es.flatMap wire).length :=
      fun bs hbs => (encodeEach_within (fun x _ => h x) bs hbs).trans_lt
        (flatMap_take_short hw es hn)
    cases a with
    | chars es => exact encodeBytes_short _ (Nat.le_of_not_lt hlen)
    | strings es =>
      have hw (str : CharPtr) : 0 < str.wire.length := by
        simp only [CharPtr.wire, List.length_append, Word.length_bytes]
        omega
      exact htake hw encodeString_within hn
    | _ es => exact htake (fun v => by simp) encodeWord_within hn

theorem encodeArray_within (a : ArrayArg) :
    a.encode.Within (a.type.code.bytes ++ (a.size.bytes ++ a.elemsWire)).length := by
  simp only [List.length_append]
  exact (encodeWord_within _).append ((encodeWord_within _).append (encodeElems_within a))

theorem encodeValue_within (a : Arg) : a.encodeValue.Within a.valueWire.length := by
  cases a with
  | char c => intro bs h; cases h; simp [Arg.valueWire]
  | string str => exact encodeString_within str
  | array a => exact encodeArray_within a
  | _ v => exact encodeWord_within v

theorem encode_within (a : Arg) : a.encode.Within a.wire.length := by
  rw [Arg.wire, List.length_append]
  exact (encodeWord_within _).append (encodeValue_within a)

theorem encode_short {a : Arg} (h : ¬ a.Fits) : a.encode.Short a.wire.length := by
  have hv : a.encodeValue.Short a.valueWire.length := by
    cases a with
    | string str => exact encodeString_short h
    | array a =>
      have helems := Encoding.Short.append (encodeWord_within a.size) (encodeElems_within a)
        (.inr (encodeElems_short h))
      simp only [Arg.valueWire, List.length_append]
      exact Encoding.Short.append (encodeWord_within _)
        ((encodeWord_within _).append (encodeElems_within a)) (.inr helems)
    | _ => exact absurd trivial h
  rw [Arg.wire, List.length_append]
  exact Encoding.Short.append (encodeWord_within _) (encodeValue_within a) (.inr hv)

theorem bytes_received (str : CharPtr) : str.received.bytes = str.bytes := by
  unfold CharPtr.received
  split
  · next h => exact h.symm
  · rfl

theorem received_received (a : Arg) : a.received.received = a.received := by
  have hstr (str : CharPtr) : str.received.received = str.received := by
    rw [CharPtr.received, bytes_received]
    unfold CharPtr.received
    split <;> rfl
  cases a with
  | string str => simp [Arg.received, hstr]
  | array a =>
    cases a with
    | strings es => simp [Arg.received, ArrayArg.received, hstr]
    | _ => rfl
  | _ => rfl

theorem received_wire (a : Arg) : a.received.wire = a.wire := by
  have hstr (str : CharPtr) : str.received.wire = str.wire := by
    simp only [CharPtr.wire, bytes_received]
  cases a with
  | string str => simp [Arg.received, Arg.wire, Arg.valueWire, Arg.type, hstr]
  | array a =>
    cases a with
    | strings es =>
      simp [Arg.received, ArrayArg.received, Arg.wire, Arg.valueWire, Arg.type, ArrayArg.type,
        ArrayArg.size, ArrayArg.length, ArrayArg.elemsWire, List.flatMap_map, hstr]
    | _ => rfl
  | _ => rfl

-- ---------------------------------------------------------------------------
-- The round trip
-- ---------------------------------------------------------------------------

/-- From any message: sending the arguments and flushing puts some bytes on the
wire, and for every behaviour of the socket the receiver with the matching type
list takes exactly these off it and returns the same values. -/
def RoundTrips (args : List Arg) : Prop :=
  ∀ m : Message, ∃ wire m', (do (← m.sendArgs args).flush) = .ok m' ∧
    m'.val.sent = m.stream ++ wire ∧
    ∀ script rest, ∃ vals script',
      recvArgs (args.map Arg.type) ⟨wire ++ rest, script⟩ = .ok (vals, ⟨rest, script'⟩) ∧
      vals.map Arg.received = args.map Arg.received

theorem sendArgs_flush_spec {args : List Arg} {m : Message}
    (h : (do (← m.sendArgs args).flush) = .ok m') (hs : m'.val.sent = m.stream ++ wire) :
    encodeEach Arg.encode args = .ok wire := by
  obtain ⟨m₁, h₁, h₂⟩ := Except.bind_eq_ok.mp h
  obtain ⟨m₂, hflush, hsent⟩ := flush_spec m₁
  cases henc : encodeEach Arg.encode args with
  | error e =>
    have := (sendArgs_emits args m).2 e henc
    simp only at this
    simp [this] at h₁
  | ok bs =>
    obtain ⟨m₃, h₃, hstream⟩ := (sendArgs_emits args m).1 bs henc
    simp_all

theorem roundTrips_of_carried {args : List Arg}
    (h : ∀ a ∈ args, a.Fits ∧ a ≠ .array (.chars [])) : RoundTrips args := by
  intro m
  have henc : encodeEach Arg.encode args = .ok (args.flatMap Arg.wire) :=
    encodeEach_ok fun a ha => Arg.encode_ok (h a ha).1
  obtain ⟨m₁, h₁, hstream⟩ := (sendArgs_emits args m).1 _ henc
  obtain ⟨m', h₂, hsent⟩ := flush_spec m₁
  refine ⟨args.flatMap Arg.wire, m', ?_, hsent.trans hstream, fun script rest => ?_⟩
  · simp only at h₁
    rw [h₁, Except.ok_bind, h₂]
  · obtain ⟨script', -, hrun⟩ := recvArgs_receives h script rest
    exact ⟨_, script', hrun, by simp [received_received]⟩

theorem not_roundTrips_of_not_fits {args : List Arg} (ha : a ∈ args) (h : ¬ a.Fits) :
    ¬ RoundTrips args := by
  intro hrt
  obtain ⟨wire, m', hsend, hsent, hrecv⟩ := hrt Message.init
  obtain ⟨vals, script', hrun, hvals⟩ := hrecv [] []
  have hshort := encodeEach_short (fun x _ => encode_within x) ⟨a, ha, encode_short h⟩ _
    (sendArgs_flush_spec hsend hsent)
  have hcons := recvArgs_consumes _ _ _ _ hrun
  have hwire (as : List Arg) : as.flatMap Arg.wire = (as.map Arg.received).flatMap Arg.wire := by
    simp [List.flatMap_map, received_wire]
  simp only [hwire vals, hvals, ← hwire args, List.append_nil, List.length_nil] at hcons
  omega

theorem not_roundTrips_of_emptyChars {args : List Arg} (h : ∀ a ∈ args, a.Fits)
    (hmem : Arg.array (.chars []) ∈ args) : ¬ RoundTrips args := by
  intro hrt
  obtain ⟨wire, m', hsend, hsent, hrecv⟩ := hrt Message.init
  obtain ⟨vals, script', hrun, hvals⟩ := hrecv [] []
  have henc : encodeEach Arg.encode args = .ok (args.flatMap Arg.wire) :=
    encodeEach_ok fun a ha => Arg.encode_ok (h a ha)
  rw [sendArgs_flush_spec hsend hsent] at henc
  cases henc
  rw [recvArgs_emptyChars_refuses h hmem []] at hrun
  cases hrun

end SheepShear.Rpc
