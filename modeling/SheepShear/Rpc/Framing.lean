import SheepShear.Lib.Steps
import SheepShear.Rpc.Dispatch

/-!
# Alignment of remote procedure calls

A dispatch takes exactly one message off the socket when a callback for the
method succeeds and has read whole arguments. When none does, nothing skips the
rest of the message, and every later call is read from the middle of it.
-/

namespace SheepShear.Rpc

-- ---------------------------------------------------------------------------
-- Receivers with and without their position
-- ---------------------------------------------------------------------------

/-- Where the receiver `f` succeeds, so does the one that keeps its position. -/
def Keeps (f : Recv α) (g : Reader α) : Prop :=
  ∀ s v s', f s = .ok (v, s') → g s = (.ok v, s')

theorem Reader.bind_ok {f : Reader α} {g : α → Reader β} {s s' : Socket} {a : α}
    (h : f s = (.ok a, s')) : (f >>= g) s = g a s' := by
  simp only [bind, ExceptT.bind, ExceptT.mk, StateT.bind, h, ExceptT.bindCont]

theorem Keeps.pure (v : α) : Keeps (Pure.pure v) (Pure.pure v) := by
  rintro s v s' ⟨rfl⟩
  rfl

theorem Keeps.throw (e : RpcError) : Keeps (throw e : Recv α) (throw e) := by
  rintro s v s' ⟨⟩

theorem Keeps.bind {f : Recv α} {f' : Reader α} {g : α → Recv β} {g' : α → Reader β}
    (hf : Keeps f f') (hg : ∀ a, Keeps (g a) (g' a)) : Keeps (f >>= g) (f' >>= g') := by
  intro s v s' h
  obtain ⟨a, s₁, hfs, hgs⟩ := StateT.bind_eq_ok.mp h
  rw [Reader.bind_ok (hf _ _ _ hfs)]
  exact hg a _ _ _ hgs

theorem Keeps.ite {p : Prop} [Decidable p] {f g : Recv α} {f' g' : Reader α} (hf : Keeps f f')
    (hg : Keeps g g') : Keeps (if p then f else g) (if p then f' else g') := by
  split
  · exact hf
  · exact hg

theorem Keeps.each {elem : Recv α} {elem' : Reader α} (h : Keeps elem elem') (n : Nat) :
    Keeps (recvEach elem n) (Reader.recvEach elem' n) := by
  induction n with
  | zero => exact .pure []
  | succ n ih => exact h.bind fun x => ih.bind fun xs => .pure (x :: xs)

theorem recvBytesLoop_keeps (s : Socket) (count : Nat) :
    ∀ v s', recvBytesLoop s count = .ok (v, s') →
      Reader.recvBytesLoop s count = (.ok v, s') := by
  fun_induction Reader.recvBytesLoop s count with
  | case1 s count b bs s₁ hrecv hmore rest s₂ hrest ih =>
    intro v s' h
    rw [recvBytesLoop_bytes hrecv, if_pos hmore] at h
    obtain ⟨⟨rest', s₃⟩, hloop, hret⟩ := Except.bind_eq_ok.mp h
    cases hret
    cases hrest.symm.trans (ih _ _ hloop)
    rfl
  | case2 s count b bs s₁ hrecv hmore e s₂ hrest ih =>
    intro v s' h
    rw [recvBytesLoop_bytes hrecv, if_pos hmore] at h
    obtain ⟨⟨rest', s₃⟩, hloop, -⟩ := Except.bind_eq_ok.mp h
    cases hrest.symm.trans (ih _ _ hloop)
  | case3 s count b bs s₁ hrecv hdone =>
    intro v s' h
    rw [recvBytesLoop_bytes hrecv, if_neg hdone] at h
    cases h
    rfl
  | case4 s count s₁ hrecv hmore ih =>
    intro v s' h
    rw [recvBytesLoop_interrupted hrecv, if_pos hmore] at h
    exact ih v s' h
  | case5 s count s₁ hrecv hdone =>
    intro v s' h
    rw [recvBytesLoop_interrupted hrecv, if_neg hdone] at h
    cases h
    rfl
  | case6 s count s₁ hrecv =>
    intro v s' h
    rw [recvBytesLoop_empty hrecv] at h
    cases h

theorem recvBytes_keeps (count : Int) : Keeps (recvBytes count) (Reader.recvBytes count) := by
  intro s v s' h
  unfold recvBytes at h
  unfold Reader.recvBytes
  split at h
  · next hcount =>
    rw [if_pos hcount]
    exact recvBytesLoop_keeps _ _ _ _ h
  · cases h

theorem recvChar_keeps : Keeps recvChar Reader.recvChar := by
  refine (recvBytes_keeps 1).bind fun bs => ?_
  match bs with
  | [c] => exact .pure c
  | [] | _ :: _ :: _ => exact .throw _

theorem recvInt32_keeps : Keeps recvInt32 Reader.recvInt32 := by
  refine (recvBytes_keeps 4).bind fun bs => ?_
  match bs with
  | [b0, b1, b2, b3] => exact .pure _
  | [] | [_] | [_, _] | [_, _, _] | _ :: _ :: _ :: _ :: _ :: _ => exact .throw _

theorem malloc_keeps (size : Int) : Keeps (malloc size) (Reader.malloc size) :=
  .ite (.throw _) (.pure _)

theorem recvString_keeps : Keeps recvString Reader.recvString := by
  refine recvInt32_keeps.bind fun length => .ite (.pure _) ?_
  exact (malloc_keeps _).bind fun _ => (recvBytes_keeps _).bind fun str => .pure _

theorem recvArray_keeps : Keeps recvArray Reader.recvArray := by
  refine recvInt32_keeps.bind fun arrayType => recvInt32_keeps.bind fun arraySize => ?_
  refine .ite ((recvBytes_keeps _).bind fun _ => .pure _) ?_
  refine .ite ((recvInt32_keeps.each _).bind fun _ => .pure _) ?_
  refine .ite ((recvInt32_keeps.each _).bind fun _ => .pure _) ?_
  refine .ite ((recvInt32_keeps.each _).bind fun _ => .pure _) ?_
  exact .ite ((recvString_keeps.each _).bind fun _ => .pure _) (.throw _)

theorem recvArgValue_keeps (t : RpcType) : Keeps (recvArgValue t) (Reader.recvArgValue t) := by
  cases t with
  | char => exact recvChar_keeps.bind fun _ => .pure _
  | boolean | int32 | uint32 => exact recvInt32_keeps.bind fun _ => .pure _
  | string => exact recvString_keeps.bind fun _ => .pure _
  | array => exact recvArray_keeps.bind fun _ => .pure _

theorem recvArg_keeps (t : RpcType) : Keeps (recvArg t) (Reader.recvArg t) :=
  recvInt32_keeps.bind fun _ => .ite (.throw _) (recvArgValue_keeps t)

theorem recvArgs_keeps (ts : List RpcType) : Keeps (recvArgs ts) (Reader.recvArgs ts) := by
  induction ts with
  | nil => exact .pure []
  | cons t ts ih => exact (recvArg_keeps t).bind fun _ => ih.bind fun _ => .pure _

-- ---------------------------------------------------------------------------
-- Reading a message
-- ---------------------------------------------------------------------------

/-- The receiver takes these bytes off the socket and returns `v`. -/
def Reads (g : Reader α) (bs : List Byte) (v : α) : Prop :=
  ∀ script rest, ∃ script', g ⟨bs ++ rest, script⟩ = (.ok v, ⟨rest, script'⟩)

theorem Receives.reads {f : Recv α} {g : Reader α} {bs : List Byte} {v : α}
    (h : Receives f bs v) (hkeeps : Keeps f g) : Reads g bs v := by
  intro script rest
  obtain ⟨script', -, hrun⟩ := h script rest
  exact ⟨script', hkeeps _ _ _ hrun⟩

theorem recvInt32_reads (v : Word) : Reads Reader.recvInt32 v.bytes v :=
  (recvInt32_receives v).reads recvInt32_keeps

theorem recvBytes_reads {bs : List Byte} (h : bs ≠ []) :
    Reads (Reader.recvBytes bs.length) bs bs :=
  (recvBytes_receives bs h).reads (recvBytes_keeps _)

theorem recvArgs_reads {args : List Arg} (h : ∀ a ∈ args, a.Fits ∧ a ≠ .array (.chars [])) :
    Reads (Reader.recvArgs (args.map Arg.type)) (args.flatMap Arg.wire)
      (args.map Arg.received) :=
  (recvArgs_receives h).reads (recvArgs_keeps _)

-- ---------------------------------------------------------------------------
-- Skipping arguments
-- ---------------------------------------------------------------------------

/-- The arguments the skip loop knows. -/
def Arg.Skippable : Arg → Prop
  | .array _ => False
  | _ => True

theorem skipBytes_spec (bs : List Byte) (h : bs ≠ []) (script : List RecvStep)
    (rest : List Byte) :
    ∃ script', skipBytes bs.length ⟨bs ++ rest, script⟩ = (true, ⟨rest, script'⟩) := by
  obtain ⟨script', hread⟩ := recvBytes_reads h script rest
  exact ⟨script', by rw [skipBytes, hread]⟩

theorem skipBlocks_spec (fuel : Nat) (bs : List Byte) (hfuel : bs.length < fuel)
    (script : List RecvStep) (rest : List Byte) :
    ∃ script', skipBlocks fuel bs.length ⟨bs ++ rest, script⟩ = (true, ⟨rest, script'⟩) := by
  induction fuel generalizing bs script with
  | zero => omega
  | succ fuel ih =>
    unfold skipBlocks
    by_cases hlong : bufSiz ≤ bs.length
    · -- a whole block, then the rest of the string
      have hblock : (bs.take bufSiz).length = bufSiz := by simp [hlong]
      have hne : bs.take bufSiz ≠ [] := by
        intro hnil
        rw [hnil] at hblock
        cases hblock
      obtain ⟨script₁, hread⟩ := recvBytes_reads hne script (bs.drop bufSiz ++ rest)
      rw [hblock, ← List.append_assoc, List.take_append_drop] at hread
      have hlen : ((bs.drop bufSiz).length : Int) = bs.length - bufSiz := by
        rw [List.length_drop]
        omega
      obtain ⟨script', hskip⟩ := ih (bs.drop bufSiz)
        (by simp only [List.length_drop, bufSiz] at hlong ⊢; omega) script₁
      refine ⟨script', ?_⟩
      rw [if_pos (.inl (by exact_mod_cast hlong)), hread]
      simp only [← hlen]
      exact hskip
    · rw [if_neg (by omega)]
      cases bs with
      | nil => exact ⟨script, rfl⟩
      | cons b bs =>
        obtain ⟨script', hread⟩ := recvBytes_reads (List.cons_ne_nil b bs) script rest
        refine ⟨script', ?_⟩
        rw [if_pos (by simp), hread]

theorem skipArg_string (s : Socket) :
    skipArg RpcType.string.code s = (match Reader.recvInt32 s with
      | (.ok length, s') => skipBlocks (s'.inbox.length + 1) length.toInt s'
      | (.error _, s') => (false, s')) := rfl

theorem skipArg_spec {a : Arg} (hfits : a.Fits) (hskip : a.Skippable) (script : List RecvStep)
    (rest : List Byte) :
    ∃ script', skipArg a.type.code ⟨a.valueWire ++ rest, script⟩ = (true, ⟨rest, script'⟩) := by
  have hword : ∀ v : Word, ∃ script',
      skipBytes 4 ⟨v.bytes ++ rest, script⟩ = (true, ⟨rest, script'⟩) :=
    fun v => skipBytes_spec v.bytes (by simp [Word.bytes]) script rest
  cases a with
  | char c => exact skipBytes_spec [c] (by simp) script rest
  | boolean v | int32 v | uint32 v => exact hword v
  | string str =>
    obtain ⟨script₁, hread⟩ :=
      recvInt32_reads (BitVec.ofNat 32 str.bytes.length) script (str.bytes ++ rest)
    obtain ⟨script', hskip⟩ := skipBlocks_spec ((str.bytes ++ rest).length + 1) str.bytes
      (by simp) script₁ rest
    refine ⟨script', ?_⟩
    rw [← List.append_assoc] at hread
    change skipArg RpcType.string.code ⟨str.wire ++ rest, script⟩ = _
    rw [skipArg_string, CharPtr.wire, hread]
    simp only [toInt_ofNat_of_lt hfits]
    exact hskip
  | array _ => exact hskip.elim

theorem type_code_ne_stop (t : RpcType) : t.code ≠ Marker.stop.code := by
  cases t <;> decide

theorem skipArgs_spec (fuel : Nat) (a : Arg) {args : List Arg} (hfuel : args.length < fuel)
    (hargs : ∀ b ∈ a :: args, b.Fits ∧ b.Skippable) (script : List RecvStep) (rest : List Byte) :
    ∃ script', skipArgs fuel a.type.code
      ⟨a.valueWire ++ (args.flatMap Arg.wire ++ (Marker.stop.code.bytes ++ rest)), script⟩ =
        ⟨rest, script'⟩ := by
  induction args generalizing fuel a script with
  | nil =>
    obtain ⟨fuel, rfl⟩ : ∃ n, fuel = n + 1 := ⟨fuel - 1, by omega⟩
    obtain ⟨hfits, hskip⟩ := hargs a (List.mem_cons_self ..)
    obtain ⟨script₁, harg⟩ := skipArg_spec hfits hskip script (Marker.stop.code.bytes ++ rest)
    obtain ⟨script', hread⟩ := recvInt32_reads Marker.stop.code script₁ rest
    refine ⟨script', ?_⟩
    unfold skipArgs
    simp only [List.flatMap_nil, List.nil_append, harg, hread, if_true]
  | cons b args ih =>
    obtain ⟨fuel, rfl⟩ : ∃ n, fuel = n + 1 := ⟨fuel - 1, by omega⟩
    obtain ⟨hfits, hskip⟩ := hargs a (List.mem_cons_self ..)
    obtain ⟨script₁, harg⟩ := skipArg_spec hfits hskip script
      ((b :: args).flatMap Arg.wire ++ (Marker.stop.code.bytes ++ rest))
    obtain ⟨script₂, hread⟩ := recvInt32_reads b.type.code script₁
      (b.valueWire ++ (args.flatMap Arg.wire ++ (Marker.stop.code.bytes ++ rest)))
    obtain ⟨script', hrest⟩ := ih fuel b (by simpa using hfuel)
      (fun c hc => hargs c (List.mem_cons_of_mem _ hc)) script₂
    refine ⟨script', ?_⟩
    have hwire : (b :: args).flatMap Arg.wire ++ (Marker.stop.code.bytes ++ rest) =
        b.type.code.bytes ++
          (b.valueWire ++ (args.flatMap Arg.wire ++ (Marker.stop.code.bytes ++ rest))) := by
      simp [Arg.wire]
    rw [hwire] at harg ⊢
    unfold skipArgs
    simp only [harg, hread, type_code_ne_stop, if_false]
    exact hrest

-- ---------------------------------------------------------------------------
-- Callbacks
-- ---------------------------------------------------------------------------

/-- The wire form of a message with this first marker. -/
def replyWire (args : List Arg) : List Byte :=
  Marker.reply.code.bytes ++ (args.flatMap Arg.wire ++ Marker.stop.code.bytes)

def invokeWire (method : Word) (args : List Arg) : List Byte :=
  Marker.start.code.bytes ++ (method.bytes ++ (args.flatMap Arg.wire ++ Marker.stop.code.bytes))

theorem encodeArgs_ok {args : List Arg} (h : ∀ a ∈ args, a.Fits) :
    encodeEach Arg.encode args = .ok (args.flatMap Arg.wire) :=
  encodeEach_ok fun a ha => Arg.encode_ok (h a ha)

theorem sentBytes_of_emits {f : Message → Except RpcError Message} {bs : List Byte}
    (h : Emits f (.ok bs)) : sentBytes (f Message.init) = .ok bs := by
  obtain ⟨m, hm, hstream⟩ := (h Message.init).1 bs rfl
  obtain ⟨m', hflush, hsent⟩ := flush_spec m
  simp only [sentBytes, hm, Except.ok_bind, hflush, Except.pure_eq_ok, hsent, hstream]
  rfl

theorem methodInvoke_eq (method : Word) (args : Sendable) :
    methodInvoke method args.val = .ok (invokeWire method args.val) := by
  have hargs := sendArgs_emits args.val
  rw [encodeArgs_ok args.property] at hargs
  exact sentBytes_of_emits ((sendInt32_emits _).bind
    ((sendInt32_emits method).bind (hargs.bind (sendInt32_emits _))))

theorem methodSendReply_eq (args : Sendable) :
    methodSendReply args.val = .ok (replyWire args.val) := by
  have hargs := sendArgs_emits args.val
  rw [encodeArgs_ok args.property] at hargs
  exact sentBytes_of_emits ((sendInt32_emits _).bind (hargs.bind (sendInt32_emits _)))

/-- What a callback does with these arguments when every read asks for the types of the next ones:
whether it succeeds, the arguments it leaves unread and the replies it sends. -/
def Callback.outcome : Callback → List Arg → Option (Bool × List Arg × List Sendable)
  | .ret ok, args => some (ok, args, [])
  | .getArgs types next, args =>
    let now := args.take types.length
    if types = now.map Arg.type ∧ .array (.chars []) ∉ now then
      (next (.ok (now.map Arg.received))).outcome (args.drop types.length)
    else none
  | .sendReply reply next, args =>
    ((next (.ok ())).outcome args).map fun (ok, rest, replies) => (ok, rest, reply :: replies)

theorem Callback.run_spec {callback : Callback} {args rest : List Arg} {ok : Bool}
    {replies : List Sendable} (h : callback.outcome args = some (ok, rest, replies))
    (hfits : ∀ a ∈ args, a.Fits) (script : List RecvStep) (tail sent : List Byte) :
    (∀ a ∈ rest, a ∈ args) ∧ ∃ script', callback.run ⟨⟨args.flatMap Arg.wire ++ tail, script⟩, sent⟩ =
      (ok, ⟨⟨rest.flatMap Arg.wire ++ tail, script'⟩,
        sent ++ replies.flatMap fun reply => replyWire reply.val⟩) := by
  induction callback generalizing args script sent replies with
  | ret ok' =>
    cases h
    exact ⟨fun _ ha => ha, script, by simp [Callback.run]⟩
  | getArgs types next ih =>
    simp only [Callback.outcome] at h
    split_ifs at h with hnow
    obtain ⟨htypes, hempty⟩ := hnow
    have hnow : ∀ a ∈ args.take types.length, a.Fits ∧ a ≠ .array (.chars []) := by
      intro a ha
      refine ⟨hfits a (List.mem_of_mem_take ha), ?_⟩
      rintro rfl
      exact hempty ha
    obtain ⟨script₁, hread⟩ := recvArgs_reads hnow script
      ((args.drop types.length).flatMap Arg.wire ++ tail)
    rw [← htypes, ← List.append_assoc, ← List.flatMap_append, List.take_append_drop] at hread
    obtain ⟨hsub, script', hrun⟩ := ih _ h (fun a ha => hfits a (List.mem_of_mem_drop ha)) script₁
      sent
    refine ⟨fun a ha => List.mem_of_mem_drop (hsub a ha), script', ?_⟩
    simp only [Callback.run, hread]
    exact hrun
  | sendReply reply next ih =>
    simp only [Callback.outcome, Option.map_eq_some_iff] at h
    obtain ⟨⟨ok', rest', replies'⟩, hnext, heq⟩ := h
    cases heq
    obtain ⟨hsub, script', hrun⟩ := ih _ hnext hfits script (sent ++ replyWire reply.val)
    refine ⟨hsub, script', ?_⟩
    simp only [Callback.run, methodSendReply_eq, List.flatMap_cons]
    rw [hrun, List.append_assoc]

-- ---------------------------------------------------------------------------
-- A dispatch
-- ---------------------------------------------------------------------------

/-- The callback that is called first for a method. -/
def firstCallback (method : Word) (callbacks : List MethodDescriptor) : Option Callback :=
  callbacks.findSome? fun d => if d.id = method then d.callback else none

/-- The marker for a message of which these arguments were left unread. -/
def statusOf (rest : List Arg) : Marker := if rest = [] then .ack else .failure

theorem length_le_wire (args : List Arg) : args.length ≤ (args.flatMap Arg.wire).length := by
  induction args with
  | nil => exact Nat.le_refl _
  | cons a args ih =>
    simp only [List.length_cons, List.flatMap_cons, List.length_append, Arg.wire,
      Word.length_bytes]
    omega

theorem finishMessage_spec {rest : List Arg} (h : ∀ a ∈ rest, a.Fits ∧ a.Skippable)
    (value : Word) (script : List RecvStep) (tail sent : List Byte) :
    ∃ script', finishMessage value
      ⟨⟨rest.flatMap Arg.wire ++ (Marker.stop.code.bytes ++ tail), script⟩, sent⟩ =
        (statusOf rest, ⟨⟨tail, script'⟩, sent⟩) := by
  cases rest with
  | nil =>
    obtain ⟨script', hread⟩ := recvInt32_reads Marker.stop.code script tail
    refine ⟨script', ?_⟩
    simp only [finishMessage, List.flatMap_nil, List.nil_append, hread, if_true]
    rfl
  | cons a args =>
    have hwire : (a :: args).flatMap Arg.wire ++ (Marker.stop.code.bytes ++ tail) =
        a.type.code.bytes ++
          (a.valueWire ++ (args.flatMap Arg.wire ++ (Marker.stop.code.bytes ++ tail))) := by
      simp [Arg.wire]
    obtain ⟨script₁, hread⟩ := recvInt32_reads a.type.code script
      (a.valueWire ++ (args.flatMap Arg.wire ++ (Marker.stop.code.bytes ++ tail)))
    set inbox := a.valueWire ++ (args.flatMap Arg.wire ++ (Marker.stop.code.bytes ++ tail))
      with hinbox
    have hfuel : args.length < inbox.length + 1 := by
      have hlen := length_le_wire args
      simp only [hinbox, List.length_append]
      omega
    obtain ⟨script', hskip⟩ := skipArgs_spec (inbox.length + 1) a hfuel h script₁ tail
    rw [← hinbox] at hskip
    refine ⟨script', ?_⟩
    simp only [finishMessage, hwire, hread, type_code_ne_stop, if_false, hskip]
    rfl

theorem callMethod_spec {callbacks : List MethodDescriptor} {method value : Word}
    {callback : Callback} {s s' : Server} (hfirst : firstCallback method callbacks = some callback)
    (hrun : callback.run s = (true, s')) :
    callMethod value method callbacks s = finishMessage value s' := by
  induction callbacks with
  | nil => cases hfirst
  | cons d ds ih =>
    simp only [firstCallback, List.findSome?_cons] at hfirst
    unfold callMethod
    by_cases hid : d.id = method
    · simp only [hid, if_true] at hfirst ⊢
      cases hcallback : d.callback with
      | none =>
        simp only [hcallback] at hfirst ⊢
        exact ih hfirst
      | some callback' =>
        simp only [hcallback, Option.some.injEq] at hfirst ⊢
        subst hfirst
        rw [hrun]
    · simp only [hid, if_false] at hfirst ⊢
      exact ih hfirst

/-- The callback reads the arguments in order and succeeds, and leaves only arguments that can be
skipped. -/
structure Served (callbacks : List MethodDescriptor) (c : Call) (rest : List Arg)
    (replies : List Sendable) : Prop where
  served : ∃ callback, firstCallback c.method callbacks = some callback ∧
    callback.outcome c.args.val = some (true, rest, replies)
  skippable : ∀ a ∈ rest, a.Skippable

/-- A dispatch takes exactly one message, whatever follows it. -/
theorem rpcDispatch_spec {callbacks : List MethodDescriptor} {c : Call} {rest : List Arg}
    {replies : List Sendable} (h : Served callbacks c rest replies) (script : List RecvStep)
    (tail sent : List Byte) :
    ∃ script', rpcDispatch callbacks ⟨⟨invokeWire c.method c.args.val ++ tail, script⟩, sent⟩ =
      (some (statusOf rest), ⟨⟨tail, script'⟩,
        sent ++ (replies.flatMap fun reply => replyWire reply.val) ++
          (statusOf rest).code.bytes⟩) := by
  obtain ⟨⟨callback, hfirst, houtcome⟩, hskippable⟩ := h
  obtain ⟨script₁, hstart⟩ := recvInt32_reads Marker.start.code script
    (c.method.bytes ++ (c.args.val.flatMap Arg.wire ++ (Marker.stop.code.bytes ++ tail)))
  obtain ⟨script₂, hmethod⟩ := recvInt32_reads c.method script₁
    (c.args.val.flatMap Arg.wire ++ (Marker.stop.code.bytes ++ tail))
  obtain ⟨hsub, script₃, hrun⟩ := Callback.run_spec houtcome c.args.property script₂
    (Marker.stop.code.bytes ++ tail) sent
  have hrest : ∀ a ∈ rest, a.Fits ∧ a.Skippable := fun a ha =>
    ⟨c.args.property a (hsub a ha), hskippable a ha⟩
  obtain ⟨script', hfinish⟩ := finishMessage_spec hrest Marker.start.code script₃ tail
    (sent ++ replies.flatMap fun reply => replyWire reply.val)
  refine ⟨script', ?_⟩
  have hwire : invokeWire c.method c.args.val ++ tail = Marker.start.code.bytes ++
      (c.method.bytes ++ (c.args.val.flatMap Arg.wire ++ (Marker.stop.code.bytes ++ tail))) := by
    simp [invokeWire]
  simp only [rpcDispatch, hwire, hstart, hmethod, callMethod_spec hfirst hrun, hfinish]

-- ---------------------------------------------------------------------------
-- The reply
-- ---------------------------------------------------------------------------

/-- The replies a client can take for its own call: none, or one with the types it waits for. -/
def Expected (types : List RpcType) (replies : List Sendable) : Prop :=
  replies = [] ∨ ∃ reply : Sendable, replies = [reply] ∧ types ≠ [] ∧
    types = reply.val.map Arg.type ∧ .array (.chars []) ∉ reply.val

/-- What the client gets. -/
def resultOf (types : List RpcType) (replies : List Sendable) (status : Marker) : WaitResult :=
  match replies with
  | [] => if types = [] ∧ status = .ack then .ok [] else .truncated
  | reply :: _ => if status = .ack then .ok (reply.val.map Arg.received) else .truncated

theorem marker_code_inj {m m' : Marker} : m.code = m'.code ↔ m = m' := by
  cases m <;> cases m' <;> decide

theorem recvMarker_spec (expected m : Marker) (next : Socket → WaitResult × Socket)
    (script : List RecvStep) (rest : List Byte) :
    ∃ script', recvMarker expected next ⟨m.code.bytes ++ rest, script⟩ =
      if m = expected then next ⟨rest, script'⟩ else (.truncated, ⟨rest, script'⟩) := by
  obtain ⟨script', hread⟩ := recvInt32_reads m.code script rest
  refine ⟨script', ?_⟩
  simp only [recvMarker, hread, ne_eq, marker_code_inj, ite_not]

theorem statusOf_ne_reply (rest : List Arg) : statusOf rest ≠ .reply := by
  unfold statusOf
  split <;> decide

/-- The client reads the replies to its call and the status, and nothing else. -/
theorem methodWaitForReply_spec {types : List RpcType} {replies : List Sendable}
    (h : Expected types replies) (rest : List Arg) (script : List RecvStep) :
    ∃ script', methodWaitForReply types
      ⟨(replies.flatMap fun reply => replyWire reply.val) ++ (statusOf rest).code.bytes, script⟩ =
        (resultOf types replies (statusOf rest), ⟨[], script'⟩) := by
  obtain rfl | ⟨reply, rfl, hne, htypes, hempty⟩ := h
  · by_cases htypes : types = []
    · obtain ⟨script', hmarker⟩ := recvMarker_spec .ack (statusOf rest) (fun s => (.ok [], s)) script []
      rw [List.append_nil] at hmarker
      refine ⟨script', ?_⟩
      simp only [methodWaitForReply, htypes, ne_eq, not_true_eq_false, if_false, List.flatMap_nil,
        List.nil_append, hmarker, resultOf, true_and]
      split <;> rfl
    · unfold methodWaitForReply
      rw [if_pos htypes]
      obtain ⟨script', hmarker⟩ := recvMarker_spec .reply (statusOf rest) (recvReply types) script []
      rw [List.append_nil] at hmarker
      refine ⟨script', ?_⟩
      rw [List.flatMap_nil, List.nil_append, hmarker, if_neg (statusOf_ne_reply rest)]
      simp only [resultOf, htypes, false_and, if_false]
  · have hreply : ∀ a ∈ reply.val, a.Fits ∧ a ≠ .array (.chars []) := by
      intro a ha
      refine ⟨reply.property a ha, ?_⟩
      rintro rfl
      exact hempty ha
    have hwire : ([reply].flatMap fun reply => replyWire reply.val) ++ (statusOf rest).code.bytes =
        Marker.reply.code.bytes ++ (reply.val.flatMap Arg.wire ++
          (Marker.stop.code.bytes ++ ((statusOf rest).code.bytes ++ []))) := by
      simp [replyWire]
    unfold methodWaitForReply
    rw [if_pos hne, hwire]
    obtain ⟨script₁, hmarker⟩ := recvMarker_spec .reply .reply (recvReply types) script
      (reply.val.flatMap Arg.wire ++
        (Marker.stop.code.bytes ++ ((statusOf rest).code.bytes ++ [])))
    obtain ⟨script₂, hread⟩ := recvArgs_reads hreply script₁
      (Marker.stop.code.bytes ++ ((statusOf rest).code.bytes ++ []))
    obtain ⟨script₃, hstop⟩ := recvMarker_spec .stop .stop
      (recvMarker .ack fun s => (.ok (reply.val.map Arg.received), s)) script₂
      ((statusOf rest).code.bytes ++ [])
    obtain ⟨script', hack⟩ := recvMarker_spec .ack (statusOf rest)
      (fun s => (.ok (reply.val.map Arg.received), s)) script₃ []
    refine ⟨script', ?_⟩
    rw [hmarker, if_pos rfl, recvReply, htypes, hread]
    simp only [hstop, if_true, hack, resultOf]
    split <;> rfl

-- ---------------------------------------------------------------------------
-- Runs of calls
-- ---------------------------------------------------------------------------

/-- The condition on a call: it is served, and the client waits for the reply that is sent. -/
def Answered (k : Connection) (c : Call) : Prop :=
  ∃ rest replies, Served k.callbacks c rest replies ∧ Expected c.expects replies

/-- One call on an aligned connection: the dispatch takes exactly the bytes of the message, whatever
follows them, it sends one marker after the replies of the callback, and the client takes exactly
what was sent. -/
structure Framed (k : Connection) (c : Call) : Prop where
  consumes : ∀ script tail, ∃ status server,
    rpcDispatch k.callbacks ⟨⟨invokeWire c.method c.args.val ++ tail, script⟩, []⟩ =
      (some status, server) ∧ server.socket.inbox = tail
  exchanged : ∃ ex rest replies, exchange k c = some ex ∧ Served k.callbacks c rest replies ∧
    ex.status = some (statusOf rest) ∧
    ex.sent = (replies.flatMap fun reply => replyWire reply.val) ++ (statusOf rest).code.bytes ∧
    ex.result = resultOf c.expects replies (statusOf rest) ∧
    ex.connection.toServer.inbox = [] ∧ ex.connection.toClient.inbox = []

def Connection.Aligned (k : Connection) : Prop := k.toServer.inbox = [] ∧ k.toClient.inbox = []

theorem exchange_spec {k : Connection} {c : Call} {rest : List Arg} {replies : List Sendable}
    (hk : k.Aligned) (hserved : Served k.callbacks c rest replies)
    (hexpected : Expected c.expects replies) :
    ∃ s s', exchange k c = some ⟨some (statusOf rest),
      (replies.flatMap fun reply => replyWire reply.val) ++ (statusOf rest).code.bytes,
      resultOf c.expects replies (statusOf rest), ⟨k.callbacks, ⟨[], s⟩, ⟨[], s'⟩⟩⟩ := by
  obtain ⟨hserver, hclient⟩ := hk
  obtain ⟨s, hdispatch⟩ := rpcDispatch_spec hserved k.toServer.script [] []
  obtain ⟨s', hwait⟩ := methodWaitForReply_spec hexpected rest k.toClient.script
  rw [List.append_nil] at hdispatch
  refine ⟨s, s', ?_⟩
  simp only [exchange, methodInvoke_eq, hserver, hclient, List.nil_append, hdispatch, hwait]

def step (k : Connection) (c : Call) : Option Connection :=
  (exchange k c).map Exchange.connection

theorem step_aligned {k k' : Connection} {c : Call} (hk : k.Aligned) (hc : Answered k c)
    (h : step k c = some k') : k'.Aligned := by
  obtain ⟨rest, replies, hserved, hexpected⟩ := hc
  obtain ⟨s, s', hex⟩ := exchange_spec hk hserved hexpected
  rw [step, hex] at h
  cases h
  exact ⟨rfl, rfl⟩

/-- A callback that reads a number and replies with it. -/
def echo : Callback :=
  .getArgs [.int32] fun
    | .ok [.int32 v] => .sendReply ⟨[.int32 v], by simp [Arg.Fits]⟩ fun _ => .ret true
    | _ => .ret false

/-- A call of it with one argument too many. -/
def echoCall : Call := ⟨2, ⟨[.int32 7, .char 65], by simp [Arg.Fits]⟩, [.int32]⟩

def echoConnection : Connection := ⟨[⟨2, some echo⟩], ⟨[], []⟩, ⟨[], []⟩⟩

theorem callMethod_unknown {callbacks : List MethodDescriptor} {method : Word}
    (h : firstCallback method callbacks = none) (value : Word) (s : Server) :
    callMethod value method callbacks s = (.failure, s) := by
  induction callbacks with
  | nil => rfl
  | cons d ds ih =>
    simp only [firstCallback, List.findSome?_cons] at h
    unfold callMethod
    by_cases hid : d.id = method
    · simp only [hid, if_true] at h ⊢
      cases hcallback : d.callback with
      | none =>
        simp only [hcallback] at h ⊢
        exact ih h
      | some callback => simp [hcallback] at h
    · simp only [hid, if_false] at h ⊢
      exact ih h

/-- Two words are read, whatever they are, and nothing else. -/
theorem rpcDispatch_unknown {callbacks : List MethodDescriptor} {method : Word}
    (h : firstCallback method callbacks = none) (value : Word) (script : List RecvStep)
    (tail sent : List Byte) :
    ∃ script', rpcDispatch callbacks ⟨⟨value.bytes ++ (method.bytes ++ tail), script⟩, sent⟩ =
      (some .failure, ⟨⟨tail, script'⟩, sent ++ Marker.failure.code.bytes⟩) := by
  obtain ⟨script₁, hvalue⟩ := recvInt32_reads value script (method.bytes ++ tail)
  obtain ⟨script', hmethod⟩ := recvInt32_reads method script₁ tail
  refine ⟨script', ?_⟩
  simp only [rpcDispatch, hvalue, hmethod, callMethod_unknown h]

/-- The arguments and the end marker of the message stay in the socket. -/
theorem unknown_not_framed {k : Connection} {c : Call}
    (h : firstCallback c.method k.callbacks = none) : ¬ Framed k c := by
  rintro ⟨hconsumes, -⟩
  obtain ⟨status, server, hdispatch, hinbox⟩ := hconsumes [] []
  obtain ⟨script', hunknown⟩ := rpcDispatch_unknown h Marker.start.code []
    (c.args.val.flatMap Arg.wire ++ Marker.stop.code.bytes) []
  rw [List.append_nil, invokeWire, hunknown] at hdispatch
  cases hdispatch
  have hlength := congrArg List.length hinbox
  simp at hlength

/-- Whatever the client makes of it, the exchange leaves the server where its dispatch does. -/
theorem exchange_of_dispatch {k : Connection} {c : Call} {status : Option Marker} {server : Server}
    (h : rpcDispatch k.callbacks ⟨⟨k.toServer.inbox ++ invokeWire c.method c.args.val,
      k.toServer.script⟩, []⟩ = (status, server)) :
    ∃ result toClient, exchange k c =
      some ⟨status, server.sent, result, ⟨k.callbacks, server.socket, toClient⟩⟩ := by
  rcases hwait : methodWaitForReply c.expects
    { k.toClient with inbox := k.toClient.inbox ++ server.sent } with ⟨result, toClient⟩
  refine ⟨result, toClient, ?_⟩
  simp only [exchange, methodInvoke_eq, h, hwait]

/-- A call of a method nobody has registered. -/
def unknownCall : Call := ⟨1, ⟨[], by simp⟩, []⟩

end SheepShear.Rpc
