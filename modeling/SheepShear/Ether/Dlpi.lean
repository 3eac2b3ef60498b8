import SheepShear.Lib.Bytes
import SheepShear.Lib.Steps

/-!
# DLPI streams of the Ethernet driver

The private data of a stream and the requests that change it. A request is
answered through a message that has to be allocated; whether the allocations
succeed is part of the request here. Queues, the read and write pointers of the
request and the calls of the add-on are left out.
-/

namespace SheepShear.Ether

abbrev EnetAddr := Fin 6 → Byte
abbrev Snap := Fin 5 → Byte
abbrev Sap := BitVec 16

instance lawfulBEqEnetAddr : LawfulBEq EnetAddr := inferInstance

def kMinDIXSAP : Sap := 1501
def kSNAPSAP : Sap := 0xaa
def kMax8022SAP : Sap := 0xfe
def k8022GlobalSAP : Sap := 0xff
def kIPXSAP : Sap := 0xff

inductive PacketType where
  | dix
  | sap8022
  | snap8022
  | ipx
  | unknown
deriving DecidableEq, Repr

def classifyPacketType (primarySAP secondarySAP : Sap) : PacketType :=
  if kMinDIXSAP ≤ primarySAP then .dix
  else if primarySAP = kIPXSAP ∧ secondarySAP = kIPXSAP then .ipx
  else if primarySAP = kSNAPSAP then .snap8022
  else if primarySAP ≤ k8022GlobalSAP then .sap8022
  else .unknown

inductive AddressType where
  | standard
  | multicast
  | broadcast
deriving DecidableEq, Repr

def getAddressType (addr : EnetAddr) : AddressType :=
  if addr 0 &&& 1#8 = 0 then .standard
  else if ∀ i, addr i = 0xff#8 then .broadcast
  else .multicast

-- ---------------------------------------------------------------------------
-- Group SAPs
-- ---------------------------------------------------------------------------

/-- A bit for each odd SAP, in words of 32. -/
abbrev GroupMap := Fin 4 → Word

def groupIndex (sap : Byte) : Fin 4 := ⟨(sap >>> 6).toNat, by
  rw [BitVec.toNat_ushiftRight, Nat.shiftRight_eq_div_pow]
  omega⟩

def groupMask (sap : Byte) : Word := 1#32 <<< ((sap >>> 1) &&& 0x1f#8).toNat

def setGroupSAP (g : GroupMap) (sap : Byte) : GroupMap :=
  Function.update g (groupIndex sap) (g (groupIndex sap) ||| groupMask sap)

def clearGroupSAP (g : GroupMap) (sap : Byte) : GroupMap :=
  Function.update g (groupIndex sap) (g (groupIndex sap) &&& ~~~groupMask sap)

def testGroupSAP (g : GroupMap) (sap : Byte) : Bool :=
  g (groupIndex sap) &&& groupMask sap ≠ 0

-- ---------------------------------------------------------------------------
-- Streams
-- ---------------------------------------------------------------------------

inductive DlpiState where
  | unbound
  | idle
deriving DecidableEq, Repr

/-- The bits of `flags`. -/
structure Flags where
  snapStream : Bool
  acceptMulticasts : Bool
  acceptAll8022Packets : Bool
  fastPathMode : Bool
deriving DecidableEq, Repr

structure DLPIStream where
  dlpiState : DlpiState
  flags : Flags
  dlsap : Sap
  groupSap : GroupMap
  snap : Snap
  multicastList : List EnetAddr
deriving DecidableEq

/-- `ether_open`, which leaves the group SAPs and the SNAP as they were allocated. -/
def etherOpen (groupSap : GroupMap) (snap : Snap) : DLPIStream :=
  ⟨.unbound, ⟨false, false, false, false⟩, 0, groupSap, snap, []⟩

def isMulticastRegistered (s : DLPIStream) (addr : EnetAddr) : Bool := addr ∈ s.multicastList

-- ---------------------------------------------------------------------------
-- Answers
-- ---------------------------------------------------------------------------

inductive Primitive where
  | bindReq
  | unbindReq
  | subsBindReq
  | subsUnbindReq
  | enabmultiReq
  | disabmultiReq
deriving DecidableEq, Repr

inductive DlError where
  | badaddr
  | outstate
  | syserr
  | unsupported
  | toomany
deriving DecidableEq, Repr

/-- The message sent back, or none when there was no memory even for that. -/
inductive Reply where
  | none
  | errorAck (prim : Primitive) (err : DlError)
  | okAck (prim : Primitive)
  | bindAck (sap : Word)
  | subsBindAck (sap : List Byte)
deriving DecidableEq, Repr

def Reply.isErrorAck : Reply → Bool
  | .errorAck _ _ => true
  | _ => false

/-- Whether the reply and an error reply can be allocated, and whether the request's own message is
in use elsewhere (`db_ref` is not one). -/
structure Alloc where
  reply : Bool
  error : Bool
  shared : Bool
deriving DecidableEq, Repr

def dlpiErrorAck (a : Alloc) (prim : Primitive) (err : DlError) : Reply :=
  if a.error then .errorAck prim err else .none

def dlpiOkAck (a : Alloc) (prim : Primitive) : Reply :=
  if a.shared && !a.reply then .none else .okAck prim

-- ---------------------------------------------------------------------------
-- Bind and unbind
-- ---------------------------------------------------------------------------

/-- The stream is now bound and idle. -/
def bound (s : DLPIStream) (sap : Word) : DLPIStream :=
  let cleared : GroupMap := fun _ => 0
  { s with
    groupSap :=
      if sap ≤ kMax8022SAP.setWidth 32 then setGroupSAP cleared (k8022GlobalSAP.setWidth 8)
      else cleared
    dlpiState := .idle
    dlsap := sap.setWidth 16
    flags := { s.flags with snapStream := false } }

/-- `connectionless` says that the request asks for a service that is supported. -/
def dlpiBind (s : DLPIStream) (sap : Word) (connectionless : Bool) (a : Alloc) :
    Reply × DLPIStream :=
  if s.dlpiState ≠ .unbound then (dlpiErrorAck a .bindReq .outstate, s)
  else if ¬ connectionless then (dlpiErrorAck a .bindReq .unsupported, s)
  else if sap ≤ kMax8022SAP.setWidth 32 ∧ sap &&& 1 ≠ 0 then (dlpiErrorAck a .bindReq .badaddr, s)
  else if classifyPacketType (sap.setWidth 16) (sap.setWidth 16) = .unknown then
    (dlpiErrorAck a .bindReq .badaddr, s)
  else if ¬ a.reply then (dlpiErrorAck a .bindReq .syserr, s)
  else (.bindAck sap, bound s sap)

def dlpiUnbind (s : DLPIStream) (a : Alloc) : Reply × DLPIStream :=
  if s.dlpiState ≠ .idle then (dlpiErrorAck a .unbindReq .outstate, s)
  else (dlpiOkAck a .unbindReq, { s with dlpiState := .unbound, dlsap := 0 })

-- ---------------------------------------------------------------------------
-- Additional bindings
-- ---------------------------------------------------------------------------

inductive BindClass where
  | peer
  | hierarchical
  | other
deriving DecidableEq, Repr

/-- An address in a request: the bytes from `dl_subs_sap_offset` on, and the length it gives. -/
structure SubsSap where
  bytes : Nat → Byte
  length : Int

/-- The first two bytes. -/
def SubsSap.theSap (sap : SubsSap) : Sap := sap.bytes 0 ++ sap.bytes 1

def SubsSap.snap (sap : SubsSap) : Snap := fun i => sap.bytes i

/-- A group SAP, which is odd and given as two bytes. -/
def SubsSap.IsGroup (sap : SubsSap) : Prop := sap.theSap &&& 1 ≠ 0 ∧ sap.length = 2

instance (sap : SubsSap) : Decidable sap.IsGroup := inferInstanceAs (Decidable (_ ∧ _))

/-- The checks of `DLPI_subs_bind`, and the binding it makes. -/
def subsBind (s : DLPIStream) (bindClass : BindClass) (sap : SubsSap) :
    Except DlError DLPIStream :=
  match bindClass with
  | .peer =>
    if s.dlsap ≤ kMax8022SAP then
      if sap.IsGroup then
        .ok { s with groupSap := setGroupSAP s.groupSap (sap.theSap.setWidth 8) }
      else if sap.theSap = 0 then
        .ok { s with flags := { s.flags with acceptAll8022Packets := true } }
      else .error .badaddr
    else .error .unsupported
  | .hierarchical =>
    if s.dlsap = kSNAPSAP then
      if s.flags.snapStream then .error .toomany
      else .ok { s with snap := sap.snap, flags := { s.flags with snapStream := true } }
    else .error .badaddr
  | .other => .error .unsupported

def dlpiSubsBind (s : DLPIStream) (bindClass : BindClass) (sap : SubsSap) (a : Alloc) :
    Reply × DLPIStream :=
  if s.dlpiState ≠ .idle then (dlpiErrorAck a .subsBindReq .outstate, s)
  else
    match subsBind s bindClass sap with
    | .error err => (dlpiErrorAck a .subsBindReq err, s)
    | .ok s' =>
      if ¬ a.reply then (dlpiErrorAck a .subsBindReq .syserr, s')
      else (.subsBindAck ((List.range sap.length.toNat).map sap.bytes), s')

/-- The checks of `DLPI_subs_unbind`, with the group SAP taken out. -/
def subsUnbind (s : DLPIStream) (sap : SubsSap) : Except DlError DLPIStream :=
  if sap.length = 1 then
    if sap.bytes 0 &&& 1 ≠ 0 ∧ sap.bytes 0 ≠ kIPXSAP.setWidth 8 then
      if s.dlsap ≤ kMax8022SAP then
        .ok { s with groupSap := clearGroupSAP s.groupSap (sap.bytes 0) }
      else .error .unsupported
    else .error .badaddr
  else if sap.length = 5 then
    if s.dlsap = kSNAPSAP then
      if s.flags.snapStream then if s.snap = sap.snap then .ok s else .error .badaddr
      else .error .badaddr
    else .error .unsupported
  else .ok s

def dlpiSubsUnbind (s : DLPIStream) (sap : SubsSap) (a : Alloc) : Reply × DLPIStream :=
  if s.dlpiState ≠ .idle then (dlpiErrorAck a .subsUnbindReq .outstate, s)
  else
    match subsUnbind s sap with
    | .error err => (dlpiErrorAck a .subsUnbindReq err, s)
    | .ok s' =>
      (dlpiOkAck a .subsUnbindReq, { s' with flags := { s'.flags with snapStream := false } })

-- ---------------------------------------------------------------------------
-- Multicast addresses
-- ---------------------------------------------------------------------------

def dlpiEnableMulti (s : DLPIStream) (addr : EnetAddr) (a : Alloc) : Reply × DLPIStream :=
  if getAddressType addr ≠ .multicast then (dlpiErrorAck a .enabmultiReq .badaddr, s)
  else if isMulticastRegistered s addr then (dlpiErrorAck a .enabmultiReq .badaddr, s)
  else (dlpiOkAck a .enabmultiReq, { s with
    multicastList := addr :: s.multicastList
    flags := { s.flags with acceptMulticasts := true } })

def dlpiDisableMulti (s : DLPIStream) (addr : EnetAddr) (a : Alloc) : Reply × DLPIStream :=
  if getAddressType addr ≠ .multicast then (dlpiErrorAck a .disabmultiReq .badaddr, s)
  else if ¬ isMulticastRegistered s addr then (dlpiErrorAck a .disabmultiReq .badaddr, s)
  else
    let list := s.multicastList.erase addr
    (dlpiOkAck a .disabmultiReq, { s with
      multicastList := list
      flags := if list = [] then { s.flags with acceptMulticasts := false } else s.flags })

-- ---------------------------------------------------------------------------
-- Runs of a stream
-- ---------------------------------------------------------------------------

/-- The requests that change a stream; `fastPath` is `DL_IOC_HDR_INFO`. -/
inductive Request where
  | bind (sap : Word) (connectionless : Bool)
  | unbind
  | subsBind (bindClass : BindClass) (sap : SubsSap)
  | subsUnbind (sap : SubsSap)
  | enableMulti (addr : EnetAddr)
  | disableMulti (addr : EnetAddr)
  | fastPath

def request (s : DLPIStream) (a : Alloc) : Request → Reply × DLPIStream
  | .bind sap connectionless => dlpiBind s sap connectionless a
  | .unbind => dlpiUnbind s a
  | .subsBind bindClass sap => dlpiSubsBind s bindClass sap a
  | .subsUnbind sap => dlpiSubsUnbind s sap a
  | .enableMulti addr => dlpiEnableMulti s addr a
  | .disableMulti addr => dlpiDisableMulti s addr a
  | .fastPath => (.none, { s with flags := { s.flags with fastPathMode := true } })

def step (s : DLPIStream) (r : Alloc × Request) : Option DLPIStream := some (request s r.1 r.2).2

/-- The states a stream can be in after it was opened. -/
def Reachable (s : DLPIStream) : Prop :=
  ∃ groupSap snap, Steps.Reaches step (fun _ _ => True) (etherOpen groupSap snap) s

end SheepShear.Ether
