import SheepShear.Lib.Bytes
import SheepShear.Lib.Pieces

/-!
# Reassembly of datagrams

`slirp/ip_input.c`: the queues of fragments, one for each datagram, and the timer
that drops them. Fragments reach this part of `ip_input` after the checks of the
header; a chain of fragments is a list in the order of the chain. The answer of
`m_get` for a new queue is given.
-/

namespace SheepShear.Slirp

open Pieces

/-- The fields of an IP header that a datagram is known by and that reassembly passes on. -/
structure IpHeader where
  hl : BitVec 4
  tos : Byte
  id : BitVec 16
  ttl : Byte
  p : Byte
  src : Word
  dst : Word
deriving DecidableEq, Repr

structure FragKey where
  p : Byte
  id : BitVec 16
  src : Word
  dst : Word
deriving DecidableEq, Repr

def IpHeader.key (h : IpHeader) : FragKey := ⟨h.p, h.id, h.src, h.dst⟩

def ipDf : BitVec 16 := 0x4000
def ipMf : BitVec 16 := 0x2000

/-- A packet with `ip_off` as received, in host order; the data are those behind the header. -/
structure IpPacket where
  hdr : IpHeader
  off : BitVec 16
  data : List Byte
deriving DecidableEq, Repr

/-- What goes to the protocol: `len` is `ip_len` without the header. -/
structure Datagram where
  hdr : IpHeader
  len : BitVec 16
  data : List Byte
deriving DecidableEq, Repr

/-- The header of a fragment and `ipf_mff`. -/
structure FragTag where
  hdr : IpHeader
  mff : Bool
deriving DecidableEq, Repr

abbrev Frag := Piece Nat Byte FragTag

structure Ipq where
  ttl : Byte
  key : FragKey
  frags : List Frag
deriving DecidableEq, Repr

def ipFragTtl : Byte := 60

/-- The fragment of a packet, its offset in bytes. -/
def IpPacket.frag (m : IpPacket) : Frag where
  off := (m.off <<< 3).toNat
  data := m.data
  tag := ⟨m.hdr, m.off &&& ipMf ≠ 0⟩

def lookup (ipq : List Ipq) (key : FragKey) : Option Ipq := ipq.find? (·.key = key)

def ipFreef (ipq : List Ipq) (key : FragKey) : List Ipq := ipq.filter (·.key ≠ key)

def setFrags (ipq : List Ipq) (key : FragKey) (frags : List Frag) : List Ipq :=
  ipq.map fun fp => if fp.key = key then { fp with frags := frags } else fp

/-- The datagram of a complete chain, with the header of the first fragment. -/
def complete (key : FragKey) (frags : List Frag) : Option Datagram :=
  match joined 0 frags, frags.head?, frags.getLast? with
  | some next, some first, some last =>
    if last.tag.mff then none
    else some
      { hdr := { first.tag.hdr with src := key.src, dst := key.dst }
        len := BitVec.ofNat 16 next
        data := frags.flatMap (·.data) }
  | _, _, _ => none

/-- The chain of a queue is complete, and the queue goes, or it waits for more. -/
def checkComplete (ipq : List Ipq) (key : FragKey) (frags : List Frag) :
    List Ipq × Option Datagram :=
  match complete key frags with
  | some d => (ipFreef ipq key, some d)
  | none => (ipq, none)

/-- A fragment that is dropped or has no memory for its queue leaves everything as it was. -/
def ipReass (ipq : List Ipq) (ip : Frag) (memory : Bool) : List Ipq × Option Datagram :=
  let key := ip.tag.hdr.key
  match lookup ipq key with
  | none =>
    if memory then checkComplete (⟨ipFragTtl, key, [ip]⟩ :: ipq) key [ip] else (ipq, none)
  | some fp =>
    match Pieces.insert ip fp.frags with
    | none => (ipq, none)
    | some frags => checkComplete (setFrags ipq key frags) key frags

def ipInput (ipq : List Ipq) (m : IpPacket) (memory : Bool) : List Ipq × Option Datagram :=
  let whole : Datagram := ⟨m.hdr, BitVec.ofNat 16 m.data.length, m.data⟩
  if m.off &&& ~~~ipDf ≠ 0 then
    if m.frag.tag.mff ∨ m.frag.off ≠ 0 then ipReass ipq m.frag memory
    else (ipFreef ipq m.hdr.key, some whole)
  else (ipq, some whole)

def ipSlowtimo (ipq : List Ipq) : List Ipq :=
  ipq.filterMap fun fp => if fp.ttl - 1 = 0 then none else some { fp with ttl := fp.ttl - 1 }

-- ---------------------------------------------------------------------------
-- Fragments of one datagram
-- ---------------------------------------------------------------------------

/-- A fragment of the datagram with this key and payload. -/
structure FragOf (key : FragKey) (payload : List Byte) (q : Frag) : Prop where
  key : q.tag.hdr.key = key
  agrees : Agrees (fun i => payload.getD i 0) q
  stop : q.stop ≤ payload.length
  mff : q.tag.mff = true ↔ q.stop < payload.length

variable {ipq : List Ipq} {key : FragKey} {payload : List Byte} {frags : List Frag} {q ip : Frag}
  {i : Nat}

theorem fragOf_cutStable (key : FragKey) (payload : List Byte) :
    CutStable (FragOf key payload) := by
  intro q n hn hq
  have hstop : (q.cut n).stop = q.stop := Piece.cut_stop hn.le
  refine ⟨hq.key, agrees_cutStable _ q n hn hq.agrees, ?_, ?_⟩
  · rw [hstop]
    exact hq.stop
  · rw [hstop]
    exact hq.mff

theorem range'_map_getD (payload : List Byte) :
    (List.range' 0 payload.length).map (fun i => payload.getD i 0) = payload := by
  apply List.ext_getElem
  · simp
  · intro i hi hi'
    simp [List.getD_eq_getElem?_getD, hi']

/-- A chain is complete exactly when its fragments have all of the payload, which it then gives. -/
theorem complete_iff (hsorted : Sorted frags) (hfrags : ∀ q ∈ frags, FragOf key payload q)
    (hne : frags ≠ []) :
    (∀ d, complete key frags = some d →
      d.data = payload ∧ d.len = BitVec.ofNat 16 payload.length ∧ d.hdr.key = key) ∧
    ((complete key frags).isSome ↔ ∀ i < payload.length, Covers frags i) := by
  obtain ⟨first, hfirst⟩ : ∃ q, frags.head? = some q := ⟨_, List.head?_eq_some_head hne⟩
  obtain ⟨last, hlast⟩ : ∃ q, frags.getLast? = some q := ⟨_, List.getLast?_eq_some_getLast hne⟩
  have hfirst' := hfrags first (List.mem_of_mem_head? hfirst)
  have hlast' := hfrags last (List.mem_of_getLast? hlast)
  have hjoined := joined_iff (n := 0) hsorted (fun _ _ => Nat.zero_le _)
    (fun q hq => (hfrags q hq).stop)
  have hmff (next : Nat) (hnext : joined 0 frags = some next) :
      last.tag.mff = false ↔ next = payload.length := by
    have hstop := hlast'.stop
    rw [← Bool.not_eq_true, hlast'.mff, joined_last hnext hlast]
    omega
  rw [complete, hfirst, hlast]
  constructor
  · intro d hd
    cases hnext : joined 0 frags with
    | none => simp [hnext] at hd
    | some next =>
      rw [hnext] at hd
      dsimp only at hd
      split_ifs at hd with hmore
      obtain rfl := (hmff next hnext).mp (Bool.eq_false_iff.mpr hmore)
      obtain ⟨hdata, -⟩ := joined_data (fun q hq => (hfrags q hq).agrees) hnext
      rw [Nat.sub_zero, range'_map_getD] at hdata
      obtain rfl := Option.some.inj hd
      refine ⟨hdata, rfl, ?_⟩
      rw [← hfirst'.key]
      rfl
  · constructor
    · intro hsome
      cases hnext : joined 0 frags with
      | none => simp [hnext] at hsome
      | some next =>
        rw [hnext] at hsome
        dsimp only at hsome
        split_ifs at hsome with hmore
        · cases hsome
        · obtain rfl := (hmff next hnext).mp (Bool.eq_false_iff.mpr hmore)
          exact fun i hi => (hjoined.mp hnext).2 i (Nat.zero_le _) hi
    · intro hall
      have hnext := hjoined.mpr ⟨Nat.zero_le _, fun i _ hi => hall i hi⟩
      rw [hnext]
      dsimp only
      rw [(hmff _ hnext).mpr rfl]
      rfl

-- ---------------------------------------------------------------------------
-- The queues
-- ---------------------------------------------------------------------------

theorem lookup_eq_some {fp : Ipq} (h : lookup ipq key = some fp) : fp ∈ ipq ∧ fp.key = key :=
  ⟨List.mem_of_find?_eq_some h,
    of_decide_eq_true (List.find?_some (p := fun fp : Ipq => decide (fp.key = key)) h)⟩

theorem lookup_eq_none : lookup ipq key = none ↔ ∀ fp ∈ ipq, fp.key ≠ key := by
  simp [lookup]

theorem mem_ipFreef {fp : Ipq} : fp ∈ ipFreef ipq key ↔ fp ∈ ipq ∧ fp.key ≠ key := by
  simp [ipFreef]

theorem lookup_ipFreef : lookup (ipFreef ipq key) key = none :=
  lookup_eq_none.mpr fun _ hfp => (mem_ipFreef.mp hfp).2

theorem keys_ipFreef (h : (ipq.map (·.key)).Nodup) : ((ipFreef ipq key).map (·.key)).Nodup :=
  h.sublist (List.filter_sublist.map _)

theorem keys_setFrags : (setFrags ipq key frags).map (·.key) = ipq.map (·.key) := by
  rw [setFrags, List.map_map]
  apply List.map_congr_left
  intro fp _
  rw [Function.comp_apply]
  split_ifs <;> rfl

/-- With different keys, only the queue of the key changes. -/
theorem mem_setFrags {fp : Ipq} (h : fp ∈ setFrags ipq key frags) :
    fp ∈ ipq ∧ fp.key ≠ key ∨ fp.key = key ∧ ∃ fp₀ ∈ ipq, fp = { fp₀ with frags := frags } := by
  obtain ⟨fp₀, hmem, rfl⟩ := List.mem_map.mp h
  by_cases hkey : fp₀.key = key
  · rw [if_pos hkey]
    exact .inr ⟨hkey, fp₀, hmem, rfl⟩
  · rw [if_neg hkey]
    exact .inl ⟨hmem, hkey⟩

theorem ipFreef_setFrags : ipFreef (setFrags ipq key frags) key = ipFreef ipq key := by
  rw [ipFreef, ipFreef, setFrags]
  induction ipq with
  | nil => rfl
  | cons fp ipq ih =>
    rw [List.map_cons, List.filter_cons, List.filter_cons, ih]
    by_cases hkey : fp.key = key
    · simp [hkey]
    · simp [hkey]

theorem mem_ipSlowtimo {fp : Ipq} (h : fp ∈ ipSlowtimo ipq) :
    ∃ fp₀ ∈ ipq, fp₀.ttl - 1 ≠ 0 ∧ fp = { fp₀ with ttl := fp₀.ttl - 1 } := by
  obtain ⟨fp₀, hmem, hsome⟩ := List.mem_filterMap.mp h
  split_ifs at hsome with hzero
  exact ⟨fp₀, hmem, hzero, (Option.some.inj hsome).symm⟩

theorem keys_ipSlowtimo (h : (ipq.map (·.key)).Nodup) : ((ipSlowtimo ipq).map (·.key)).Nodup := by
  refine h.sublist ?_
  rw [ipSlowtimo]
  induction ipq with
  | nil => exact List.Sublist.refl _
  | cons fp ipq ih =>
    have ih := ih (List.nodup_cons.mp h).2
    rw [List.filterMap_cons]
    split_ifs
    · exact ih.trans (List.sublist_cons_self ..)
    · exact ih.cons_cons _

end SheepShear.Slirp
