import SheepShear.Lib.Steps
import SheepShear.Slirp.Reass

/-!
# Runs of reassembly

Fragments of any number of datagrams arrive in any order, more than once, cut in
any way, and the timer runs in between. A datagram is delivered by the fragment
that completes it, with the payload it was sent with, and no queue lives for sixty
ticks of the timer.
-/

namespace SheepShear.Slirp

open Pieces Steps

/-- The queues, and for each datagram its fragments and the ticks since its queue began. -/
structure Reassembler where
  ipq : List Ipq
  got : FragKey → List Frag
  ticks : FragKey → Nat

inductive IpEvent where
  | packet (m : IpPacket) (memory : Bool)
  | tick
deriving DecidableEq, Repr

def Reassembler.start : Reassembler := ⟨[], fun _ => [], fun _ => 0⟩

def arrive (s : Reassembler) (m : IpPacket) (memory : Bool) : Reassembler :=
  let ipq := (ipInput s.ipq m memory).1
  let key := m.hdr.key
  { ipq := ipq
    got := Function.update s.got key
      (if (lookup ipq key).isNone then []
        else if m.off &&& ~~~ipDf ≠ 0 then m.frag :: s.got key else s.got key)
    ticks := Function.update s.ticks key
      (if (lookup s.ipq key).isNone then 0 else s.ticks key) }

def tick (s : Reassembler) : Reassembler :=
  let ipq := ipSlowtimo s.ipq
  { ipq := ipq
    got := fun key => if (lookup ipq key).isNone then [] else s.got key
    ticks := fun key => s.ticks key + 1 }

def ipStep (s : Reassembler) : IpEvent → Option Reassembler
  | .packet m memory => some (arrive s m memory)
  | .tick => some (tick s)

def IpPacket.IsFragment (m : IpPacket) : Prop := m.frag.tag.mff = true ∨ m.frag.off ≠ 0

/-- Fragments are of the datagram with their key, which has a payload. -/
def Genuine (payload : FragKey → List Byte) (m : IpPacket) : Prop :=
  m.IsFragment → FragOf m.hdr.key (payload m.hdr.key) m.frag ∧ payload m.hdr.key ≠ []

def GenuineEvent (payload : FragKey → List Byte) (_ : Reassembler) : IpEvent → Prop
  | .packet m _ => Genuine payload m
  | .tick => True

variable {payload : FragKey → List Byte} {s s' : Reassembler} {m : IpPacket} {memory : Bool}
  {ipq : List Ipq} {key : FragKey} {fp : Ipq} {got : List Frag} {age : Nat}

/-- A queue has what came since it began, which is not all, and its time is running. -/
structure QueueOk (payload : List Byte) (got : List Frag) (ticks : Nat) (fp : Ipq) : Prop where
  sorted : Sorted fp.frags
  frags : ∀ q ∈ fp.frags, FragOf fp.key payload q
  covers : ∀ i, Covers fp.frags i ↔ Covers got i
  missing : ∃ i < payload.length, ¬Covers fp.frags i
  age : fp.ttl.toNat + ticks = ipFragTtl.toNat
  running : fp.ttl ≠ 0

structure ReassemblerOk (payload : FragKey → List Byte) (s : Reassembler) : Prop where
  nodup : (s.ipq.map (·.key)).Nodup
  queues : ∀ fp ∈ s.ipq, QueueOk (payload fp.key) (s.got fp.key) (s.ticks fp.key) fp
  none : ∀ key, lookup s.ipq key = none → s.got key = []

theorem start_ok : ReassemblerOk payload .start where
  nodup := List.nodup_nil
  queues := by simp [Reassembler.start]
  none := fun _ _ => rfl

theorem ipDf_bit : ∀ i < 16, i ≠ 14 → (~~~ipDf).getLsbD i = true := by decide

/-- Without other flags and without an offset a packet is whole. -/
theorem whole_of_flags {off : BitVec 16} (h : off &&& ~~~ipDf = 0) :
    off &&& ipMf = 0 ∧ off <<< 3 = 0 := by
  have hbit (i : Nat) (hi : i < 16) (hne : i ≠ 14) : off.getLsbD i = false := by
    have hand := congrArg (·.getLsbD i) h
    simpa [BitVec.getLsbD_and, ipDf_bit i hi hne] using hand
  have hoff : off = off &&& 0x4000 := by
    apply BitVec.eq_of_getLsbD_eq
    intro i hi
    by_cases hne : i = 14
    · subst hne
      simp
    · simp [hbit i hi hne]
  rw [hoff]
  constructor
  · rw [BitVec.and_assoc, show (0x4000 : BitVec 16) &&& ipMf = 0#16 by decide, BitVec.and_zero]
    rfl
  · rw [BitVec.shiftLeft_and_distrib, show (0x4000 : BitVec 16) <<< 3 = 0#16 by decide,
      BitVec.and_zero]
    rfl

theorem IpPacket.IsFragment.flags (h : m.IsFragment) : m.off &&& ~~~ipDf ≠ 0 := by
  intro hzero
  obtain ⟨hmf, hoff⟩ := whole_of_flags hzero
  rcases h with hmff | hne
  · simp [IpPacket.frag, hmf] at hmff
  · simp [IpPacket.frag, hoff] at hne

/-- A fragment alone is not a datagram. -/
theorem fragment_missing (h : m.IsFragment) (hfrag : FragOf key (payload key) m.frag)
    (hne : payload key ≠ []) : ∃ i < (payload key).length, ¬Covers [m.frag] i := by
  have hpos := List.length_pos_iff.mpr hne
  rcases h with hmff | hoff
  · refine ⟨m.frag.stop, hfrag.mff.mp hmff, ?_⟩
    rintro ⟨q, hq, hcov⟩
    rw [List.mem_singleton.mp hq] at hcov
    exact absurd hcov.2 (lt_irrefl _)
  · refine ⟨0, hpos, ?_⟩
    rintro ⟨q, hq, hcov⟩
    rw [List.mem_singleton.mp hq] at hcov
    have hle := hcov.1
    omega

/-- The datagram is complete, its queue is gone, and it is what was sent. -/
def Delivers (payload : FragKey → List Byte) (s : Reassembler) (m : IpPacket)
    (r : List Ipq × Option Datagram) : Prop :=
  ∃ d, r = (ipFreef s.ipq m.hdr.key, some d) ∧
    (∀ i < (payload m.hdr.key).length, Covers (m.frag :: s.got m.hdr.key) i) ∧
    d.data = payload m.hdr.key ∧ d.len = BitVec.ofNat 16 (payload m.hdr.key).length ∧
    d.hdr.key = m.hdr.key

/-- Something is missing, and the queue of the fragment has it as well. -/
def Waits (payload : FragKey → List Byte) (s : Reassembler) (m : IpPacket) (memory : Bool)
    (r : List Ipq × Option Datagram) : Prop :=
  ∃ ipq, r = (ipq, none) ∧ (memory = true → lookup ipq m.hdr.key ≠ none) ∧
    (∃ i < (payload m.hdr.key).length, ¬Covers (m.frag :: s.got m.hdr.key) i) ∧
    (ipq.map (·.key)).Nodup ∧
    (∀ fp, fp.key ≠ m.hdr.key → (fp ∈ ipq ↔ fp ∈ s.ipq)) ∧
    ∀ fp ∈ ipq, fp.key = m.hdr.key → QueueOk (payload m.hdr.key) (m.frag :: s.got m.hdr.key)
      (if (lookup s.ipq m.hdr.key).isNone then 0 else s.ticks m.hdr.key) fp

theorem ipReass_new (hs : ReassemblerOk payload s) (h : m.IsFragment)
    (hfrag : FragOf m.hdr.key (payload m.hdr.key) m.frag) (hne : payload m.hdr.key ≠ [])
    (hnone : lookup s.ipq m.hdr.key = none) :
    Waits payload s m memory (ipReass s.ipq m.frag memory) := by
  obtain ⟨i, hi, hmissing⟩ := fragment_missing h hfrag hne
  have hgot := hs.none _ hnone
  have hother := lookup_eq_none.mp hnone
  have hkey : m.frag.tag.hdr.key = m.hdr.key := rfl
  rw [ipReass, hkey, hnone, Waits, hgot, hnone]
  dsimp only
  cases memory with
  | false =>
    exact ⟨_, rfl, by simp, ⟨i, hi, hmissing⟩, hs.nodup, fun _ _ => Iff.rfl,
      fun fp hfp hk => absurd hk (hother fp hfp)⟩
  | true =>
    have hsingle : Sorted [m.frag] := List.pairwise_singleton ..
    have hall : ∀ q ∈ [m.frag], FragOf m.hdr.key (payload m.hdr.key) q := by simpa using hfrag
    obtain ⟨-, hcomplete⟩ := complete_iff hsingle hall (by simp)
    have hnone : complete m.hdr.key [m.frag] = none := by
      rw [← Option.not_isSome_iff_eq_none, hcomplete]
      exact fun hcov => hmissing (hcov i hi)
    rw [if_pos rfl, checkComplete, hnone]
    refine ⟨_, rfl, fun _ => ?_, ⟨i, hi, hmissing⟩, ?_, ?_, ?_⟩
    · rw [Ne, lookup_eq_none]
      exact fun hall => hall _ (List.mem_cons_self ..) rfl
    · refine List.nodup_cons.mpr ⟨fun hmem => ?_, hs.nodup⟩
      obtain ⟨fp, hfp, hk⟩ := List.mem_map.mp hmem
      exact hother fp hfp hk
    · intro fp hk
      rw [List.mem_cons]
      refine or_iff_right fun heq => hk ?_
      rw [heq]
    · refine List.forall_mem_cons.mpr ⟨fun _ => ?_, fun fp hfp hk => absurd hk (hother fp hfp)⟩
      exact ⟨hsingle, hall, fun _ => Iff.rfl, ⟨i, hi, hmissing⟩, rfl,
        show ipFragTtl ≠ 0 by decide⟩

theorem ipReass_queued (hs : ReassemblerOk payload s)
    (hfrag : FragOf m.hdr.key (payload m.hdr.key) m.frag)
    (hsome : lookup s.ipq m.hdr.key = some fp) :
    Delivers payload s m (ipReass s.ipq m.frag memory) ∨
      Waits payload s m memory (ipReass s.ipq m.frag memory) := by
  obtain ⟨hmem, hkey⟩ := lookup_eq_some hsome
  have hfp := hs.queues fp hmem
  rw [hkey] at hfp
  have hfrags : ∀ q ∈ fp.frags, FragOf m.hdr.key (payload m.hdr.key) q := hkey ▸ hfp.frags
  have hcons (i : Nat) : Covers (m.frag :: s.got m.hdr.key) i ↔
      Covers fp.frags i ∨ m.frag.Covers i := by
    rw [covers_cons, hfp.covers, or_comm]
  have hk : m.frag.tag.hdr.key = m.hdr.key := rfl
  rw [ipReass, hk, hsome]
  dsimp only
  cases hinsert : Pieces.insert m.frag fp.frags with
  | none =>
    have hthere (i : Nat) : Covers (m.frag :: s.got m.hdr.key) i ↔ Covers (s.got m.hdr.key) i := by
      rw [hcons, hfp.covers, or_iff_left_iff_imp, ← hfp.covers]
      exact covers_of_insert_none hfp.sorted hinsert
    refine .inr ⟨_, rfl, fun _ => by rw [hsome]; simp, ?_, hs.nodup, fun _ _ => Iff.rfl,
      fun fp' hfp' hk' => ?_⟩
    · obtain ⟨i, hi, hmissing⟩ := hfp.missing
      exact ⟨i, hi, by rwa [hthere, ← hfp.covers]⟩
    · have hq := hs.queues fp' hfp'
      rw [hk'] at hq
      rw [hsome]
      exact { hq with covers := fun i => (hq.covers i).trans (hthere i).symm }
  | some frags =>
    have hsorted := insert_sorted hfp.sorted hinsert
    have hall := forall_mem_insert (fragOf_cutStable _ _) hfp.sorted hfrags hfrag hinsert
    have hcovers (i : Nat) : Covers frags i ↔ Covers (m.frag :: s.got m.hdr.key) i := by
      rw [hcons, covers_insert hfp.sorted hinsert]
    obtain ⟨hdata, hcomplete⟩ := complete_iff hsorted hall (insert_ne_nil hfp.sorted hinsert)
    dsimp only
    rw [checkComplete]
    cases hdone : complete m.hdr.key frags with
    | some d =>
      refine .inl ⟨d, ?_, fun i hi => ?_, hdata d hdone⟩
      · dsimp only
        rw [ipFreef_setFrags]
      · rw [← hcovers]
        exact hcomplete.mp (by rw [hdone]; rfl) i hi
    | none =>
      have hmissing : ∃ i < (payload m.hdr.key).length, ¬Covers frags i := by
        have hnot := hcomplete.not.mp (by rw [hdone]; simp)
        simpa using hnot
      refine .inr ⟨_, rfl, fun _ => ?_, ?_, ?_, fun fp' hk' => ⟨fun hfp' => ?_, fun hfp' => ?_⟩,
        fun fp' hfp' hk' => ?_⟩
      · rw [Ne, lookup_eq_none]
        exact fun hall => hall _ (List.mem_map.mpr ⟨fp, hmem, if_pos hkey⟩) hkey
      · obtain ⟨i, hi, hm⟩ := hmissing
        exact ⟨i, hi, by rwa [← hcovers]⟩
      · rw [keys_setFrags]
        exact hs.nodup
      · rcases mem_setFrags hfp' with ⟨hfp', -⟩ | ⟨hk'', -⟩
        · exact hfp'
        · exact absurd hk'' hk'
      · exact List.mem_map.mpr ⟨fp', hfp', if_neg hk'⟩
      · rcases mem_setFrags hfp' with ⟨-, hne⟩ | ⟨-, fp₀, hfp₀, rfl⟩
        · exact absurd hk' hne
        · have hq := hs.queues fp₀ hfp₀
          dsimp only at hk'
          rw [hk'] at hq
          rw [hsome]
          exact ⟨hsorted, by rw [hk']; exact hall, hcovers, hmissing, hq.age, hq.running⟩

/-- A fragment completes its datagram or is added to what waits. -/
theorem ipReass_spec (memory : Bool) (hs : ReassemblerOk payload s) (h : m.IsFragment)
    (hfrag : FragOf m.hdr.key (payload m.hdr.key) m.frag) (hne : payload m.hdr.key ≠ []) :
    Delivers payload s m (ipReass s.ipq m.frag memory) ∨
      Waits payload s m memory (ipReass s.ipq m.frag memory) := by
  cases hl : lookup s.ipq m.hdr.key with
  | none => exact .inr (ipReass_new hs h hfrag hne hl)
  | some fp => exact ipReass_queued hs hfrag hl

theorem ipInput_fragment (h : m.IsFragment) :
    ipInput ipq m memory = ipReass ipq m.frag memory := by
  rw [ipInput, if_pos h.flags]
  exact if_pos h

theorem lookup_isNone_iff : (lookup ipq key).isNone = true ↔ ∀ fp ∈ ipq, fp.key ≠ key := by
  rw [Option.isNone_iff_eq_none, lookup_eq_none]

/-- The queue of a datagram is gone. -/
theorem ReassemblerOk.freed (hs : ReassemblerOk payload s)
    (hipq : (ipInput s.ipq m memory).1 = ipFreef s.ipq m.hdr.key) :
    ReassemblerOk payload (arrive s m memory) := by
  refine ⟨?_, ?_, ?_⟩
  · rw [arrive, hipq]
    exact keys_ipFreef hs.nodup
  · intro fp hfp
    rw [arrive, hipq] at hfp
    obtain ⟨hmem, hk⟩ := mem_ipFreef.mp hfp
    dsimp only [arrive]
    rw [Function.update_of_ne hk, Function.update_of_ne hk]
    exact hs.queues fp hmem
  · intro key hkey
    dsimp only [arrive] at hkey ⊢
    rw [hipq] at hkey ⊢
    by_cases hk : key = m.hdr.key
    · rw [hk, Function.update_self, lookup_ipFreef]
      rfl
    · rw [Function.update_of_ne hk]
      refine hs.none key (lookup_eq_none.mpr fun fp hfp hfk => ?_)
      exact lookup_eq_none.mp hkey fp (mem_ipFreef.mpr ⟨hfp, hfk ▸ hk⟩) hfk

/-- What an arrival leaves: nothing of the datagram, or its queue with the new fragment. -/
theorem ReassemblerOk.arrive_fragment (hs : ReassemblerOk payload s) (h : m.IsFragment)
    (hfrag : FragOf m.hdr.key (payload m.hdr.key) m.frag) (hne : payload m.hdr.key ≠ []) :
    ReassemblerOk payload (arrive s m memory) := by
  have hflags := h.flags
  rcases ipReass_spec memory hs h hfrag hne with
    ⟨d, hr, -⟩ | ⟨ipq, hr, -, -, hnodup, hsame, hq⟩
  · exact hs.freed (by rw [ipInput_fragment h, hr])
  · have hipq : (ipInput s.ipq m memory).1 = ipq := by rw [ipInput_fragment h, hr]
    refine ⟨?_, ?_, ?_⟩
    · rw [arrive, hipq]
      exact hnodup
    · intro fp hfp
      dsimp only [arrive] at hfp ⊢
      rw [hipq] at hfp ⊢
      by_cases hk : fp.key = m.hdr.key
      · have hsome : (lookup ipq m.hdr.key).isNone = false := by
          rw [Bool.eq_false_iff, Ne, lookup_isNone_iff]
          exact fun hall => hall fp hfp hk
        rw [hk, Function.update_self, Function.update_self, hsome, if_neg (by decide),
          if_pos hflags]
        exact hq fp hfp hk
      · rw [Function.update_of_ne hk, Function.update_of_ne hk]
        exact hs.queues fp ((hsame fp hk).mp hfp)
    · intro key hkey
      dsimp only [arrive] at hkey ⊢
      rw [hipq] at hkey ⊢
      by_cases hk : key = m.hdr.key
      · subst hk
        rw [Function.update_self, hkey]
        rfl
      · rw [Function.update_of_ne hk]
        refine hs.none key (lookup_eq_none.mpr fun fp hfp hfk => ?_)
        exact lookup_eq_none.mp hkey fp ((hsame fp (hfk ▸ hk)).mpr hfp) hfk

/-- A packet that is not a fragment goes on at once. -/
theorem ipInput_whole (ipq : List Ipq) (memory : Bool) (h : ¬m.IsFragment) :
    ipInput ipq m memory =
      (if m.off &&& ~~~ipDf ≠ 0 then ipFreef ipq m.hdr.key else ipq,
        some ⟨m.hdr, BitVec.ofNat 16 m.data.length, m.data⟩) := by
  rw [ipInput]
  split_ifs with hflags hfrag
  · exact absurd hfrag h
  · rfl
  · rfl

theorem ReassemblerOk.arrive_whole (hs : ReassemblerOk payload s) (h : ¬m.IsFragment) :
    ReassemblerOk payload (arrive s m memory) := by
  have hipq := congrArg Prod.fst (ipInput_whole s.ipq memory h)
  split_ifs at hipq with hflags
  · exact hs.freed hipq
  · refine ⟨?_, ?_, ?_⟩
    · rw [arrive, hipq]
      exact hs.nodup
    · intro fp hfp
      dsimp only [arrive] at hfp ⊢
      rw [hipq] at hfp ⊢
      by_cases hk : fp.key = m.hdr.key
      · have hsome : (lookup s.ipq m.hdr.key).isNone = false := by
          rw [Bool.eq_false_iff, Ne, lookup_isNone_iff]
          exact fun hall => hall fp hfp hk
        rw [hk, Function.update_self, Function.update_self, hsome, if_neg (by decide),
          if_neg hflags, if_neg (by decide)]
        exact hk ▸ hs.queues fp hfp
      · rw [Function.update_of_ne hk, Function.update_of_ne hk]
        exact hs.queues fp hfp
    · intro key hkey
      dsimp only [arrive] at hkey ⊢
      rw [hipq] at hkey ⊢
      by_cases hk : key = m.hdr.key
      · subst hk
        rw [Function.update_self, hkey]
        rfl
      · rw [Function.update_of_ne hk]
        exact hs.none key hkey

theorem ReassemblerOk.tick (hs : ReassemblerOk payload s) : ReassemblerOk payload (tick s) := by
  refine ⟨keys_ipSlowtimo hs.nodup, ?_, ?_⟩
  · intro fp hfp
    have hsome : (lookup (ipSlowtimo s.ipq) fp.key).isNone = false := by
      rw [Bool.eq_false_iff, Ne, lookup_isNone_iff]
      exact fun hall => hall fp hfp rfl
    obtain ⟨fp₀, hmem, hzero, rfl⟩ := mem_ipSlowtimo hfp
    have hq := hs.queues fp₀ hmem
    have hage := hq.age
    have hpos : 0 < fp₀.ttl.toNat :=
      Nat.pos_of_ne_zero fun h0 => hq.running (BitVec.eq_of_toNat_eq h0)
    have hlt := fp₀.ttl.isLt
    dsimp only [Slirp.tick] at hsome ⊢
    rw [hsome, if_neg (by decide)]
    refine ⟨hq.sorted, hq.frags, hq.covers, hq.missing, ?_, hzero⟩
    dsimp only
    rw [BitVec.toNat_sub, show (1 : Byte).toNat = 1 from rfl]
    omega
  · intro key hkey
    dsimp only [Slirp.tick] at hkey ⊢
    rw [hkey]
    rfl

theorem ReassemblerOk.step (hs : ReassemblerOk payload s) {e : IpEvent}
    (he : GenuineEvent payload s e) (hstep : ipStep s e = some s') : ReassemblerOk payload s' := by
  cases e with
  | packet m memory =>
    obtain rfl := Option.some.inj hstep
    by_cases h : m.IsFragment
    · exact hs.arrive_fragment h (he h).1 (he h).2
    · exact hs.arrive_whole h
  | tick =>
    obtain rfl := Option.some.inj hstep
    exact hs.tick

theorem reassemblerOk_of_reaches (h : Reaches ipStep (GenuineEvent payload) .start s) :
    ReassemblerOk payload s :=
  h.invariant start_ok fun hs he hstep => hs.step he hstep

def samplePayload : List Byte := [1, 2, 3, 4, 5, 6, 7, 8, 9, 10, 11, 12]

def sampleHeader : IpHeader := ⟨5, 0, 7, 64, 17, 0x0a000203, 0x0a00020f⟩

/-- The first eight bytes, and the last four. -/
def sampleFront : IpPacket := ⟨sampleHeader, ipMf, samplePayload.take 8⟩
def sampleBack : IpPacket := ⟨sampleHeader, 1, samplePayload.drop 8⟩

theorem agrees_of_data {f : Nat → Byte} {q : Frag}
    (h : q.data = (List.range' q.off q.data.length).map f) : Agrees f q := by
  intro i x hx
  obtain ⟨hi, -⟩ := List.getElem?_eq_some_iff.mp hx
  rw [h, List.getElem?_map, List.getElem?_range' hi, Nat.one_mul] at hx
  exact (Option.some.inj hx).symm

theorem sampleFront_genuine : Genuine (fun _ => samplePayload) sampleFront :=
  fun _ => ⟨⟨rfl, agrees_of_data rfl, by decide, by decide⟩, by decide⟩

theorem sampleBack_genuine : Genuine (fun _ => samplePayload) sampleBack :=
  fun _ => ⟨⟨rfl, agrees_of_data rfl, by decide, by decide⟩, by decide⟩

end SheepShear.Slirp
