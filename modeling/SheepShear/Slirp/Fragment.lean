import SheepShear.Slirp.ReassRuns

/-!
# Fragmentation

`slirp/ip_output.c`: a datagram larger than the link's MTU is cut into fragments.
They are fragments of it in the sense of reassembly, so that they give it back in
whatever order they arrive.
-/

namespace SheepShear.Slirp

open Pieces Steps

/-- The size of a header without options. -/
def ipHlen : Nat := 20

/-- The links of the emulator. -/
structure Interface where
  mtu : Nat
  mru : Nat
deriving DecidableEq, Repr

/-- `M_FREEROOM` of a new buffer with the header in it: `m_get` gives six bytes more than the larger
of the two units and the link header. -/
def Interface.freeroom (nic : Interface) : Nat := max nic.mtu nic.mru + 6 - ipHlen

/-- The fragments from `off` on; `memory` is how many buffers `m_get` still has. -/
def ipFragments (nic : Interface) (hdr : IpHeader) (payload : List Byte) (len : Nat) (off : Nat) :
    Nat → Option (List IpPacket)
  | 0 => if off < ipHlen + payload.length then none else some []
  | memory + 1 =>
    let ipLen := ipHlen + payload.length
    if off < ipLen then
      let last := off + len ≥ ipLen
      let n := if last then ipLen - off else len
      if n > nic.freeroom then none
      else do
        let rest ← ipFragments nic hdr payload len (off + n) memory
        let field := BitVec.ofNat 16 ((off - ipHlen) >>> 3)
        return ⟨hdr, if last then field else field ||| ipMf,
          (payload.drop (off - ipHlen)).take n⟩ :: rest
    else some []

/-- The packets for `if_output`, none for an error. `ip_id` and the length of the header are set
here. -/
def ipOutput (nic : Interface) (ipId : BitVec 16) (hdr : IpHeader) (df : Bool) (payload : List Byte)
    (memory : Nat) : Option (List IpPacket) :=
  let hdr := { hdr with id := ipId, hl := 5 }
  let ipLen := ipHlen + payload.length
  if ipLen ≤ nic.mtu then some [⟨hdr, if df then ipDf else 0, payload⟩]
  else if df then none
  else
    let len := (nic.mtu - ipHlen) / 8 * 8
    if len < 8 then none
    else do
      let rest ← ipFragments nic hdr payload len (ipHlen + len) memory
      return ⟨hdr, ipMf, payload.take len⟩ :: rest

variable {nic : Interface} {hdr : IpHeader} {payload : List Byte} {len off n k memory : Nat}
  {ms : List IpPacket} {m : IpPacket}

-- ---------------------------------------------------------------------------
-- The fragments
-- ---------------------------------------------------------------------------

/-- The packet for `n` bytes of the payload from `k` on. -/
def slice (hdr : IpHeader) (payload : List Byte) (k n : Nat) : IpPacket where
  hdr := hdr
  off := BitVec.ofNat 16 (k >>> 3) ||| (if k + n ≥ payload.length then 0 else ipMf)
  data := (payload.drop k).take n

theorem offset_field {x : Nat} (h : x < 2 ^ 13) (more : Bool) :
    ((BitVec.ofNat 16 x ||| (if more then ipMf else 0)) <<< 3).toNat = x * 8 ∧
    ((BitVec.ofNat 16 x ||| (if more then ipMf else 0)) &&& ipMf ≠ 0 ↔ more = true) := by
  have hx : BitVec.ofNat 16 x &&& ipMf = 0#16 := by
    apply BitVec.eq_of_getLsbD_eq
    intro i hi
    by_cases h13 : i = 13
    · subst h13
      rw [BitVec.getLsbD_and, BitVec.getLsbD_ofNat, Nat.testBit_lt_two_pow h]
      simp
    · have hbit : ∀ i < 16, i ≠ 13 → ipMf.getLsbD i = false := by decide
      simp [hbit i hi h13]
  have hshift : (BitVec.ofNat 16 x <<< 3).toNat = x * 8 := by
    rw [BitVec.toNat_shiftLeft, BitVec.toNat_ofNat, Nat.mod_eq_of_lt (by omega), Nat.shiftLeft_eq,
      Nat.mod_eq_of_lt (by omega)]
  cases more with
  | true =>
    rw [if_pos rfl]
    constructor
    · rw [BitVec.shiftLeft_or_distrib, show ipMf <<< 3 = 0#16 by decide, BitVec.or_zero, hshift]
    · rw [BitVec.and_or_distrib_right, hx, BitVec.zero_or]
      simp [ipMf]
  | false => simp [hx, hshift]

/-- A slice is a fragment of the datagram. -/
theorem slice_frag (hdr : IpHeader) (hk : 8 ∣ k) (hlen : payload.length < 2 ^ 16) (hpos : 0 < n)
    (hfits : k + n ≤ payload.length) :
    (slice hdr payload k n).frag.off = k ∧ (slice hdr payload k n).frag.stop = k + n ∧
      FragOf hdr.key payload (slice hdr payload k n).frag := by
  have hdata : ((payload.drop k).take n).length = n := by
    rw [List.length_take, List.length_drop]
    omega
  have hflag : (if k + n ≥ payload.length then (0 : BitVec 16) else ipMf) =
      if decide (k + n < payload.length) then ipMf else 0 := by
    by_cases hlast : k + n ≥ payload.length
    · rw [if_pos hlast, if_neg (by simpa using hlast)]
    · rw [if_neg hlast, if_pos (by simpa using hlast)]
  have hshift : k >>> 3 = k / 8 := Nat.shiftRight_eq_div_pow k 3
  obtain ⟨hoff, hmff⟩ := offset_field (x := k / 8) (by omega) (decide (k + n < payload.length))
  rw [← hflag, ← hshift] at hoff hmff
  have hk' : (slice hdr payload k n).frag.off = k := by
    rw [IpPacket.frag, slice]
    dsimp only
    rw [hoff, hshift, Nat.div_mul_cancel hk]
  have hstop : (slice hdr payload k n).frag.stop = k + n := by
    rw [Piece.stop_nat, hk']
    exact congrArg (k + ·) hdata
  refine ⟨hk', hstop, rfl, ?_, ?_, ?_⟩
  · intro i x hx
    have hx : ((payload.drop k).take n)[i]? = some x := hx
    have hi : i < n := by
      obtain ⟨hi, -⟩ := List.getElem?_eq_some_iff.mp hx
      rwa [hdata] at hi
    rw [List.getElem?_take_of_lt hi, List.getElem?_drop] at hx
    dsimp only
    rw [hk', List.getD_eq_getElem?_getD, hx]
    rfl
  · rw [hstop]
    exact hfits
  · rw [hstop]
    have htag : (slice hdr payload k n).frag.tag.mff =
      decide ((BitVec.ofNat 16 (k >>> 3) ||| (if k + n ≥ payload.length then 0 else ipMf)) &&&
        ipMf ≠ 0) := rfl
    rw [htag, decide_eq_true_iff, hmff, decide_eq_true_iff]

/-- Slices of at most `len` bytes, one behind the other, of everything from `k` on. -/
structure CutsFrom (hdr : IpHeader) (payload : List Byte) (len k : Nat) (ms : List IpPacket) :
    Prop where
  slices : ∀ m ∈ ms, ∃ k' n, m = slice hdr payload k' n ∧ 8 ∣ k' ∧ k ≤ k' ∧ 0 < n ∧ n ≤ len ∧
    k' + n ≤ payload.length
  apart : ms.Pairwise fun m m' => m.frag.stop ≤ m'.frag.off
  covers : ∀ i, k ≤ i → i < payload.length → Covers (ms.map (·.frag)) i

theorem CutsFrom.nil (h : payload.length ≤ k) : CutsFrom hdr payload len k [] where
  slices := by simp
  apart := List.Pairwise.nil
  covers := by omega

theorem CutsFrom.cons (h : CutsFrom hdr payload len (k + n) ms) (hk : 8 ∣ k)
    (hlen : payload.length < 2 ^ 16) (hpos : 0 < n) (hn : n ≤ len)
    (hfits : k + n ≤ payload.length) :
    CutsFrom hdr payload len k (slice hdr payload k n :: ms) := by
  obtain ⟨hoff, hstop, -⟩ := slice_frag hdr hk hlen hpos hfits
  refine ⟨List.forall_mem_cons.mpr ⟨⟨k, n, rfl, hk, le_rfl, hpos, hn, hfits⟩, ?_⟩,
    List.pairwise_cons.mpr ⟨?_, h.apart⟩, ?_⟩
  · intro m hm
    obtain ⟨k', n', hslice, hk', hle, hrest⟩ := h.slices m hm
    exact ⟨k', n', hslice, hk', by omega, hrest⟩
  · intro m hm
    obtain ⟨k', n', rfl, hk', hle, hpos', -, hfits'⟩ := h.slices m hm
    obtain ⟨hoff', -⟩ := slice_frag hdr hk' hlen hpos' hfits'
    rw [hstop, hoff']
    exact hle
  · intro i hi hlt
    rw [List.map_cons, covers_cons]
    rcases Nat.lt_or_ge i (k + n) with hin | hout
    · exact .inl ⟨hoff.le.trans hi, hstop ▸ hin⟩
    · exact .inr (h.covers i hout hlt)

theorem ipFragments_done (h : payload.length ≤ k) :
    ipFragments nic hdr payload len (ipHlen + k) memory = some [] := by
  cases memory with
  | zero => rw [ipFragments, if_neg (by omega)]
  | succ memory =>
    rw [ipFragments]
    exact if_neg (by omega)

/-- One turn of the loop. -/
theorem ipFragments_succ (h : k < payload.length) :
    ipFragments nic hdr payload len (ipHlen + k) (memory + 1) =
      let n := min len (payload.length - k)
      if n > nic.freeroom then none
      else (ipFragments nic hdr payload len (ipHlen + (k + n)) memory).map
        (slice hdr payload k n :: ·) := by
  rw [ipFragments]
  dsimp only
  rw [if_pos (by omega), Nat.add_sub_cancel_left]
  have hn : (if ipHlen + k + len ≥ ipHlen + payload.length then
      ipHlen + payload.length - (ipHlen + k) else len) = min len (payload.length - k) := by
    split_ifs <;> omega
  have hslice : slice hdr payload k (min len (payload.length - k)) =
      ⟨hdr, if ipHlen + k + len ≥ ipHlen + payload.length then BitVec.ofNat 16 (k >>> 3)
        else BitVec.ofNat 16 (k >>> 3) ||| ipMf,
        (payload.drop k).take (min len (payload.length - k))⟩ := by
    rw [slice]
    congr 1
    by_cases hlast : ipHlen + k + len ≥ ipHlen + payload.length
    · rw [if_pos hlast, if_pos (by omega)]
      exact BitVec.or_zero
    · rw [if_neg hlast, if_neg (by omega)]
  rw [hn, ← hslice, Nat.add_assoc]
  split_ifs
  · rfl
  · rw [Option.map_eq_bind]
    rfl

/-- The loop cuts the rest of the payload. -/
theorem ipFragments_cuts (hlen : payload.length < 2 ^ 16) (hdvd : 8 ∣ len) (hpos : 0 < len)
    (hk : 8 ∣ k) (h : ipFragments nic hdr payload len (ipHlen + k) memory = some ms) :
    CutsFrom hdr payload len k ms := by
  induction memory generalizing k ms with
  | zero =>
    rw [ipFragments] at h
    split_ifs at h with hmore
    obtain rfl := Option.some.inj h
    exact .nil (by omega)
  | succ memory ih =>
    rcases Nat.lt_or_ge k payload.length with hmore | hdone
    · rw [ipFragments_succ hmore] at h
      dsimp only at h
      split_ifs at h with hroom
      obtain ⟨rest, hrest, rfl⟩ := Option.map_eq_some_iff.mp h
      have hcut : CutsFrom hdr payload len (k + min len (payload.length - k)) rest := by
        rcases Nat.le_total len (payload.length - k) with hle | hle
        · rw [min_eq_left hle] at hrest ⊢
          exact ih (Nat.dvd_add hk hdvd) hrest
        · rw [min_eq_right hle, Nat.add_sub_cancel' hmore.le] at hrest ⊢
          rw [ipFragments_done le_rfl] at hrest
          obtain rfl := Option.some.inj hrest
          exact .nil le_rfl
      exact hcut.cons hk hlen (by omega) (by omega) (by omega)
    · rw [ipFragments_done hdone] at h
      obtain rfl := Option.some.inj h
      exact .nil hdone

/-- With enough buffers there is no error. -/
theorem ipFragments_isSome (hdr : IpHeader) (hroom : len ≤ nic.freeroom)
    (hmemory : payload.length ≤ k + memory * len) :
    (ipFragments nic hdr payload len (ipHlen + k) memory).isSome := by
  induction memory generalizing k with
  | zero =>
    rw [ipFragments_done (by omega)]
    rfl
  | succ memory ih =>
    rcases Nat.lt_or_ge k payload.length with hmore | hdone
    · rw [ipFragments_succ hmore]
      dsimp only
      rw [if_neg (by omega), Option.isSome_map]
      refine ih ?_
      rw [Nat.succ_mul] at hmemory
      omega
    · rw [ipFragments_done hdone]
      rfl

/-- The header that the fragments have. -/
def outHeader (hdr : IpHeader) (ipId : BitVec 16) : IpHeader := { hdr with id := ipId, hl := 5 }

/-- A datagram that is too large is cut into fragments that fit. -/
theorem ipOutput_cuts {ipId : BitVec 16} {df : Bool} (hlen : payload.length < 2 ^ 16)
    (hlarge : nic.mtu < ipHlen + payload.length)
    (h : ipOutput nic ipId hdr df payload memory = some ms) :
    8 ≤ nic.mtu - ipHlen ∧
      CutsFrom (outHeader hdr ipId) payload ((nic.mtu - ipHlen) / 8 * 8) 0 ms := by
  rw [ipOutput] at h
  dsimp only at h
  rw [if_neg (by omega)] at h
  split_ifs at h with hdf hroom
  obtain ⟨rest, hrest, h⟩ := Option.bind_eq_some_iff.mp h
  obtain rfl := Option.some.inj h
  refine ⟨by omega, ?_⟩
  have hdvd : 8 ∣ (nic.mtu - ipHlen) / 8 * 8 := Nat.dvd_mul_left ..
  have hfit : (nic.mtu - ipHlen) / 8 * 8 < payload.length := by omega
  have hpos : 0 < (nic.mtu - ipHlen) / 8 * 8 := by omega
  generalize (nic.mtu - ipHlen) / 8 * 8 = len at hrest hdvd hfit hpos ⊢
  have hfirst : (⟨outHeader hdr ipId, ipMf, payload.take len⟩ : IpPacket) =
      slice (outHeader hdr ipId) payload 0 len := by
    rw [slice, if_neg (by omega)]
    simp
  have hcut : CutsFrom (outHeader hdr ipId) payload len (0 + len) rest := by
    rw [Nat.zero_add]
    exact ipFragments_cuts hlen hdvd hpos hdvd hrest
  exact hfirst ▸ hcut.cons (dvd_zero 8) hlen hpos le_rfl (by omega)

-- ---------------------------------------------------------------------------
-- There and back
-- ---------------------------------------------------------------------------

/-- Packets arrive one after the other, with memory for queues. -/
def receiveAll (s : Reassembler) : List IpPacket → List Datagram
  | [] => []
  | m :: ms => (ipInput s.ipq m true).2.toList ++ receiveAll (arrive s m true) ms

variable {payloadOf : FragKey → List Byte} {s : Reassembler} {key : FragKey}

/-- A fragment that does not complete its datagram is kept. -/
theorem arrive_waiting (hs : ReassemblerOk payloadOf s) (hm : Genuine payloadOf m)
    (h : m.IsFragment) {i : Nat} (hi : i < (payloadOf m.hdr.key).length)
    (hmissing : ¬Covers (m.frag :: s.got m.hdr.key) i) :
    (ipInput s.ipq m true).2 = none ∧
      (arrive s m true).got m.hdr.key = m.frag :: s.got m.hdr.key := by
  have hr := ipReass_spec true hs h (hm h).1 (hm h).2
  rw [← ipInput_fragment h] at hr
  rcases hr with ⟨d, hr, hall, -⟩ | ⟨ipq, hr, hqueue, -⟩
  · exact absurd (hall i hi) hmissing
  · refine ⟨congrArg Prod.snd hr, ?_⟩
    have hipq : (ipInput s.ipq m true).1 = ipq := congrArg Prod.fst hr
    have hsome : (lookup ipq m.hdr.key).isNone = false := by
      rw [Bool.eq_false_iff, Ne, Option.isNone_iff_eq_none]
      exact hqueue rfl
    dsimp only [arrive]
    rw [Function.update_self, hipq, hsome, if_neg (by decide), if_pos h.flags]

/-- Fragments with something in each that the others do not have are kept up to the last one, which
completes the datagram. -/
theorem receiveAll_completes (hs : ReassemblerOk payloadOf s) (hne : ms ≠ [])
    (hms : ∀ m ∈ ms, m.hdr.key = key ∧ m.IsFragment ∧ Genuine payloadOf m)
    (hall : ∀ i < (payloadOf key).length, Covers (ms.map (·.frag)) i ∨ Covers (s.got key) i)
    (hown : ∀ m ∈ ms, ∃ i < (payloadOf key).length, m.frag.Covers i ∧ ¬Covers (s.got key) i)
    (hapart : ms.Pairwise fun m m' => ∀ i, m.frag.Covers i → ¬m'.frag.Covers i) :
    ∃ d, receiveAll s ms = [d] ∧ d.data = payloadOf key ∧ d.hdr.key = key := by
  induction ms generalizing s with
  | nil => exact absurd rfl hne
  | cons m ms ih =>
    obtain ⟨⟨hkey, hfragment, hgenuine⟩, hms⟩ := List.forall_mem_cons.mp hms
    obtain ⟨hfirst, hapart⟩ := List.pairwise_cons.mp hapart
    obtain ⟨⟨i, hi, hcov, hnew⟩, hown⟩ := List.forall_mem_cons.mp hown
    subst hkey
    cases ms with
    | nil =>
      have hr := ipReass_spec true hs hfragment (hgenuine hfragment).1
        (hgenuine hfragment).2
      rw [← ipInput_fragment hfragment] at hr
      rcases hr with ⟨d, hr, -, hdata, -, hk⟩ | ⟨ipq, -, -, ⟨j, hj, hmissing⟩, -⟩
      · exact ⟨d, by rw [receiveAll, hr]; rfl, hdata, hk⟩
      · refine absurd ?_ hmissing
        rw [covers_cons]
        exact (hall j hj).imp_left fun hc => by simpa [covers_cons, covers_nil] using hc
    | cons m' ms =>
      obtain ⟨j, hj, hcov', hnew'⟩ := hown m' (List.mem_cons_self ..)
      have hmissing : ¬Covers (m.frag :: s.got m.hdr.key) j := by
        rw [covers_cons, not_or]
        exact ⟨fun hc => hfirst m' (List.mem_cons_self ..) j hc hcov', hnew'⟩
      obtain ⟨hnone, hgot⟩ := arrive_waiting hs hgenuine hfragment hj hmissing
      rw [receiveAll, hnone]
      refine ih (hs.arrive_fragment hfragment (hgenuine hfragment).1 (hgenuine hfragment).2)
        (by simp) hms (fun k hk => ?_) (fun m'' hm'' => ?_) hapart
      · rw [hgot, covers_cons]
        rcases hall k hk with hc | hc
        · rw [List.map_cons, covers_cons] at hc
          rcases hc with hc | hc
          · exact .inr (.inl hc)
          · exact .inl hc
        · exact .inr (.inr hc)
      · obtain ⟨k, hk, hc, hn⟩ := hown m'' hm''
        refine ⟨k, hk, hc, ?_⟩
        rw [hgot, covers_cons, not_or]
        exact ⟨fun hc' => hfirst m'' hm'' k hc' hc, hn⟩

theorem receiveAll_perm {ipId : BitVec 16} {df : Bool} {ms' : List IpPacket}
    (hs : ReassemblerOk payloadOf s) (hlarge : nic.mtu < ipHlen + payload.length) (hlen : ipHlen + payload.length < 2 ^ 16)
    (hout : ipOutput nic ipId hdr df payload memory = some ms) (hperm : ms'.Perm ms)
    (hpayload : payloadOf (outHeader hdr ipId).key = payload)
    (hfree : lookup s.ipq (outHeader hdr ipId).key = none) :
    (∀ m ∈ ms, ipHlen + m.data.length ≤ nic.mtu) ∧
      ∃ d, receiveAll s ms' = [d] ∧ d.data = payload ∧ d.hdr.key = (outHeader hdr ipId).key := by
  obtain ⟨hroom, hcut⟩ := ipOutput_cuts (by omega) hlarge hout
  have hgot := hs.none _ hfree
  have hfrag (m : IpPacket) (hm : m ∈ ms) : ∃ k n, m.frag.off = k ∧ m.frag.stop = k + n ∧ 0 < n ∧
      k + n ≤ payload.length ∧ m.data.length = n ∧ n ≤ (nic.mtu - ipHlen) / 8 * 8 ∧
      m.hdr = outHeader hdr ipId ∧ FragOf m.hdr.key payload m.frag := by
    obtain ⟨k, n, rfl, hk, -, hpos, hle, hfits⟩ := hcut.slices m hm
    obtain ⟨hoff, hstop, hof⟩ := slice_frag (outHeader hdr ipId) hk (by omega) hpos hfits
    refine ⟨k, n, hoff, hstop, hpos, hfits, ?_, hle, rfl, hof⟩
    rw [slice, List.length_take, List.length_drop]
    omega
  refine ⟨fun m hm => ?_, ?_⟩
  · obtain ⟨k, n, -, -, hpos, -, hlen, hle, -⟩ := hfrag m hm
    omega
  have hcomplete : ∃ d, receiveAll s ms' = [d] ∧ d.data = payloadOf (outHeader hdr ipId).key ∧
      d.hdr.key = (outHeader hdr ipId).key := receiveAll_completes hs ?_ ?_ ?_ ?_ ?_
  · rwa [hpayload] at hcomplete
  · rintro rfl
    obtain rfl := List.nil_perm.mp hperm
    have hzero := hcut.covers 0 le_rfl (by omega)
    exact covers_nil hzero
  · intro m hm
    obtain ⟨k, n, hoff, hstop, hpos, hfits, -, hle, hhdr, hof⟩ := hfrag m (hperm.mem_iff.mp hm)
    have hpay : payloadOf m.hdr.key = payload := by rw [hhdr, hpayload]
    refine ⟨by rw [hhdr], ?_, fun _ => ⟨hpay ▸ hof, ?_⟩⟩
    · by_cases hk : k = 0
      · refine .inl (hof.mff.mpr ?_)
        omega
      · exact .inr (hoff ▸ hk)
    · rw [hpay]
      exact List.ne_nil_of_length_pos (by omega)
  · intro i hi
    rw [hpayload] at hi
    obtain ⟨q, hq, hcov⟩ := hcut.covers i (Nat.zero_le _) hi
    exact .inl ⟨q, (hperm.map _).mem_iff.mpr hq, hcov⟩
  · intro m hm
    obtain ⟨k, n, hoff, hstop, hpos, hfits, -⟩ := hfrag m (hperm.mem_iff.mp hm)
    refine ⟨k, by rw [hpayload]; omega, ⟨hoff.le, by omega⟩, ?_⟩
    rw [hgot]
    exact covers_nil
  · refine (hperm.pairwise_iff fun {m m'} hd i hi hi' => hd i hi' hi).mpr (hcut.apart.imp ?_)
    intro m m' hle i hi hi'
    have hlt := hi.2
    have hge := hi'.1
    omega

theorem ipOutput_isSome (hdr : IpHeader) (ipId : BitVec 16) (hmtu : ipHlen + 8 ≤ nic.mtu)
    (hmemory : payload.length ≤ (memory + 1) * ((nic.mtu - ipHlen) / 8 * 8)) :
    (ipOutput nic ipId hdr false payload memory).isSome := by
  rw [ipOutput]
  dsimp only
  by_cases hsmall : ipHlen + payload.length ≤ nic.mtu
  · rw [if_pos hsmall]
    rfl
  · have hroom : (nic.mtu - ipHlen) / 8 * 8 ≤ nic.freeroom := by
      rw [Interface.freeroom]
      omega
    rw [Nat.succ_mul] at hmemory
    have hrest := ipFragments_isSome { hdr with id := ipId, hl := 5 } hroom
      (show payload.length ≤ (nic.mtu - ipHlen) / 8 * 8 + memory * ((nic.mtu - ipHlen) / 8 * 8) by omega)
    obtain ⟨rest, hrest⟩ := Option.isSome_iff_exists.mp hrest
    rw [if_neg hsmall, if_neg (by simp), if_neg (by omega), hrest]
    rfl

end SheepShear.Slirp
