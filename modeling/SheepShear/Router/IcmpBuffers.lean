import SheepShear.Router.Icmp

/-!
# Where the ICMP messages are written

The message about a packet is copied behind the unused field, but its size
counts that field once only, so the copy ends four bytes behind the block. What
is read from a raw socket is taken to be complete.
-/

namespace SheepShear.Router.Icmp

variable {r : Addresses} {icmp icmp' : Frame} {malloc : Block}

-- ---------------------------------------------------------------------------
-- Lengths
-- ---------------------------------------------------------------------------

theorem writeMac_length (h : writeMac r icmp = .ok icmp') : icmp'.length = icmp.length := by
  simp only [writeMac, Except.bind_eq_ok] at h
  obtain ⟨icmp₁, h₁, icmp₂, h₂, h₃⟩ := h
  rw [(Buffer.write_eq_ok h₃).2, (Buffer.write_eq_ok h₂).2, (Buffer.write_eq_ok h₁).2]

theorem writeIp_length {msgSize : Nat} (h : writeIp r icmp msgSize = .ok icmp') :
    icmp'.length = icmp.length := by
  simp only [writeIp, Except.bind_eq_ok] at h
  obtain ⟨_, h₁, _, h₂, _, h₃, _, h₄, _, h₅, _, h₆, _, h₇, _, h₈, h₉⟩ := h
  rw [(Buffer.write_eq_ok h₉).2, (Buffer.write_eq_ok h₈).2, (Buffer.write_eq_ok h₇).2,
    (Buffer.write_eq_ok h₆).2, (Buffer.write_eq_ok h₅).2, (Buffer.write_eq_ok h₄).2,
    (Buffer.write_eq_ok h₃).2, (Buffer.write_eq_ok h₂).2, (Buffer.write_eq_ok h₁).2]

theorem makeIp4Checksum_length {ε : Type} {e : ε} (h : makeIp4Checksum e icmp = .ok icmp') :
    icmp'.length = icmp.length := by
  simp only [makeIp4Checksum, Except.bind_eq_ok] at h
  obtain ⟨_, h₁, _, -, _, -, h₂⟩ := h
  rw [(Buffer.write_eq_ok h₂).2, (Buffer.write_eq_ok h₁).2]

theorem readByte_eq_ok {ε : Type} {e : ε} {off : Nat} {b : Byte}
    (h : readByte e icmp off = .ok b) : off < icmp.length ∧ b = icmp.getD off 0 := by
  by_cases hoff : off < icmp.length
  · rw [readByte_ok e hoff] at h
    exact ⟨hoff, (Except.ok.inj h).symm⟩
  · have hfar : ¬off + 1 ≤ icmp.length := by omega
    rw [readByte, Buffer.read_error hfar] at h
    cases h

/-- A sum of words that is read to its end. -/
theorem sumWords_eq_ok {ε : Type} {e : ε} {off n : Nat} {sum32 sum : Word}
    (h : sumWords e icmp off n sum32 = .ok sum) : n = 0 ∨ off + 2 * n ≤ icmp.length := by
  induction n generalizing off sum32 with
  | zero => exact .inl rfl
  | succ n ih =>
    right
    rw [sumWords, Except.bind_eq_ok] at h
    obtain ⟨w, hw, hrest⟩ := h
    have hin : off + 2 ≤ icmp.length := by
      by_contra hout
      rw [readWord, Buffer.read_error hout] at hw
      cases hw
    rcases ih hrest with rfl | hle <;> omega

/-- The header that is summed is in the packet. -/
theorem makeIp4Checksum_eq_ok {ε : Type} {e : ε} (h : makeIp4Checksum e icmp = .ok icmp') :
    ihl icmp = 0 ∨ sizeofMac + 4 * ihl icmp ≤ icmp.length := by
  simp only [makeIp4Checksum, Except.bind_eq_ok] at h
  obtain ⟨cleared, h₁, headerLen, hheader, _, hsum, -⟩ := h
  obtain ⟨hfits, hlen⟩ := Buffer.write_eq_ok h₁
  have hcleared : cleared = Buffer.overwrite icmp 24 (wordBytes 0) := by
    rw [writeWord, Buffer.write_ok hfits] at h₁
    exact (Except.ok.inj h₁).symm
  have hihl : headerLen = ihl icmp := by
    rw [ipHeaderLen, Except.bind_eq_ok] at hheader
    obtain ⟨b, hb, hval⟩ := hheader
    obtain ⟨-, rfl⟩ := readByte_eq_ok hb
    rw [hcleared, getD_overwrite hfits (.inl (by decide))] at hval
    exact (Except.ok.inj hval).symm
  have := sumWords_eq_ok hsum
  omega

-- ---------------------------------------------------------------------------
-- Messages about packets
-- ---------------------------------------------------------------------------

/-- A message is never finished: the copy does not fit behind the unused field. -/
theorem message_overruns {err : Nat} {type code : Byte} (hreply : replyFor err = some (type, code))
    (hmac : r.macosIp ≠ 0) (fill : Nat → Byte) (ipErr : Frame) (result : Option Frame) :
    errorWinsock2Icmp r err ipErr (some fill) ≠ .ok result := by
  intro h
  simp only [errorWinsock2Icmp, hreply, if_neg hmac, Except.bind_eq_ok] at h
  obtain ⟨headerLen, -, _, hmac₁, _, hip, _, hchecksum, _, htype, _, hcode, _, hunused, message,
    hread, _, hcopy, -⟩ := h
  have hlen : message.length = 4 * headerLen + 4 + 8 := by
    by_cases hin : sizeofMac + (4 * headerLen + 4 + 8) ≤ ipErr.length
    · rw [Buffer.read_ok hin] at hread
      rw [← Except.ok.inj hread, Buffer.length_read hin]
    · rw [Buffer.read_error hin] at hread
      cases hread
  have hfits := (Buffer.write_eq_ok hcopy).1
  rw [(Buffer.write_eq_ok hunused).2, (Buffer.write_eq_ok hcode).2, (Buffer.write_eq_ok htype).2,
    makeIp4Checksum_length hchecksum, writeIp_length hip, writeMac_length hmac₁, List.length_map,
    List.length_range, hlen] at hfits
  omega

theorem silent_ok {err : Nat} {ipErr : Frame} (hlen : sizeofIp ≤ ipErr.length)
    (h : Silent r err malloc) : errorWinsock2Icmp r err ipErr malloc = .ok none := by
  have hheader : ∃ headerLen, ipHeaderLen Outside.packet ipErr = .ok headerLen := by
    have hin : sizeofMac < ipErr.length := lt_of_lt_of_le (by decide) hlen
    rw [ipHeaderLen, readByte_ok _ hin]
    exact ⟨_, rfl⟩
  obtain ⟨headerLen, hheader⟩ := hheader
  rw [errorWinsock2Icmp]
  split
  · rfl
  · next type code hreply =>
    rw [hheader, Except.ok_bind]
    split
    · rfl
    · next hmac =>
      rcases h with hnone | hzero | rfl
      · rw [hreply] at hnone
        cases hnone
      · exact absurd hzero hmac
      · rfl

theorem errorOk_iff {err : Nat} {ipErr : Frame} (hlen : sizeofIp ≤ ipErr.length) :
    ErrorOk r err ipErr malloc ↔ Silent r err malloc := by
  constructor
  · rintro ⟨result, hresult, -⟩
    by_contra hsends
    simp only [Silent, not_or] at hsends
    obtain ⟨hreply, hmac, hmalloc⟩ := hsends
    obtain ⟨⟨type, code⟩, hreply⟩ := Option.ne_none_iff_exists'.mp hreply
    obtain ⟨fill, rfl⟩ := Option.ne_none_iff_exists'.mp hmalloc
    exact message_overruns hreply hmac fill ipErr result hresult
  · intro h
    exact ⟨none, silent_ok hlen h, fun _ h => nomatch h⟩

-- ---------------------------------------------------------------------------
-- Packets that are read
-- ---------------------------------------------------------------------------

theorem write_getD {ε : Type} {e : ε} {off i : Nat} {xs : List Byte}
    (h : Buffer.write e icmp off xs = .ok icmp') (hi : i < off ∨ off + xs.length ≤ i) :
    icmp'.getD i 0 = icmp.getD i 0 := by
  have hfits := (Buffer.write_eq_ok h).1
  rw [Buffer.write_ok hfits] at h
  rw [← Except.ok.inj h, getD_overwrite hfits hi]

theorem write_getD_self {ε : Type} {e : ε} {off i : Nat} {xs : List Byte}
    (h : Buffer.write e icmp off xs = .ok icmp') (hi : i < xs.length) :
    icmp'.getD (off + i) 0 = xs.getD i 0 := by
  have hfits := (Buffer.write_eq_ok h).1
  have htake : (icmp.take off).length = off := by
    rw [List.length_take]
    omega
  rw [Buffer.write_ok hfits] at h
  rw [← Except.ok.inj h, Buffer.overwrite, List.append_assoc, List.getD_eq_getElem?_getD,
    List.getElem?_append_right (by omega), htake, Nat.add_sub_cancel_left,
    List.getElem?_append_left hi, ← List.getD_eq_getElem?_getD]

theorem makeIcmpChecksum_eq_ok {ε : Type} {e : ε} {len : BitVec 32}
    (h : makeIcmpChecksum e icmp len = .ok icmp') :
    38 ≤ icmp.length ∧ icmp'.length = icmp.length ∧ ∀ i < 36, icmp'.getD i 0 = icmp.getD i 0 := by
  simp only [makeIcmpChecksum, Except.bind_eq_ok] at h
  obtain ⟨_, h₁, _, -, h₂⟩ := h
  obtain ⟨hfits, hlen⟩ := Buffer.write_eq_ok h₁
  refine ⟨hfits, (Buffer.write_eq_ok h₂).2.trans hlen, fun i hi => ?_⟩
  rw [write_getD h₂ (.inl hi), write_getD h₁ (.inl hi)]

theorem patchHeader_eq_ok {type : Byte} (h : patchHeader r icmp type = .ok icmp') :
    (carriesHeader type → 58 ≤ icmp.length) ∧ icmp'.length = icmp.length ∧
      ∀ i < 54, icmp'.getD i 0 = icmp.getD i 0 := by
  rw [patchHeader] at h
  split at h
  · simp only [Except.bind_eq_ok] at h
    obtain ⟨_, h₁, _, -, h₂⟩ := h
    obtain rfl := Except.ok.inj h₂
    obtain ⟨hfits, hlen⟩ := Buffer.write_eq_ok h₁
    exact ⟨fun _ => hfits, hlen, fun i hi => write_getD h₁ (.inl hi)⟩
  · next hplain =>
    obtain rfl := Except.ok.inj h
    exact ⟨fun h => absurd h hplain, rfl, fun _ _ => rfl⟩

/-- The steps for a packet that is not discarded. -/
theorem icmpReadCompletion_eq {error : Word} {raw : List Byte} {fill : Nat → Byte}
    (herror : error = 0) (hmac : r.macosIp ≠ 0) (hsize : raw.length ≤ 1460) :
    icmpReadCompletion r error raw (some fill) = (do
      let icmp ← writeMac r ((List.range (sizeofMac + raw.length)).map fill)
      let icmp ← Buffer.write .message icmp sizeofMac raw
      let type ← readByte .message icmp 34
      let icmp ← patchHeader r icmp type
      let icmp ← makeIcmpChecksum .message icmp (BitVec.ofNat 32 (sizeofMac + raw.length))
      let icmp ← Buffer.write .message icmp 30 r.macosIp.bytes
      let ttl ← readByte .message icmp 22
      let icmp ← Buffer.write .message icmp 22 [ttl - 1]
      let icmp ← makeIp4Checksum .message icmp
      if ttl - 1 = 0 then return none else return some icmp) := by
  rw [icmpReadCompletion, if_pos ⟨herror, hmac⟩, if_neg (by omega)]

/-- What is read without an access outside is complete. -/
theorem complete_of_ok {error : Word} {raw : List Byte} {fill : Nat → Byte} (herror : error = 0)
    (hmac : r.macosIp ≠ 0) (hsize : raw.length ≤ 1460)
    (h : CompletionOk r error raw (some fill)) : Complete raw := by
  obtain ⟨result, h⟩ := h
  rw [icmpReadCompletion_eq herror hmac hsize] at h
  simp only [Except.bind_eq_ok] at h
  obtain ⟨icmp₁, h₁, icmp₂, h₂, type, h₃, icmp₄, h₄, icmp₅, h₅, icmp₆, h₆, ttl, -, icmp₇, h₇,
    icmp₈, h₈, -⟩ := h
  have hlen₂ : icmp₂.length = 14 + raw.length := by
    rw [(Buffer.write_eq_ok h₂).2, writeMac_length h₁, List.length_map, List.length_range, sizeofMac]
  obtain ⟨htype, rfl⟩ := readByte_eq_ok h₃
  obtain ⟨hcarried, hlen₄, hget₄⟩ := patchHeader_eq_ok h₄
  obtain ⟨hicmp, hlen₅, hget₅⟩ := makeIcmpChecksum_eq_ok h₅
  have hraw : ∀ i < raw.length, icmp₂.getD (14 + i) 0 = raw.getD i 0 := fun i hi =>
    write_getD_self h₂ hi
  have hihl : ihl icmp₇ = (raw.getD 0 0 &&& 0x0f).toNat := by
    rw [ihl, sizeofMac, write_getD h₇ (.inl (by omega)), write_getD h₆ (.inl (by omega)),
      hget₅ 14 (by omega), hget₄ 14 (by omega), ← hraw 0 (by omega)]
  refine ⟨by omega, ?_, fun hcarries => ?_⟩
  · have hheader := makeIp4Checksum_eq_ok h₈
    rw [hihl, (Buffer.write_eq_ok h₇).2, (Buffer.write_eq_ok h₆).2, hlen₅, hlen₄, hlen₂,
      sizeofMac] at hheader
    omega
  · rw [← hraw 20 (by omega)] at hcarries
    have := hcarried hcarries
    omega

theorem writeMac_ok (h : 14 ≤ icmp.length) :
    ∃ icmp', writeMac r icmp = .ok icmp' ∧ icmp'.length = icmp.length := by
  have hether := r.ether_six
  have hrouter := r.router_six
  obtain ⟨icmp₁, h₁, hlen₁⟩ := Buffer.exists_write (e := Outside.message) rfl
    (show 0 + r.etherAddr.length ≤ icmp.length by omega)
  obtain ⟨icmp₂, h₂, hlen₂⟩ := Buffer.exists_write (e := Outside.message) hlen₁
    (show 6 + r.routerMacAddr.length ≤ icmp.length by omega)
  obtain ⟨icmp₃, h₃, hlen₃⟩ := Buffer.exists_write (e := Outside.message) hlen₂
    (show 12 + (wordBytes 0x0800).length ≤ icmp.length from h)
  refine ⟨icmp₃, ?_, hlen₃⟩
  rw [writeMac, h₁, Except.ok_bind, h₂, Except.ok_bind]
  exact h₃

theorem patchHeader_ok {type : Byte} (h : carriesHeader type → 58 ≤ icmp.length) :
    ∃ icmp', patchHeader r icmp type = .ok icmp' := by
  rw [patchHeader]
  split
  · next hcarries =>
    have hlen := h hcarries
    obtain ⟨icmp₁, h₁, hlen₁⟩ := Buffer.exists_write (e := Outside.message) rfl
      (show sizeofIcmp + 4 - sizeofMac + 26 + r.macosIp.bytes.length ≤ icmp.length from hlen)
    refine ⟨icmp₁, ?_⟩
    rw [h₁, Except.ok_bind, readByte_ok _ (by rw [hlen₁]; exact lt_of_lt_of_le (by decide) hlen)]
    rfl
  · exact ⟨icmp, rfl⟩

/-- What is complete is handled inside of the copy. -/
theorem ok_of_complete {error : Word} {raw : List Byte} {fill : Nat → Byte} (herror : error = 0)
    (hmac : r.macosIp ≠ 0) (hsize : raw.length ≤ 1460) (h : Complete raw) :
    CompletionOk r error raw (some fill) := by
  obtain ⟨hicmp, hheader, hcarried⟩ := h
  have hblock : ((List.range (sizeofMac + raw.length)).map fill).length =
      sizeofMac + raw.length := by
    rw [List.length_map, List.length_range]
  obtain ⟨icmp₁, h₁, hlen₁⟩ := writeMac_ok (r := r) (le_of_le_of_eq (Nat.le_add_right _ _) hblock.symm)
  rw [hblock] at hlen₁
  obtain ⟨icmp₂, h₂, hlen₂⟩ := Buffer.exists_write (e := Outside.message) hlen₁ le_rfl
  have hraw : ∀ i < raw.length, icmp₂.getD (14 + i) 0 = raw.getD i 0 := fun i hi =>
    write_getD_self h₂ hi
  rw [sizeofMac] at hlen₂
  have h₃ : readByte Outside.message icmp₂ 34 = .ok (raw.getD 20 0) := by
    rw [readByte_ok _ (by omega), ← hraw 20 (by omega)]
  have hroom : carriesHeader (raw.getD 20 0) → 58 ≤ icmp₂.length := fun h => by
    have := hcarried h
    omega
  obtain ⟨icmp₄, h₄⟩ := patchHeader_ok (r := r) hroom
  obtain ⟨-, hlen₄, hget₄⟩ := patchHeader_eq_ok h₄
  have hfits₄ : Layer.icmp.Fits icmp₄ :=
    ⟨by simp only [Layer.headersSize, sizeofIcmp]; omega, by omega, le_rfl⟩
  obtain ⟨sum₅, hmake₅, -⟩ := Layer.icmp_make Outside.message hfits₄
  have h₅ : makeIcmpChecksum Outside.message icmp₄ (BitVec.ofNat 32 (sizeofMac + raw.length)) =
      .ok (Layer.icmp.store icmp₄ (checksumOf sum₅)) := by
    rw [← hmake₅, Layer.make, hlen₄, hlen₂, sizeofMac]
  obtain ⟨-, hlen₅, hget₅⟩ := makeIcmpChecksum_eq_ok h₅
  generalize Layer.icmp.store icmp₄ (checksumOf sum₅) = icmp₅ at h₅ hlen₅ hget₅
  obtain ⟨icmp₆, h₆, hlen₆⟩ := Buffer.exists_write (e := Outside.message) (hlen₅.trans
    (hlen₄.trans hlen₂)) (show 30 + r.macosIp.bytes.length ≤ 14 + raw.length by
      rw [Word.length_bytes]; omega)
  have httl := readByte_ok Outside.message (show 22 < icmp₆.length by omega)
  obtain ⟨icmp₇, h₇, hlen₇⟩ := Buffer.exists_write (e := Outside.message) hlen₆
    (show 22 + [icmp₆.getD 22 0 - 1].length ≤ 14 + raw.length by
      rw [List.length_singleton]; omega)
  have hihl : ihl icmp₇ = (raw.getD 0 0 &&& 0x0f).toNat := by
    rw [ihl, sizeofMac, write_getD h₇ (.inl (by omega)), write_getD h₆ (.inl (by omega)),
      hget₅ 14 (by omega), hget₄ 14 (by omega), ← hraw 0 (by omega)]
  have hfits₇ : Layer.ip4.Fits icmp₇ :=
    ⟨by simp only [Layer.headersSize, sizeofIp]; omega, by omega, by
      simp only [Layer.stop, sizeofMac, hihl]
      omega⟩
  obtain ⟨sum₈, h₈, -⟩ := Layer.ip4_make Outside.message hfits₇
  rw [Layer.make] at h₈
  rw [CompletionOk, icmpReadCompletion_eq herror hmac hsize, h₁, Except.ok_bind, h₂, Except.ok_bind,
    h₃, Except.ok_bind, h₄, Except.ok_bind, h₅, Except.ok_bind, h₆, Except.ok_bind, httl,
    Except.ok_bind, h₇, Except.ok_bind, h₈, Except.ok_bind]
  split
  · exact ⟨_, rfl⟩
  · exact ⟨_, rfl⟩

theorem completionOk_iff {error : Word} {raw : List Byte} :
    CompletionOk r error raw malloc ↔ Discarded r error raw malloc ∨ Complete raw := by
  by_cases hdiscarded : Discarded r error raw malloc
  · refine ⟨fun _ => .inl hdiscarded, fun _ => ⟨none, ?_⟩⟩
    unfold icmpReadCompletion
    split
    · next hopen =>
      split
      · rfl
      · next hsize =>
        rcases hdiscarded with h | h | h | rfl
        · exact absurd hopen.1 h
        · exact absurd h hopen.2
        · exact absurd h hsize
        · rfl
    · rfl
  · rw [or_iff_right hdiscarded]
    simp only [Discarded, not_or, not_not, Nat.not_lt] at hdiscarded
    obtain ⟨herror, hmac, hsize, hmalloc⟩ := hdiscarded
    obtain ⟨fill, rfl⟩ := Option.ne_none_iff_exists'.mp hmalloc
    exact ⟨complete_of_ok herror hmac hsize, ok_of_complete herror hmac hsize⟩

/-- The messages stay in their buffers exactly when none is built about a packet, and what is read
is discarded or complete. -/
theorem buffers_iff (err : Nat) {ipErr : Frame} (hlen : sizeofIp ≤ ipErr.length) (error : Word)
    (raw : List Byte) (r : Addresses) (malloc : Block) :
    (ErrorOk r err ipErr malloc ↔ Silent r err malloc) ∧
      (CompletionOk r error raw malloc ↔ Discarded r error raw malloc ∨ Complete raw) :=
  ⟨errorOk_iff hlen, completionOk_iff⟩

-- ---------------------------------------------------------------------------
-- A router
-- ---------------------------------------------------------------------------

def exampleRouter : Addresses where
  etherAddr := [0, 1, 2, 3, 4, 5]
  routerMacAddr := [0x34, 0x32, 0x36, 0x37, 0x37, 0x39]
  routerIp := 0x0a000001
  macosIp := 0x0a000002
  nextIpIdent := 1
  ether_six := rfl
  router_six := rfl

/-- The smallest packet whose time to live ends, and an empty read. -/
def shortPacket : Frame := List.replicate 14 0 ++ 0x45 :: List.replicate 19 0

theorem shortPacket_buffers :
    (ErrorOk exampleRouter 12016 shortPacket none ↔ Silent exampleRouter 12016 none) ∧
      (CompletionOk exampleRouter 0 [] none ↔
        Discarded exampleRouter 0 [] none ∨ Complete []) :=
  buffers_iff 12016 (by decide) 0 [] exampleRouter none

/-- A message about a packet ends behind its block, and a read of a few bytes is not enough. -/
theorem exceeded_overruns : ¬ErrorOk exampleRouter 12016 shortPacket (some fun _ => 0) ∧
    ¬CompletionOk exampleRouter 0 [0x45] (some fun _ => 0) := by
  constructor
  · rintro ⟨result, h, -⟩
    exact message_overruns rfl (by decide) _ _ result h
  · intro h
    have := (complete_of_ok rfl (by decide) (by decide) h).icmp
    revert this
    decide

end SheepShear.Router.Icmp
