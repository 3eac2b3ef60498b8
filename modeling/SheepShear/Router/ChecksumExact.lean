import SheepShear.Router.Checksum

/-!
# When the checksums are right

A receiver adds up the words that a checksum covers, the checksum field among
them, and expects all ones. The header checksum passes this test when the
header reaches the field. The TCP checksum takes the header length for part of
a length without options, and the ICMP checksum leaves out an odd last byte.
-/

namespace SheepShear.Router

open OnesComplement

inductive Layer where
  | ip4
  | tcp
  | icmp
  deriving DecidableEq, Repr

-- ---------------------------------------------------------------------------
-- What a checksum covers
-- ---------------------------------------------------------------------------

/-- The header length of the IP header, in words of four bytes. -/
def ihl (frame : Frame) : Nat := (frame.getD sizeofMac 0 &&& 0x0f).toNat

/-- A field of two bytes. -/
def wordAt (frame : Frame) (off : Nat) : BitVec 16 := frame.getD off 0 ++ frame.getD (off + 1) 0

namespace Layer

/-- The function of the router, on a packet of the frame's size. -/
def make {ε : Type} (e : ε) : Layer → Frame → Except ε Frame
  | ip4, frame => makeIp4Checksum e frame
  | tcp, frame => makeTcpChecksum e frame (BitVec.ofNat 32 frame.length)
  | icmp, frame => makeIcmpChecksum e frame (BitVec.ofNat 32 frame.length)

/-- The `sizeof` of the packet's type. -/
def headersSize : Layer → Nat
  | ip4 => sizeofIp
  | tcp => sizeofTcp
  | icmp => sizeofIcmp

/-- Where the router stores the checksum. -/
def stored : Layer → Nat
  | ip4 => 24
  | tcp => 50
  | icmp => 36

/-- The place of the checksum in its header. -/
def field : Layer → Nat
  | ip4 => 10
  | tcp => 16
  | icmp => 2

def start : Layer → Frame → Nat
  | ip4, _ => sizeofMac
  | _, frame => sizeofMac + 4 * ihl frame

def stop : Layer → Frame → Nat
  | ip4, frame => sizeofMac + 4 * ihl frame
  | _, frame => frame.length

/-- The header, or the header and the payload. -/
def covered (l : Layer) (frame : Frame) : List Byte :=
  (frame.take (l.stop frame)).drop (l.start frame)

/-- The pseudo header of TCP, with the length of the segment. -/
def pseudo : Layer → Frame → List (BitVec 16)
  | tcp, frame =>
    [wordAt frame 26, wordAt frame 28, wordAt frame 30, wordAt frame 32,
      (frame.getD 23 0).setWidth 16, BitVec.ofNat 16 (tcp.covered frame).length]
  | _, _ => []

/-- The stored checksum is that of the header, which is covered, and the words
add up to all ones. -/
structure Correct (l : Layer) (frame : Frame) : Prop where
  place : l.start frame + l.field = l.stored
  inside : l.stored + 2 ≤ l.stop frame
  ones : sum (l.pseudo frame ++ words (l.covered frame)) = 0xffff

/-- A packet of the router, of at most 1500 bytes behind the Ethernet header. -/
structure Fits (l : Layer) (frame : Frame) : Prop where
  headers : l.headersSize ≤ frame.length
  maximum : frame.length ≤ 1514
  stop : l.stop frame ≤ frame.length

/-- What the three functions rely on. -/
def Exact : Layer → Frame → Prop
  | ip4, frame => 3 ≤ ihl frame
  | tcp, frame => ihl frame = 5 ∧ frame.getD 46 0 >>> 2 = 20
  | icmp, frame => ihl frame = 5 ∧ (frame.length % 2 = 0 ∨ frame.getD (frame.length - 1) 0 = 0)

end Layer

-- ---------------------------------------------------------------------------
-- Checked accesses
-- ---------------------------------------------------------------------------

section Accesses

variable {ε : Type} (e : ε)

@[simp] theorem length_wordBytes (w : BitVec 16) : (wordBytes w).length = 2 := rfl

theorem drop_eq_getD_cons {frame : Frame} {off : Nat} (h : off < frame.length) :
    frame.drop off = frame.getD off 0 :: frame.drop (off + 1) := by
  rw [List.drop_eq_getElem_cons h, List.getD_eq_getElem frame 0 h]

theorem readByte_ok {frame : Frame} {off : Nat} (h : off < frame.length) :
    readByte e frame off = .ok (frame.getD off 0) := by
  have hlen : off + 1 ≤ frame.length := h
  rw [readByte, Buffer.read_ok hlen, drop_eq_getD_cons h]
  rfl

theorem readWord_ok {frame : Frame} {off : Nat} (h : off + 2 ≤ frame.length) :
    readWord e frame off = .ok (wordAt frame off) := by
  rw [readWord, Buffer.read_ok h, drop_eq_getD_cons (by omega), drop_eq_getD_cons (by omega)]
  rfl

theorem writeWord_ok {frame : Frame} {off : Nat} (h : off + 2 ≤ frame.length) (w : BitVec 16) :
    writeWord e frame off w = .ok (Buffer.overwrite frame off (wordBytes w)) :=
  Buffer.write_ok h

theorem words_wordBytes_append (w : BitVec 16) (bs : List Byte) :
    words (wordBytes w ++ bs) = w :: words bs := by
  have hw : w.extractLsb' 8 8 ++ w.extractLsb' 0 8 = w := by
    rw [BitVec.extractLsb'_append_extractLsb'_eq_extractLsb' (by omega)]
    exact BitVec.extractLsb'_eq_self
  simp only [wordBytes, List.cons_append, List.nil_append, words, hw]

/-- The sum of the loops, when no carry leaves the 32 bits. -/
theorem sumWords_ok {frame : Frame} {off n : Nat} {sum32 : Word} (h : off + 2 * n ≤ frame.length)
    (hsmall : sum32.toNat + 65535 * n < 2 ^ 32) :
    ∃ r, sumWords e frame off n sum32 = .ok r ∧
      r.toNat = sum32.toNat + total (words ((frame.drop off).take (2 * n))) ∧
      r.toNat ≤ sum32.toNat + 65535 * n := by
  induction n generalizing off sum32 with
  | zero => exact ⟨sum32, rfl, by simp [words], by omega⟩
  | succ n ih =>
    have hw := (wordAt frame off).isLt
    have hadd : (sum32 + (wordAt frame off).setWidth 32).toNat =
        sum32.toNat + (wordAt frame off).toNat := by
      rw [BitVec.toNat_add, BitVec.toNat_setWidth]
      omega
    have hin : off + 2 + 2 * n ≤ frame.length := by omega
    have hsmall' : (sum32 + (wordAt frame off).setWidth 32).toNat + 65535 * n < 2 ^ 32 := by omega
    obtain ⟨r, hr, htotal, hle⟩ := ih hin hsmall'
    refine ⟨r, ?_, ?_, by omega⟩
    · rw [sumWords, readWord_ok e (by omega)]
      exact hr
    · have hdrop : frame.drop off =
          frame.getD off 0 :: frame.getD (off + 1) 0 :: frame.drop (off + 2) := by
        rw [drop_eq_getD_cons (by omega), drop_eq_getD_cons (by omega)]
      rw [htotal, hadd, hdrop,
        show 2 * (n + 1) = 2 * n + 1 + 1 by omega, List.take_succ_cons, List.take_succ_cons, words,
        total_cons, wordAt]
      omega

end Accesses

-- ---------------------------------------------------------------------------
-- Complements
-- ---------------------------------------------------------------------------

theorem toNat_foldCarries (sum32 : Word) : (foldCarries sum32).toNat = wrap sum32.toNat := by
  induction sum32 using foldCarries.induct with
  | case1 sum32 h =>
    have hlt : sum32.toNat / 65536 = 0 := by rw [← toNat_hiword, h]; rfl
    rw [foldCarries, if_pos h, wrap_of_lt (by omega)]
  | case2 sum32 h ih => rw [foldCarries, if_neg h, ih, toNat_carry, wrap_carry]

theorem wrap_le (n : Nat) : wrap n ≤ 65535 := by
  unfold wrap
  split <;> omega

theorem toNat_checksumOf (sum32 : Word) :
    (checksumOf sum32).toNat = 65535 - wrap sum32.toNat := by
  have hle := wrap_le sum32.toNat
  rw [checksumOf, BitVec.toNat_setWidth, BitVec.toNat_not, toNat_foldCarries]
  omega

/-- A checksum field of the complement of `n`, among words of the sum `m`. -/
theorem ones_iff {ws : List (BitVec 16)} {m n : Nat} (htotal : total ws = m + (65535 - wrap n))
    (hzero : m = 0 → n = 0) : sum ws = 0xffff ↔ m % 65535 = n % 65535 := by
  rw [sum_eq_ones_iff, htotal]
  unfold wrap
  split <;> omega

-- ---------------------------------------------------------------------------
-- The checksum field
-- ---------------------------------------------------------------------------

theorem overwrite_overwrite {frame xs ys : List Byte} {off : Nat} (hlen : ys.length = xs.length)
    (h : off + xs.length ≤ frame.length) :
    Buffer.overwrite (Buffer.overwrite frame off xs) off ys = Buffer.overwrite frame off ys := by
  have htake : (frame.take off).length = off := by
    rw [List.length_take]
    omega
  have hfield := Buffer.overwrite_field (frame.take off) xs (frame.drop (off + xs.length)) ys hlen
  rw [htake, ← List.append_assoc] at hfield
  have hframe : Buffer.overwrite frame off xs =
      frame.take off ++ xs ++ frame.drop (off + xs.length) := rfl
  rw [hframe, hfield, Buffer.overwrite, hlen, List.append_assoc]

theorem getD_overwrite {frame xs : List Byte} {off i : Nat} (hfits : off + xs.length ≤ frame.length)
    (h : i < off ∨ off + xs.length ≤ i) : (Buffer.overwrite frame off xs).getD i 0 = frame.getD i 0 := by
  have htake : (frame.take off).length = off := by
    rw [List.length_take]
    omega
  simp only [List.getD_eq_getElem?_getD, Buffer.overwrite, List.append_assoc]
  rcases h with h | h
  · rw [List.getElem?_append_left (by omega), List.getElem?_take, if_pos h]
  · rw [List.getElem?_append_right (by omega), List.getElem?_append_right (by omega),
      List.getElem?_drop, htake]
    congr 2
    omega

/-- A field at an even place of what is covered. -/
theorem words_overwrite {bs : List Byte} {off : Nat} (heven : off % 2 = 0)
    (h : off + 2 ≤ bs.length) (w : BitVec 16) :
    words (Buffer.overwrite bs off (wordBytes w)) =
      words (bs.take off) ++ w :: words (bs.drop (off + 2)) := by
  have htake : (bs.take off).length = off := by
    rw [List.length_take]
    omega
  rw [Buffer.overwrite, List.append_assoc, words_append (by rw [htake]; exact heven),
    words_wordBytes_append, length_wordBytes]

theorem total_words_overwrite {bs : List Byte} {off : Nat} (heven : off % 2 = 0)
    (h : off + 2 ≤ bs.length) (w : BitVec 16) :
    total (words (Buffer.overwrite bs off (wordBytes w))) =
      total (words (Buffer.overwrite bs off (wordBytes 0))) + w.toNat := by
  rw [words_overwrite heven h, words_overwrite heven h, total_append, total_append, total_cons,
    total_cons, show (0 : BitVec 16).toNat = 0 from rfl]
  omega

/-- What is covered, with the field in it. -/
theorem slice_overwrite {frame xs : List Byte} {start stop off : Nat} (hstart : start ≤ off)
    (hstop : off + xs.length ≤ stop) (hlen : stop ≤ frame.length) :
    ((Buffer.overwrite frame off xs).take stop).drop start =
      Buffer.overwrite ((frame.take stop).drop start) (off - start) xs := by
  have hsplit : frame = (frame.take stop).take start ++ (frame.take stop).drop start ++
      frame.drop stop := by
    rw [List.take_append_drop, List.take_append_drop]
  have hfront : ((frame.take stop).take start).length = start := by
    rw [List.length_take, List.length_take]
    omega
  have hslice : ((frame.take stop).drop start).length = stop - start := by
    rw [List.length_drop, List.length_take]
    omega
  generalize hpre : (frame.take stop).take start = pre at *
  generalize hbs : (frame.take stop).drop start = bs at *
  generalize frame.drop stop = post at *
  obtain ⟨k, rfl⟩ := Nat.exists_eq_add_of_le hstart
  subst hfront
  rw [hsplit, List.append_assoc, Buffer.overwrite_append,
    Buffer.overwrite_append_left (by omega), ← List.append_assoc]
  have hover : (pre ++ Buffer.overwrite bs k xs).length = stop := by
    rw [List.length_append, Buffer.length_overwrite (by omega)]
    omega
  rw [List.take_left' hover, List.drop_left, Nat.add_sub_cancel_left]

/-- The words of an odd number of bytes end in the last one. -/
theorem total_words_tail (bs : List Byte) :
    total (words bs) = total (words (bs.take (2 * (bs.length / 2)))) +
      if bs.length % 2 = 1 then 256 * (bs.getD (bs.length - 1) 0).toNat else 0 := by
  split
  case isTrue hodd =>
    have hsplit : bs = bs.take (2 * (bs.length / 2)) ++ [bs.getD (bs.length - 1) 0] := by
      conv_lhs => rw [← List.take_append_drop (2 * (bs.length / 2)) bs]
      rw [show 2 * (bs.length / 2) = bs.length - 1 by omega, drop_eq_getD_cons (by omega),
        List.drop_of_length_le (by omega)]
    have heven : (bs.take (2 * (bs.length / 2))).length % 2 = 0 := by
      rw [List.length_take]
      omega
    have hlast : ∀ b : Byte, (b ++ 0#8).toNat = 256 * b.toNat := fun b => by
      rw [BitVec.toNat_append, show (0#8).toNat = 0 from rfl, Nat.or_zero, Nat.shiftLeft_eq]
      omega
    conv_lhs => rw [hsplit]
    rw [words_append heven, total_append, words, total_cons, total_nil, hlast, Nat.add_zero]
  case isFalse heven =>
    rw [List.take_of_length_le (by omega), Nat.add_zero]

namespace Layer

variable {l : Layer} {frame : Frame}

/-- The frame with a checksum stored in it. -/
def store (l : Layer) (frame : Frame) (w : BitVec 16) : Frame :=
  Buffer.overwrite frame l.stored (wordBytes w)

theorem Fits.stored (hfits : l.Fits frame) : l.stored + 2 ≤ frame.length := by
  have := hfits.headers
  cases l <;> simp only [headersSize, Layer.stored, sizeofIp, sizeofTcp, sizeofIcmp] at this ⊢ <;>
    omega

section Store

variable (hfits : l.Fits frame) (w : BitVec 16)

include hfits

theorem length_store : (l.store frame w).length = frame.length :=
  Buffer.length_overwrite hfits.stored

theorem getD_store {i : Nat} (h : i < l.stored ∨ l.stored + 2 ≤ i) :
    (l.store frame w).getD i 0 = frame.getD i 0 :=
  getD_overwrite hfits.stored h

theorem ihl_store : ihl (l.store frame w) = ihl frame := by
  have hlt : sizeofMac < l.stored := by cases l <;> decide
  rw [ihl, getD_store hfits w (.inl hlt), ihl]

theorem start_store : l.start (l.store frame w) = l.start frame := by
  have := ihl_store hfits w
  cases l <;> simp_all [start]

theorem stop_store : l.stop (l.store frame w) = l.stop frame := by
  have hihl := ihl_store hfits w
  have hlen := length_store hfits w
  cases l <;> simp_all [stop]

theorem length_covered_store :
    (l.covered (l.store frame w)).length = (l.covered frame).length := by
  simp only [covered, List.length_drop, List.length_take, start_store hfits, stop_store hfits,
    length_store hfits]

theorem pseudo_store : l.pseudo (l.store frame w) = l.pseudo frame := by
  cases l with
  | ip4 => rfl
  | icmp => rfl
  | tcp =>
    have hget : ∀ i < 50, (tcp.store frame w).getD i 0 = frame.getD i 0 := fun i hi =>
      getD_store hfits w (.inl hi)
    simp only [pseudo, wordAt, hget, length_covered_store hfits w, Nat.reduceAdd, Nat.reduceLT]

end Store

/-- The sum over what is covered, once zero is stored. -/
def bare (l : Layer) (frame : Frame) : Nat :=
  total (l.pseudo frame ++ words (l.covered (l.store frame 0)))

theorem total_store (hfits : l.Fits frame) (hplace : l.start frame + l.field = l.stored)
    (hinside : l.stored + 2 ≤ l.stop frame) (w : BitVec 16) :
    total (l.pseudo (l.store frame w) ++ words (l.covered (l.store frame w))) =
      l.bare frame + w.toNat := by
  have hcovered : ∀ v, l.covered (l.store frame v) =
      Buffer.overwrite (l.covered frame) l.field (wordBytes v) := fun v => by
    have hstart : l.start frame ≤ l.stored := by omega
    have hend : l.stored + (wordBytes v).length ≤ l.stop frame := hinside
    have hslice := slice_overwrite hstart hend hfits.stop
    have hfield : l.stored - l.start frame = l.field := by omega
    rw [hfield] at hslice
    rw [covered, start_store hfits, stop_store hfits, store, hslice, covered]
  have heven : l.field % 2 = 0 := by cases l <;> rfl
  have hlen : l.field + 2 ≤ (l.covered frame).length := by
    have := hfits.stop
    rw [covered, List.length_drop, List.length_take]
    omega
  rw [bare, total_append, total_append, pseudo_store hfits, hcovered, hcovered,
    total_words_overwrite heven hlen w]
  omega

/-- A checksum stored for the sum `n`. -/
theorem correct_store_iff (hfits : l.Fits frame) {sum32 : Word}
    (hzero : l.start frame + l.field = l.stored → l.bare frame = 0 → sum32.toNat = 0) :
    l.Correct (l.store frame (checksumOf sum32)) ↔
      l.start frame + l.field = l.stored ∧ l.stored + 2 ≤ l.stop frame ∧
        l.bare frame % 65535 = sum32.toNat % 65535 := by
  constructor
  · rintro ⟨hplace, hinside, hones⟩
    rw [start_store hfits] at hplace
    rw [stop_store hfits] at hinside
    have htotal := total_store hfits hplace hinside (checksumOf sum32)
    rw [toNat_checksumOf] at htotal
    exact ⟨hplace, hinside, (ones_iff htotal (hzero hplace)).mp hones⟩
  · rintro ⟨hplace, hinside, hmod⟩
    have htotal := total_store hfits hplace hinside (checksumOf sum32)
    rw [toNat_checksumOf] at htotal
    refine ⟨?_, ?_, (ones_iff htotal (hzero hplace)).mpr hmod⟩
    · rw [start_store hfits, hplace]
    · rw [stop_store hfits]
      exact hinside

-- ---------------------------------------------------------------------------
-- The three functions
-- ---------------------------------------------------------------------------

section Make

variable {ε : Type} (e : ε)

theorem wordCount_ofNat {len : Nat} (hmin : sizeofIp ≤ len) (hmax : len ≤ 1514) :
    wordCount (BitVec.ofNat 32 len) = (len - sizeofIp) / 2 := by
  have htwo : (2 : BitVec 32).toNat = 2 := rfl
  simp only [sizeofIp] at hmin ⊢
  simp only [wordCount, sizeofIp, BitVec.toNat_udiv, BitVec.toNat_sub, BitVec.toNat_ofNat, htwo]
  omega

theorem write_store (hfits : l.Fits frame) (w : BitVec 16) :
    writeWord e frame l.stored w = .ok (l.store frame w) :=
  writeWord_ok e hfits.stored w

theorem write_store_store (hfits : l.Fits frame) (v w : BitVec 16) :
    writeWord e (l.store frame v) l.stored w = .ok (l.store frame w) := by
  have hlen : (wordBytes w).length = (wordBytes v).length := rfl
  rw [writeWord_ok e (by rw [length_store hfits]; exact hfits.stored), store, store,
    overwrite_overwrite hlen hfits.stored]

theorem ip4_make (hfits : ip4.Fits frame) : ∃ sum32, ip4.make e frame =
    .ok (ip4.store frame (checksumOf sum32)) ∧ sum32.toNat = ip4.bare frame := by
  have hheaders := hfits.headers
  have hstop := hfits.stop
  have hmax := hfits.maximum
  have hlen := length_store hfits 0
  simp only [headersSize, sizeofIp] at hheaders
  simp only [stop, sizeofMac] at hstop
  have hzero : (0 : Word).toNat = 0 := rfl
  have hihl : ipHeaderLen e (ip4.store frame 0) = .ok (ihl frame) := by
    have hin : sizeofMac < (ip4.store frame 0).length := by
      rw [hlen, sizeofMac]
      omega
    rw [ipHeaderLen, readByte_ok e hin, ← ihl_store hfits 0]
    rfl
  have hin : sizeofMac + 2 * (2 * ihl frame) ≤ (ip4.store frame 0).length := by
    rw [hlen, sizeofMac]
    omega
  have hsmall : (0 : Word).toNat + 65535 * (2 * ihl frame) < 2 ^ 32 := by
    rw [hzero]
    omega
  obtain ⟨sum32, hsum, htotal, -⟩ := sumWords_ok e hin hsmall
  refine ⟨sum32, ?_, ?_⟩
  · have hclear := write_store e hfits 0
    have hwrite := write_store_store e hfits 0 (checksumOf sum32)
    rw [stored] at hclear hwrite
    simp only [make, makeIp4Checksum, hclear, Except.ok_bind, hihl, hsum, hwrite]
  · rw [htotal, bare, covered, start_store hfits, stop_store hfits, List.drop_take]
    simp only [pseudo, start, stop, List.nil_append, Nat.add_sub_cancel_left]
    rw [hzero, Nat.zero_add, show 2 * (2 * ihl frame) = 4 * ihl frame by omega]

/-- The loop of the TCP and ICMP checksums, over what is behind the IP header. -/
theorem sumWords_tail (hfits : l.Fits frame) : ∃ sum32,
    sumWords e (l.store frame 0) sizeofIp (wordCount (BitVec.ofNat 32 frame.length)) 0 = .ok sum32 ∧
      total (words ((l.store frame 0).drop sizeofIp)) = sum32.toNat +
        (if frame.length % 2 = 1 then
          256 * ((l.store frame 0).getD (frame.length - 1) 0).toNat else 0) ∧
      sum32.toNat ≤ 65535 * 740 := by
  have hmax := hfits.maximum
  have hmin : sizeofIp ≤ frame.length :=
    le_trans (by cases l <;> decide) hfits.headers
  have hlen := length_store hfits 0
  have hzero : (0 : Word).toNat = 0 := rfl
  have htail : ((l.store frame 0).drop sizeofIp).length = frame.length - 34 := by
    rw [List.length_drop, hlen, sizeofIp]
  rw [wordCount_ofNat hmin hmax]
  rw [sizeofIp] at hmin
  have hin : sizeofIp + 2 * ((frame.length - sizeofIp) / 2) ≤ (l.store frame 0).length := by
    rw [hlen, sizeofIp]
    omega
  have hsmall : (0 : Word).toNat + 65535 * ((frame.length - sizeofIp) / 2) < 2 ^ 32 := by
    rw [hzero, sizeofIp]
    omega
  obtain ⟨sum32, hsum, htotal, hle⟩ := sumWords_ok e hin hsmall
  refine ⟨sum32, hsum, ?_, ?_⟩
  · have hodd : (frame.length - 34) % 2 = frame.length % 2 := by omega
    rw [total_words_tail, htail, htotal, hzero, Nat.zero_add, hodd]
    congr 1
    split
    · rw [List.getD_eq_getElem?_getD, List.getElem?_drop, List.getD_eq_getElem?_getD, sizeofIp,
        show 34 + (frame.length - 34 - 1) = frame.length - 1 by omega]
    · rfl
  · rw [hzero, sizeofIp] at hle
    omega

theorem covered_store_tail (hfits : l.Fits frame) (hihl : ihl frame = 5) (hl : l ≠ ip4) :
    l.covered (l.store frame 0) = (l.store frame 0).drop sizeofIp := by
  have hlen := length_store hfits 0
  have hstart : l.start frame = sizeofIp := by
    cases l <;> simp_all [start, sizeofMac, sizeofIp]
  have hstop : l.stop frame = (l.store frame 0).length := by
    cases l <;> simp_all [stop]
  rw [covered, start_store hfits, stop_store hfits, hstart, hstop, List.take_length]

theorem icmp_make (hfits : icmp.Fits frame) : ∃ sum32, icmp.make e frame =
    .ok (icmp.store frame (checksumOf sum32)) ∧
      (ihl frame = 5 → icmp.bare frame = sum32.toNat +
        if frame.length % 2 = 1 then 256 * (frame.getD (frame.length - 1) 0).toNat else 0) := by
  have hheaders := hfits.headers
  simp only [headersSize, sizeofIcmp] at hheaders
  obtain ⟨sum32, hsum, htotal, -⟩ := sumWords_tail e hfits
  refine ⟨sum32, ?_, fun hihl => ?_⟩
  · have hclear := write_store e hfits 0
    have hwrite := write_store_store e hfits 0 (checksumOf sum32)
    rw [stored] at hclear hwrite
    simp only [make, makeIcmpChecksum, hclear, Except.ok_bind, hsum, hwrite]
  · rw [bare, covered_store_tail hfits hihl (by decide), pseudo, List.nil_append, htotal]
    · congr 1
      split
      case isTrue hodd =>
        have hlast : icmp.stored + 2 ≤ frame.length - 1 := by
          rw [stored]
          omega
        rw [getD_store hfits 0 (.inr hlast)]
      case isFalse => rfl
    · intro h
      cases h

theorem toNat_foldl_add {ws : List (BitVec 16)} {sum32 : Word}
    (h : sum32.toNat + 65535 * ws.length < 2 ^ 32) :
    (ws.foldl (fun sum32 w => sum32 + w.setWidth 32) sum32).toNat = sum32.toNat + total ws := by
  induction ws generalizing sum32 with
  | nil => rfl
  | cons w ws ih =>
    have hw := w.isLt
    rw [List.length_cons] at h
    have hadd : (sum32 + w.setWidth 32).toNat = sum32.toNat + w.toNat := by
      rw [BitVec.toNat_add, BitVec.toNat_setWidth]
      omega
    rw [List.foldl_cons, ih (by rw [hadd]; omega), hadd, total_cons]
    omega

/-- The pseudo header of the router. -/
def pseudoWords (frame : Frame) (msgLen : BitVec 16) : List (BitVec 16) :=
  [wordAt frame 28, wordAt frame 26, wordAt frame 32, wordAt frame 30,
    (frame.getD 23 0).setWidth 16, msgLen]

theorem pseudoIp_ok {z : Frame} (h : sizeofIp ≤ z.length) (msgLen : BitVec 16) :
    pseudoIp e z msgLen = .ok (pseudoWords z msgLen) := by
  simp only [sizeofIp] at h
  rw [pseudoIp, readWord_ok e (by omega), readWord_ok e (by omega), readWord_ok e (by omega),
    readWord_ok e (by omega), readByte_ok e (by omega)]
  rfl

/-- The length of the segment, with the header length for twenty. -/
def messageLength (frame : Frame) : BitVec 16 :=
  (frame.getD 46 0 >>> 2).setWidth 16 +
    (BitVec.ofNat 32 frame.length - BitVec.ofNat 32 sizeofTcp).setWidth 16

theorem toNat_messageLength (hfits : tcp.Fits frame) : (messageLength frame).toNat =
    (frame.getD 46 0 >>> 2).toNat + (frame.length - sizeofTcp) ∧
      (frame.getD 46 0 >>> 2).toNat < 64 := by
  have hheaders := hfits.headers
  have hmax := hfits.maximum
  have hbyte := (frame.getD 46 0).isLt
  simp only [headersSize, sizeofTcp] at hheaders ⊢
  have hsmall : (frame.getD 46 0 >>> 2).toNat < 64 := by
    rw [BitVec.toNat_ushiftRight, Nat.shiftRight_eq_div_pow]
    omega
  refine ⟨?_, hsmall⟩
  rw [messageLength, sizeofTcp, BitVec.toNat_add, BitVec.toNat_setWidth, BitVec.toNat_setWidth,
    BitVec.toNat_sub, BitVec.toNat_ofNat, BitVec.toNat_ofNat]
  omega

/-- The odd last byte of a segment. -/
theorem sumTail_ok (hfits : tcp.Fits frame) {sum32 : Word} (hsmall : sum32.toNat ≤ 65535 * 740) :
    ∃ sum32', sumTail e (tcp.store frame 0) (BitVec.ofNat 32 frame.length) sum32 = .ok sum32' ∧
      sum32'.toNat = sum32.toNat + (if frame.length % 2 = 1 then
        256 * ((tcp.store frame 0).getD (frame.length - 1) 0).toNat else 0) := by
  have hheaders := hfits.headers
  have hmax := hfits.maximum
  have hlen := length_store hfits 0
  simp only [headersSize, sizeofTcp] at hheaders
  have hparity : BitVec.ofNat 32 frame.length &&& 1 ≠ 0 ↔ frame.length % 2 = 1 := by
    have hone : (1 : BitVec 32).toNat = 1 := rfl
    have hzero : (0 : BitVec 32).toNat = 0 := rfl
    rw [ne_eq, ← BitVec.toNat_inj, BitVec.toNat_and, hone, hzero, Nat.and_one_is_mod,
      BitVec.toNat_ofNat]
    omega
  have hlast : sizeofIp + (BitVec.ofNat 32 frame.length - BitVec.ofNat 32 sizeofIp - 1).toNat =
      frame.length - 1 := by
    have hone : (1 : BitVec 32).toNat = 1 := rfl
    rw [sizeofIp, BitVec.toNat_sub, BitVec.toNat_sub, BitVec.toNat_ofNat, BitVec.toNat_ofNat, hone]
    omega
  by_cases hodd : frame.length % 2 = 1
  · have hread := readByte_ok e (show frame.length - 1 < (tcp.store frame 0).length by omega)
    rw [sumTail, if_pos (hparity.mpr hodd), if_pos hodd]
    simp only [hlast, hread, Except.ok_bind]
    refine ⟨_, rfl, ?_⟩
    generalize (tcp.store frame 0).getD (frame.length - 1) 0 = last
    have hbyte := last.isLt
    rw [BitVec.toNat_add, BitVec.toNat_shiftLeft, BitVec.toNat_setWidth, Nat.shiftLeft_eq]
    omega
  · rw [sumTail, if_neg (fun h => hodd (hparity.mp h)), if_neg hodd]
    exact ⟨_, rfl, rfl⟩

theorem tcp_make (hfits : tcp.Fits frame) : ∃ sum32, tcp.make e frame =
    .ok (tcp.store frame (checksumOf sum32)) ∧
      (ihl frame = 5 → 0 < tcp.bare frame ∧
        tcp.bare frame + (frame.getD 46 0 >>> 2).toNat = sum32.toNat + 20) := by
  have hheaders := hfits.headers
  have hmax := hfits.maximum
  have hlen := length_store hfits 0
  have hmessage := toNat_messageLength hfits
  simp only [headersSize, sizeofTcp] at hheaders hmessage
  have hget : ∀ i < 50, (tcp.store frame 0).getD i 0 = frame.getD i 0 := fun i hi =>
    getD_store hfits 0 (.inl hi)
  obtain ⟨sum₁, hsum, htotal, hle⟩ := sumWords_tail e hfits
  obtain ⟨sum₂, htail, hsum₂⟩ := sumTail_ok e hfits hle
  have hheader : readByte e (tcp.store frame 0) 46 = .ok (frame.getD 46 0) := by
    rw [readByte_ok e (by omega), hget 46 (by omega)]
  have hin : sizeofIp ≤ (tcp.store frame 0).length := by
    rw [hlen, sizeofIp]
    omega
  have hpseudo := pseudoIp_ok e hin (messageLength frame)
  have hbyte : 256 * ((tcp.store frame 0).getD (frame.length - 1) 0).toNat < 65536 := by
    have := ((tcp.store frame 0).getD (frame.length - 1) 0).isLt
    omega
  have hsmall : sum₂.toNat + 65535 * 6 < 2 ^ 32 := by
    rw [hsum₂]
    split <;> omega
  refine ⟨(pseudoWords (tcp.store frame 0) (messageLength frame)).foldl
    (fun sum32 w => sum32 + w.setWidth 32) sum₂, ?_, fun hihl => ?_⟩
  · have hclear := write_store e hfits 0
    have hwrite := write_store_store e hfits 0
    rw [stored] at hclear hwrite
    rw [messageLength] at hpseudo ⊢
    simp only [make, makeTcpChecksum, hclear, Except.ok_bind, hsum, htail, hheader, hpseudo, hwrite]
  · have hsegment : (tcp.covered frame).length = frame.length - 34 := by
      simp only [covered, List.length_drop, List.length_take, start, stop, hihl, sizeofMac]
      omega
    have hpseudo : total (tcp.pseudo frame) + (messageLength frame).toNat =
        total (pseudoWords (tcp.store frame 0) (messageLength frame)) + (frame.length - 34) := by
      simp only [pseudo, pseudoWords, wordAt, hget, hsegment, total_cons, total_nil,
        BitVec.toNat_ofNat, Nat.reduceAdd, Nat.reduceLT]
      omega
    rw [bare, total_append, covered_store_tail hfits hihl (by decide), htotal, ← hsum₂,
      toNat_foldl_add hsmall]
    have hpos : frame.length - 34 ≤ total (tcp.pseudo frame) := by
      simp only [pseudo, hsegment, total_cons, total_nil, BitVec.toNat_ofNat]
      omega
    omega

-- ---------------------------------------------------------------------------
-- The condition
-- ---------------------------------------------------------------------------

/-- The functions stay in the packet, and what they store is right exactly when
the header reaches the field; when neither header has options; and when neither
the IP header has options nor an odd last byte is lost. -/
theorem checksum_correct_iff (l : Layer) {frame : Frame} (hfits : l.Fits frame) :
    ∃ frame', l.make e frame = .ok frame' ∧ (l.Correct frame' ↔ l.Exact frame) := by
  have hheaders := hfits.headers
  cases l with
  | ip4 =>
    obtain ⟨sum32, hmake, hsum⟩ := ip4_make e hfits
    refine ⟨_, hmake, ?_⟩
    rw [correct_store_iff hfits (fun _ hbare => by rw [hsum, hbare]), hsum]
    simp only [start, stop, field, stored, sizeofMac, Exact, true_and, and_true]
    omega
  | tcp =>
    obtain ⟨sum32, hmake, hbare⟩ := tcp_make e hfits
    refine ⟨_, hmake, ?_⟩
    have hihl : tcp.start frame + tcp.field = tcp.stored ↔ ihl frame = 5 := by
      simp only [start, field, stored, sizeofMac]
      omega
    have hoffset : frame.getD 46 0 >>> 2 = 20 ↔ (frame.getD 46 0 >>> 2).toNat = 20 := by
      rw [← BitVec.toNat_inj]
      rfl
    have hsmall := (toNat_messageLength hfits).2
    rw [correct_store_iff hfits (fun hplace hzero => by
      have := (hbare (hihl.mp hplace)).1
      omega), hihl, Exact, hoffset]
    simp only [headersSize, stored, stop, sizeofTcp] at hheaders ⊢
    constructor
    · rintro ⟨h5, -, hmod⟩
      have := (hbare h5).2
      exact ⟨h5, by omega⟩
    · rintro ⟨h5, h20⟩
      have := (hbare h5).2
      exact ⟨h5, by omega, by omega⟩
  | icmp =>
    obtain ⟨sum32, hmake, hbare⟩ := icmp_make e hfits
    refine ⟨_, hmake, ?_⟩
    have hihl : icmp.start frame + icmp.field = icmp.stored ↔ ihl frame = 5 := by
      simp only [start, field, stored, sizeofMac]
      omega
    have hlast : frame.getD (frame.length - 1) 0 = 0 ↔
        (frame.getD (frame.length - 1) 0).toNat = 0 := by
      rw [← BitVec.toNat_inj]
      rfl
    have hbyte := (frame.getD (frame.length - 1) 0).isLt
    rw [correct_store_iff hfits (fun hplace hzero => by
      have := hbare (hihl.mp hplace)
      omega), hihl, Exact, hlast]
    simp only [headersSize, stored, stop, sizeofIcmp] at hheaders ⊢
    constructor
    · rintro ⟨h5, -, hmod⟩
      have := hbare h5
      split at this
      · exact ⟨h5, .inr (by omega)⟩
      · exact ⟨h5, .inl (by omega)⟩
    · rintro ⟨h5, heven⟩
      have := hbare h5
      split at this
      · exact ⟨h5, by omega, by omega⟩
      · exact ⟨h5, by omega, by omega⟩

end Make

/-- An echo request with an odd byte of data. -/
def oddEcho : Frame :=
  [0x34, 0x32, 0x36, 0x37, 0x37, 0x39, 0, 1, 2, 3, 4, 5, 8, 0] ++
    [0x45, 0, 0, 29, 0, 1, 0, 0, 64, 1, 0, 0, 10, 0, 0, 1, 10, 0, 0, 2] ++
    [8, 0, 0, 0, 0, 1, 0, 1, 7]

theorem oddEcho_correct_iff :
    ∃ frame', icmp.make () oddEcho = .ok frame' ∧ (icmp.Correct frame' ↔ icmp.Exact oddEcho) :=
  checksum_correct_iff () icmp ⟨by decide, by decide, by decide⟩

/-- The data is not summed up. -/
theorem oddEcho_incorrect :
    icmp.Fits oddEcho ∧ ¬∃ frame', icmp.make () oddEcho = .ok frame' ∧ icmp.Correct frame' := by
  have hfits : icmp.Fits oddEcho := ⟨by decide, by decide, by decide⟩
  refine ⟨hfits, ?_⟩
  rintro ⟨frame', hmake, hcorrect⟩
  obtain ⟨sum32, hsum, hbare⟩ := icmp_make () hfits
  obtain rfl := Except.ok.inj (hmake.symm.trans hsum)
  have hmod := (correct_store_iff hfits fun _ hzero => by
    have := hbare (by decide)
    omega).mp hcorrect
  have hlast := hbare (by decide)
  have h7 : (if oddEcho.length % 2 = 1 then
      256 * (oddEcho.getD (oddEcho.length - 1) 0).toNat else 0) = 256 * 7 := by decide
  rw [h7] at hlast
  omega

end Layer

end SheepShear.Router
