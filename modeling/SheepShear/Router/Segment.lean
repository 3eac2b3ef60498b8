import SheepShear.Router.ChecksumExact

/-!
# Segments from the Mac

The head of `write_tcp` in `tcp.cpp` and its `process_options`: where the
options and the payload of a segment are in a frame. The frame is measured from
its end, and the IP header is taken to have no options.
-/

namespace SheepShear.Router

-- ---------------------------------------------------------------------------
-- The options
-- ---------------------------------------------------------------------------

/-- A byte that is not among the options, or not in the frame. -/
inductive OutOfOptions where
  | byte
  deriving DecidableEq, Repr

/-- A byte of the options, which end in front of `limit`. -/
def optionByte (frame : Frame) (limit p : Nat) : Except OutOfOptions Byte :=
  if p < limit ∧ p < frame.length then .ok (frame.getD p 0) else .error .byte

def optionWord (frame : Frame) (limit p : Nat) : Except OutOfOptions (BitVec 16) := do
  let hi ← optionByte frame limit p
  let lo ← optionByte frame limit (p + 1)
  return hi ++ lo

/-- `opt`, `len` and `mss` of `process_options`. -/
structure Cursor where
  opt : Nat
  len : Int
  mss : Word
  deriving DecidableEq, Repr

def Cursor.advance (c : Cursor) (n : Nat) : Cursor :=
  { c with opt := c.opt + n, len := c.len - n }

/-- The body of the loop. -/
def processOption (frame : Frame) (limit : Nat) (c : Cursor) : Except OutOfOptions Cursor := do
  let kind ← optionByte frame limit c.opt
  if kind = 0 then
    return { c with len := 0 }
  else if kind = 1 then
    return c.advance 1
  else if kind = 2 then
    let mss ← optionWord frame limit (c.opt + 2)
    return { c.advance 4 with mss := mss.setWidth 32 }
  else if kind = 3 then
    let _wscale ← optionByte frame limit (c.opt + 2)
    return c.advance 3
  else if kind = 4 then
    return c.advance 2
  else if kind = 5 then
    let sackLen ← optionByte frame limit (c.opt + 1)
    return c.advance sackLen.toNat
  else if kind = 8 then
    let _valveHi ← optionWord frame limit (c.opt + 2)
    let _valveLo ← optionWord frame limit (c.opt + 4)
    let _ereplyHi ← optionWord frame limit (c.opt + 6)
    let _ereplyLo ← optionWord frame limit (c.opt + 8)
    return c.advance 10
  else
    return { c with len := 0 }

/-- `while( len > 0 )`, for as many passes as there is fuel. -/
def processOptions (frame : Frame) (limit : Nat) :
    (fuel : Nat) → Cursor → Option (Except OutOfOptions Cursor)
  | 0, _ => none
  | fuel + 1, c =>
    if c.len ≤ 0 then some (.ok c)
    else
      match processOption frame limit c with
      | .error e => some (.error e)
      | .ok c => processOptions frame limit fuel c

-- ---------------------------------------------------------------------------
-- The payload
-- ---------------------------------------------------------------------------

def flagSyn : Byte := 0x02
def flagRst : Byte := 0x04

def isSet (frame : Frame) (flag : Byte) : Prop := frame.getD 47 0 &&& flag ≠ 0

instance (frame : Frame) (flag : Byte) : Decidable (isSet frame flag) :=
  inferInstanceAs (Decidable (_ ≠ _))

/-- `tcp->header_len >> 2` -/
def headerLen (frame : Frame) : Nat := (frame.getD 46 0 >>> 2).toNat

def optionBytes (frame : Frame) : Int := headerLen frame - 20

structure Payload where
  data : Int
  dlen : Int
  deriving DecidableEq, Repr

/-- The payload of a frame that is not dropped; `ok` is whether there is a socket for its ports. -/
def writeTcp (ok : Bool) (frame : Frame) : Option Payload :=
  if frame.length < sizeofTcp then none
  else if ok = false then none
  else if isSet frame flagRst then none
  else some ⟨sizeofTcp + optionBytes frame, frame.length - sizeofTcp - optionBytes frame⟩

/-- `process_options` on the options of a frame. -/
def frameOptions (frame : Frame) (fuel : Nat) : Option (Except OutOfOptions Cursor) :=
  processOptions frame (sizeofTcp + optionBytes frame).toNat fuel ⟨sizeofTcp, optionBytes frame, 0⟩

-- ---------------------------------------------------------------------------
-- The segment of the datagram
-- ---------------------------------------------------------------------------

def totalLen (frame : Frame) : Nat := (wordAt frame 16).toNat

/-- The header length of the TCP header behind the IP header, in words of four bytes. -/
def dataOffset (frame : Frame) : Nat := (frame.getD (sizeofMac + 4 * ihl frame + 12) 0 >>> 4).toNat

/-- Options end, are skipped by their length, or are not known. -/
def skipOption (kind : Byte) (rest : List Byte) : Option (List Byte) :=
  if kind = 1 then some rest
  else if kind = 2 then if 3 ≤ rest.length then some (rest.drop 3) else none
  else if kind = 3 then if 2 ≤ rest.length then some (rest.drop 2) else none
  else if kind = 4 then some (rest.drop 1)
  else if kind = 5 then
    if rest ≠ [] ∧ rest.headD 0 ≠ 0 then some (rest.drop ((rest.headD 0).toNat - 1)) else none
  else if kind = 8 then if 9 ≤ rest.length then some (rest.drop 9) else none
  else some []

/-- Options that are complete as far as they are known. -/
inductive Options : List Byte → Prop
  | nil : Options []
  | cons : skipOption kind rest = some next → Options next → Options (kind :: rest)

/-- What is expected of a frame from the Mac: the options are read inside of the frame and come to
an end, and the payload is that of the datagram. -/
def SegmentOk (ok : Bool) (frame : Frame) : Prop :=
  ∀ payload, writeTcp ok frame = some payload →
    (isSet frame flagSyn → ∃ fuel c, frameOptions frame fuel = some (.ok c)) ∧
    (0 ≤ payload.data ∧ 0 ≤ payload.dlen ∧ payload.data + payload.dlen ≤ frame.length) ∧
    payload.data = sizeofMac + 4 * ihl frame + 4 * dataOffset frame ∧
    payload.dlen = totalLen frame - 4 * ihl frame - 4 * dataOffset frame

/-- A frame that ends with its datagram, has its payload where both header lengths put it, and has
complete options. -/
structure Plain (frame : Frame) : Prop where
  unpadded : frame.length = sizeofMac + totalLen frame
  offset : sizeofIp + headerLen frame = sizeofMac + 4 * ihl frame + 4 * dataOffset frame
  inside : sizeofIp + headerLen frame ≤ frame.length
  options : isSet frame flagSyn →
    Options ((frame.take (sizeofIp + headerLen frame)).drop sizeofTcp)

-- ---------------------------------------------------------------------------
-- The loop
-- ---------------------------------------------------------------------------

/-- What is left of the options. -/
def At (frame : Frame) (limit : Nat) (c : Cursor) (bs : List Byte) : Prop :=
  (c.len ≤ 0 ∧ bs = []) ∨ (c.opt + c.len = limit ∧ bs = (frame.take limit).drop c.opt)

theorem At.nil {frame : Frame} {limit : Nat} (hlimit : limit ≤ frame.length) {c : Cursor}
    (h : At frame limit c bs) : bs = [] ↔ c.len ≤ 0 := by
  rcases h with ⟨hlen, rfl⟩ | ⟨hat, rfl⟩
  · exact ⟨fun _ => hlen, fun _ => rfl⟩
  · rw [List.drop_eq_nil_iff, List.length_take]
    omega

/-- The options that are left behind `n` bytes. -/
theorem At.advance {frame : Frame} {limit : Nat} {c : Cursor} {kind : Byte} {rest : List Byte}
    (hat : c.opt + c.len = limit) (hbs : kind :: rest = (frame.take limit).drop c.opt) (n : Nat) :
    At frame limit (c.advance (n + 1)) (rest.drop n) := by
  refine .inr ⟨by simp only [Cursor.advance]; omega, ?_⟩
  have htail : rest = (frame.take limit).drop (c.opt + 1) := by
    rw [← List.tail_drop, ← hbs, List.tail_cons]
  have hopt : c.opt + 1 + n = (c.advance (n + 1)).opt := by
    simp only [Cursor.advance]
    omega
  rw [htail, List.drop_drop, hopt]

/-- A byte of the options that are left. -/
theorem optionByte_eq {frame : Frame} {limit : Nat} (hlimit : limit ≤ frame.length) {p n : Nat}
    {bs : List Byte} (hbs : bs = (frame.take limit).drop p) :
    optionByte frame limit (p + n) = if n < bs.length then .ok (bs.getD n 0) else .error .byte := by
  have hlen : bs.length = limit - p := by
    rw [hbs, List.length_drop, List.length_take]
    omega
  rw [optionByte]
  by_cases hn : n < bs.length
  · rw [if_pos (by omega), if_pos hn, hbs, List.getD_eq_getElem?_getD, List.getD_eq_getElem?_getD,
      List.getElem?_drop, List.getElem?_take_of_lt (by omega)]
  · rw [if_neg (by omega), if_neg hn]

theorem optionWord_eq {frame : Frame} {limit : Nat} (hlimit : limit ≤ frame.length) {p n : Nat}
    {bs : List Byte} (hbs : bs = (frame.take limit).drop p) :
    optionWord frame limit (p + n) =
      if n + 1 < bs.length then .ok (bs.getD n 0 ++ bs.getD (n + 1) 0) else .error .byte := by
  rw [optionWord, optionByte_eq hlimit hbs, Nat.add_assoc, optionByte_eq hlimit hbs]
  by_cases hlast : n + 1 < bs.length
  · rw [if_pos (by omega), if_pos hlast, if_pos hlast]
    rfl
  · rw [if_neg hlast, if_neg hlast]
    split <;> rfl

/-- A pass fails, stays where it is, or skips an option. -/
theorem processOption_cases {frame : Frame} {limit : Nat} (hlimit : limit ≤ frame.length)
    {c : Cursor} {kind : Byte} {rest : List Byte} (hat : c.opt + c.len = limit)
    (hbs : kind :: rest = (frame.take limit).drop c.opt) :
    (∃ e, processOption frame limit c = .error e ∧ skipOption kind rest = none) ∨
    (processOption frame limit c = .ok c ∧ skipOption kind rest = none) ∨
    ∃ c' next, processOption frame limit c = .ok c' ∧ skipOption kind rest = some next ∧
      At frame limit c' next := by
  have hbyte : ∀ n, optionByte frame limit (c.opt + n) =
      if n < rest.length + 1 then .ok ((kind :: rest).getD n 0) else .error .byte := fun n =>
    optionByte_eq hlimit hbs
  have hword : ∀ n, optionWord frame limit (c.opt + n) = if n + 1 < rest.length + 1 then
      .ok ((kind :: rest).getD n 0 ++ (kind :: rest).getD (n + 1) 0) else .error .byte := fun n =>
    optionWord_eq hlimit hbs
  have hkind : optionByte frame limit c.opt = .ok kind := by
    have := hbyte 0
    rwa [if_pos (Nat.succ_pos _)] at this
  have hskip := At.advance hat hbs
  have hover : ∀ c' : Cursor, c'.len = 0 → At frame limit c' [] := fun c' hlen => .inl ⟨hlen.le, rfl⟩
  rw [processOption, hkind, Except.ok_bind, skipOption]
  by_cases h0 : kind = 0
  · subst h0
    exact .inr (.inr ⟨_, [], rfl, rfl, hover _ rfl⟩)
  rw [if_neg h0]
  by_cases h1 : kind = 1
  · rw [if_pos h1, if_pos h1]
    exact .inr (.inr ⟨_, rest, rfl, rfl, hskip 0⟩)
  rw [if_neg h1, if_neg h1]
  by_cases h2 : kind = 2
  · rw [if_pos h2, if_pos h2, hword 2]
    by_cases hlen : 3 ≤ rest.length
    · rw [if_pos (by omega), if_pos hlen]
      exact .inr (.inr ⟨_, _, rfl, rfl, hskip 3⟩)
    · rw [if_neg (by omega), if_neg hlen]
      exact .inl ⟨_, rfl, rfl⟩
  rw [if_neg h2, if_neg h2]
  by_cases h3 : kind = 3
  · rw [if_pos h3, if_pos h3, hbyte 2]
    by_cases hlen : 2 ≤ rest.length
    · rw [if_pos (by omega), if_pos hlen]
      exact .inr (.inr ⟨_, _, rfl, rfl, hskip 2⟩)
    · rw [if_neg (by omega), if_neg hlen]
      exact .inl ⟨_, rfl, rfl⟩
  rw [if_neg h3, if_neg h3]
  by_cases h4 : kind = 4
  · rw [if_pos h4, if_pos h4]
    exact .inr (.inr ⟨_, _, rfl, rfl, hskip 1⟩)
  rw [if_neg h4, if_neg h4]
  by_cases h5 : kind = 5
  · rw [if_pos h5, if_pos h5, hbyte 1]
    cases rest with
    | nil => exact .inl ⟨_, rfl, rfl⟩
    | cons sackLen rest =>
      rw [if_pos (by simp)]
      by_cases hzero : sackLen = 0
      · subst hzero
        refine .inr (.inl ⟨?_, by simp⟩)
        change Except.ok (c.advance 0) = _
        simp [Cursor.advance]
      · have hpos : sackLen.toNat - 1 + 1 = sackLen.toNat := by
          have : sackLen.toNat ≠ 0 := fun h => hzero (BitVec.eq_of_toNat_eq h)
          omega
        rw [if_pos ⟨List.cons_ne_nil _ _, hzero⟩]
        have hat' := hskip (sackLen.toNat - 1)
        rw [hpos] at hat'
        exact .inr (.inr ⟨_, _, rfl, rfl, hat'⟩)
  rw [if_neg h5, if_neg h5]
  by_cases h8 : kind = 8
  · rw [if_pos h8, if_pos h8]
    by_cases hlen : 9 ≤ rest.length
    · rw [hword 2, if_pos (by omega), hword 4, if_pos (by omega), hword 6, if_pos (by omega), hword 8,
        if_pos (by omega), if_pos hlen]
      exact .inr (.inr ⟨_, _, rfl, rfl, hskip 9⟩)
    · rw [if_neg hlen, hword 8, if_neg (by omega)]
      refine .inl ?_
      rw [hword 2, hword 4, hword 6]
      split_ifs <;> exact ⟨_, rfl, rfl⟩
  rw [if_neg h8, if_neg h8]
  exact .inr (.inr ⟨_, [], rfl, rfl, hover _ rfl⟩)

/-- The loop ends without leaving the options exactly when they are complete. -/
theorem processOptions_iff {frame : Frame} {limit : Nat} (hlimit : limit ≤ frame.length)
    {c : Cursor} {bs : List Byte} (hat : At frame limit c bs) :
    (∃ fuel c', processOptions frame limit fuel c = some (.ok c')) ↔ Options bs := by
  constructor
  · rintro ⟨fuel, c', hrun⟩
    induction fuel generalizing c bs with
    | zero => cases hrun
    | succ fuel ih =>
      rw [processOptions] at hrun
      by_cases hlen : c.len ≤ 0
      · rw [(hat.nil hlimit).mpr hlen]
        exact .nil
      · rw [if_neg hlen] at hrun
        obtain ⟨hdone, -⟩ | ⟨hopt, hdrop⟩ := hat
        · exact absurd hdone hlen
        · cases bs with
          | nil => exact .nil
          | cons kind rest =>
            rcases processOption_cases hlimit hopt hdrop with ⟨e, herr, -⟩ | ⟨hstay, -⟩ |
              ⟨c₁, next, hok, hskip, hnext⟩
            · rw [herr] at hrun
              cases hrun
            · rw [hstay] at hrun
              exact ih (.inr ⟨hopt, hdrop⟩) hrun
            · rw [hok] at hrun
              exact .cons hskip (ih hnext hrun)
  · intro h
    induction h generalizing c with
    | nil => exact ⟨1, c, if_pos ((hat.nil hlimit).mp rfl)⟩
    | @cons kind rest next hskip _ ih =>
      have hlen : ¬c.len ≤ 0 := fun hlen => List.cons_ne_nil _ _ ((hat.nil hlimit).mpr hlen)
      obtain ⟨hdone, -⟩ | ⟨hopt, hdrop⟩ := hat
      · exact absurd hdone hlen
      · rcases processOption_cases hlimit hopt hdrop with ⟨e, -, hnone⟩ | ⟨-, hnone⟩ |
          ⟨c₁, next', hok, hskip', hnext⟩
        · rw [hskip] at hnone
          cases hnone
        · rw [hskip] at hnone
          cases hnone
        · obtain rfl := Option.some.inj (hskip.symm.trans hskip')
          obtain ⟨fuel, c', hrun⟩ := ih hnext
          refine ⟨fuel + 1, c', ?_⟩
          rw [processOptions, if_neg hlen, hok]
          exact hrun

-- ---------------------------------------------------------------------------
-- The condition
-- ---------------------------------------------------------------------------

theorem frameOptions_iff {frame : Frame} (hinside : sizeofIp + headerLen frame ≤ frame.length) :
    (∃ fuel c, frameOptions frame fuel = some (.ok c)) ↔
      Options ((frame.take (sizeofIp + headerLen frame)).drop sizeofTcp) := by
  have hlimit : ((sizeofTcp : Int) + optionBytes frame).toNat = sizeofIp + headerLen frame := by
    simp only [optionBytes, sizeofTcp, sizeofIp]
    omega
  rw [← hlimit] at hinside ⊢
  refine processOptions_iff hinside ?_
  by_cases hneg : optionBytes frame ≤ 0
  · refine .inl ⟨hneg, ?_⟩
    rw [List.drop_eq_nil_iff, List.length_take]
    omega
  · exact .inr ⟨by simp only []; omega, rfl⟩

/-- A frame that is not dropped is handled right exactly when it is plain. -/
theorem segment_ok_iff (ok : Bool) (frame : Frame) : SegmentOk ok frame ↔
    frame.length < sizeofTcp ∨ ok = false ∨ isSet frame flagRst ∨ Plain frame := by
  by_cases hshort : frame.length < sizeofTcp
  · simp [SegmentOk, writeTcp, hshort]
  by_cases hok : ok = false
  · simp [SegmentOk, writeTcp, hshort, hok]
  by_cases hrst : isSet frame flagRst
  · simp [SegmentOk, writeTcp, hshort, hok, hrst]
  have hdata : (sizeofTcp : Int) + optionBytes frame = sizeofIp + headerLen frame := by
    simp only [optionBytes, sizeofTcp, sizeofIp]
    omega
  have hpayload : writeTcp ok frame =
      some ⟨sizeofIp + headerLen frame, frame.length - (sizeofIp + headerLen frame)⟩ := by
    rw [writeTcp, if_neg hshort, if_neg hok, if_neg hrst, hdata, sub_sub, hdata]
  rw [or_iff_right hshort, or_iff_right hok, or_iff_right hrst, SegmentOk, hpayload]
  simp only [Option.some.injEq, forall_eq']
  constructor
  · rintro ⟨hoptions, ⟨-, hdlen, -⟩, hstart, hlen⟩
    have hinside : sizeofIp + headerLen frame ≤ frame.length := by omega
    exact ⟨by omega, by omega, hinside, fun hsyn => (frameOptions_iff hinside).mp (hoptions hsyn)⟩
  · rintro ⟨hunpadded, hoffset, hinside, hoptions⟩
    exact ⟨fun hsyn => (frameOptions_iff hinside).mpr (hoptions hsyn),
      ⟨by omega, by omega, by omega⟩, by omega, by omega⟩

/-- A request for a connection with a selective acknowledgement of length zero. -/
def zeroSack : Frame :=
  [0x34, 0x32, 0x36, 0x37, 0x37, 0x39, 0, 1, 2, 3, 4, 5, 8, 0] ++
    [0x45, 0, 0, 44, 0, 1, 0, 0, 64, 6, 0, 0, 10, 0, 0, 1, 10, 0, 0, 2] ++
    [4, 0, 0, 80, 0, 0, 0, 0, 0, 0, 0, 0, 0x60, 2, 0x20, 0, 0, 0, 0, 0] ++ [5, 0, 0, 0]

/-- Its options are never done. -/
theorem zeroSack_loops : ¬SegmentOk true zeroSack := by
  intro h
  have hpayload : writeTcp true zeroSack = some ⟨58, 0⟩ := by decide
  have hinside : sizeofIp + headerLen zeroSack ≤ zeroSack.length := by decide
  have hoptions := (frameOptions_iff hinside).mp ((h _ hpayload).1 (by decide))
  have hbytes : (zeroSack.take (sizeofIp + headerLen zeroSack)).drop sizeofTcp = [5, 0, 0, 0] := by
    decide
  rw [hbytes] at hoptions
  cases hoptions with
  | cons hskip _ => cases hskip

end SheepShear.Router
