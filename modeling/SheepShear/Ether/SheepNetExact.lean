import SheepShear.Ether.SheepNet

/-!
# What the sheep_net driver sends and queues

The frames on the wire and in the queue, against a statement of which bytes may
differ and which frames are for the guest. The tests of the driver look at fixed
offsets of a frame, whatever its length and its framing; they are right for the
frames that this file's conditions describe.
-/

namespace SheepShear.Ether.SheepNet

-- ---------------------------------------------------------------------------
-- Parts of a frame
-- ---------------------------------------------------------------------------

def slice (p : Frame) (off n : Nat) : List Byte := (p.drop off).take n

/-- The type field, or the length field of an 802.2 frame. -/
def typeField (p : Frame) : BitVec 16 := p.getD 12 0 ++ p.getD 13 0

def IsArp (p : Frame) : Prop := typeField p = ethPArp

instance : DecidablePred IsArp := fun _ => inferInstanceAs (Decidable (_ = _))

/-- An AARP packet: its SNAP code behind the SNAP header of an 802.2 frame. -/
def IsAarp (p : Frame) : Prop :=
  (typeField p).toNat ≤ 1500 ∧ slice p 14 3 = [0xaa, 0xaa, 0x03] ∧ slice p 17 5 = snapAarp

instance : DecidablePred IsAarp := fun _ => inferInstanceAs (Decidable (_ ∧ _ ∧ _))

def Multicast (p : Frame) : Prop := p.getD 0 0 &&& 1 ≠ 0

instance : DecidablePred Multicast := fun _ => inferInstanceAs (Decidable (_ ≠ _))

variable {p q : Frame} {off n i : Nat}

theorem length_slice (h : off + n ≤ p.length) : (slice p off n).length = n := Buffer.length_read h

theorem slice_congr (h : ∀ i, off ≤ i → i < off + n → q[i]? = p[i]?) : slice q off n = slice p off n := by
  refine List.ext_getElem? fun i => ?_
  rw [slice, slice, List.getElem?_take, List.getElem?_take, List.getElem?_drop, List.getElem?_drop]
  split_ifs with hi
  · exact h (off + i) (by omega) (by omega)
  · rfl

theorem byteAt_ok (h : i < p.length) : byteAt p i = .ok (p.getD i 0) := by
  rw [byteAt, Buffer.get, List.getElem?_eq_getElem h, List.getD_eq_getElem _ _ h]

theorem byteAt_error (h : p.length ≤ i) : byteAt p i = .error .frame := by
  rw [byteAt, Buffer.get, List.getElem?_eq_none h]

theorem protoOf_ok (h : 14 ≤ p.length) : protoOf p = .ok (typeField p) := by
  rw [protoOf, byteAt_ok (by omega), byteAt_ok (by omega)]
  rfl

theorem isMulticast_ok (h : 0 < p.length) : isMulticast p = .ok (decide (Multicast p)) := by
  rw [isMulticast, byteAt_ok h]
  rfl

theorem isAddr_ok (a : HwAddr) (h : off + 6 ≤ p.length) :
    isAddr p off a = .ok (decide (slice p off 6 = a.val)) := by
  rw [isAddr, Buffer.read_ok h]
  rfl

theorem isAddr_error (a : HwAddr) (h : ¬off + 6 ≤ p.length) : isAddr p off a = .error .frame := by
  rw [isAddr, Buffer.read_error h]
  rfl

-- ---------------------------------------------------------------------------
-- The SNAP code
-- ---------------------------------------------------------------------------

theorem matchesAt_congr {bs : List Byte} (h : ∀ j, i ≤ j → j < i + bs.length → q[j]? = p[j]?) :
    matchesAt q i bs = matchesAt p i bs := by
  induction bs generalizing i with
  | nil => rfl
  | cons b bs ih =>
    rw [List.length_cons] at h
    rw [matchesAt, matchesAt, byteAt, byteAt, Buffer.get, Buffer.get, h i (le_refl i) (by omega),
      ih fun j hlow hhigh => h j (by omega) (by omega)]

/-- The comparison needs the first byte that differs, or all bytes. -/
theorem matchesAt_eq (p : Frame) (i : Nat) (bs : List Byte) :
    matchesAt p i bs =
      if bs <+: p.drop i then .ok true
      else if p.drop i <+: bs then .error .frame
      else .ok false := by
  induction bs generalizing i with
  | nil => rw [if_pos (List.nil_prefix)]; rfl
  | cons b bs ih =>
    rcases Nat.lt_or_ge i p.length with hi | hi
    · have hdrop : p.drop i = p.getD i 0 :: p.drop (i + 1) := by
        rw [List.getD_eq_getElem _ _ hi, List.drop_eq_getElem_cons hi]
      rw [matchesAt, byteAt_ok hi, Except.ok_bind, hdrop]
      by_cases hb : p.getD i 0 = b
      · rw [if_pos hb, ih, hb]
        simp only [List.cons_prefix_cons, true_and]
      · rw [if_neg hb, if_neg fun h => hb (List.cons_prefix_cons.mp h).1.symm,
          if_neg fun h => hb (List.cons_prefix_cons.mp h).1]
        rfl
    · rw [matchesAt, byteAt_error hi, List.drop_of_length_le hi, if_neg (by simp),
        if_pos (List.nil_prefix)]
      rfl

theorem doDemasq_ok (v : SheepVars) (h : off + 6 ≤ p.length) :
    doDemasq v p off = .ok (if slice p off 6 = v.fakeAddr.val then Buffer.overwrite p off v.ethAddr.val
      else p) := by
  rw [doDemasq, isAddr_ok _ h, Except.ok_bind]
  by_cases hfake : slice p off 6 = v.fakeAddr.val
  · rw [decide_eq_true hfake, if_pos rfl, if_pos hfake, Buffer.write_ok (by rw [v.ethAddr.property]; exact h)]
  · rw [decide_eq_false hfake, if_neg hfake]
    rfl

theorem doDemasq_error (v : SheepVars) (h : ¬off + 6 ≤ p.length) :
    doDemasq v p off = .error .frame := by
  rw [doDemasq, isAddr_error _ h]
  rfl

theorem slice_overwrite {xs : List Byte} {at' : Nat} (h : at' + xs.length ≤ p.length)
    (hapart : off + n ≤ at' ∨ at' + xs.length ≤ off) :
    slice (Buffer.overwrite p at' xs) off n = slice p off n :=
  slice_congr fun i hlow hhigh => Buffer.getElem?_overwrite h (by omega)

-- ---------------------------------------------------------------------------
-- The frame on the wire
-- ---------------------------------------------------------------------------

/-- The source address is the card's, and so is the sender's in an ARP packet. -/
def withoutFake (eth fake : HwAddr) (p : Frame) : Frame :=
  if IsArp p ∧ slice p 22 6 = fake.val then
    Buffer.overwrite (Buffer.overwrite p 6 eth.val) 22 eth.val
  else Buffer.overwrite p 6 eth.val

/-- The frame that a written one is on the wire. -/
def onWire (eth fake : HwAddr) (p : Frame) : Frame :=
  if IsAarp p ∧ slice p 30 6 = fake.val then
    Buffer.overwrite (withoutFake eth fake p) 30 eth.val
  else withoutFake eth fake p

variable {v : SheepVars} {supply : Supply}

theorem length_overwrite_addr (a : HwAddr) (h : off + 6 ≤ p.length) :
    (Buffer.overwrite p off a.val).length = p.length :=
  Buffer.length_overwrite (by rw [a.property]; exact h)

/-- What the first two replacements leave alone. -/
theorem withoutFake_spec (eth fake : HwAddr) (h : 14 ≤ p.length) (harp : IsArp p → 28 ≤ p.length) :
    (withoutFake eth fake p).length = p.length ∧
      ∀ i, (12 ≤ i ∧ i < 22) ∨ 28 ≤ i → (withoutFake eth fake p)[i]? = p[i]? := by
  have hsource : ∀ i, 12 ≤ i → (Buffer.overwrite p 6 eth.val)[i]? = p[i]? := fun i hi =>
    Buffer.getElem?_overwrite (by rw [eth.property]; omega) (by rw [eth.property]; omega)
  have hlen : (Buffer.overwrite p 6 eth.val).length = p.length := length_overwrite_addr eth (by omega)
  rw [withoutFake]
  split_ifs with hfake
  · have hlong := harp hfake.1
    refine ⟨(length_overwrite_addr eth (by omega)).trans hlen, fun i hi => ?_⟩
    rw [Buffer.getElem?_overwrite (by rw [eth.property]; omega) (by rw [eth.property]; omega),
      hsource i (by omega)]
  · exact ⟨hlen, fun i hi => hsource i (by omega)⟩

theorem demasquerade_eq (h : 14 ≤ p.length) (harp : IsArp p → 28 ≤ p.length) :
    demasquerade v p = do
      if ← matchesAt p 17 snapAarp then doDemasq v (withoutFake v.ethAddr v.fakeAddr p) 30
      else return withoutFake v.ethAddr v.fakeAddr p := by
  have hlen : (Buffer.overwrite p 6 v.ethAddr.val).length = p.length :=
    length_overwrite_addr _ (by omega)
  have hcode : matchesAt (withoutFake v.ethAddr v.fakeAddr p) 17 snapAarp = matchesAt p 17 snapAarp :=
    matchesAt_congr fun j hlow hhigh => (withoutFake_spec _ _ h harp).2 j
      (.inl ⟨by omega, by rw [show snapAarp.length = 5 from rfl] at hhigh; omega⟩)
  rw [← hcode, demasquerade, protoOf_ok h, Except.ok_bind,
    Buffer.write_ok (by rw [v.ethAddr.property]; omega), Except.ok_bind]
  by_cases htype : typeField p = ethPArp
  · have hlong : 28 ≤ p.length := harp htype
    have hfake : withoutFake v.ethAddr v.fakeAddr p =
        if slice p 22 6 = v.fakeAddr.val then
          Buffer.overwrite (Buffer.overwrite p 6 v.ethAddr.val) 22 v.ethAddr.val
        else Buffer.overwrite p 6 v.ethAddr.val := by
      rw [withoutFake]
      simp only [show IsArp p from htype, true_and]
    rw [if_pos htype, doDemasq_ok v (by omega), Except.ok_bind, hfake,
      slice_overwrite (by rw [v.ethAddr.property]; omega) (by rw [v.ethAddr.property]; omega)]
  · have hfake : withoutFake v.ethAddr v.fakeAddr p = Buffer.overwrite p 6 v.ethAddr.val :=
      if_neg fun h => htype h.1
    rw [if_neg htype, hfake]
    rfl

/-- The test for AARP packets ends inside the frame, is right, or does no harm. -/
def AarpSafe (v : SheepVars) (p : Frame) : Prop :=
  ¬p.drop 17 <+: snapAarp ∧
    (snapAarp <+: p.drop 17 →
      36 ≤ p.length ∧ (¬IsAarp p → slice p 30 6 = v.fakeAddr.val → v.fakeAddr = v.ethAddr))

theorem prefix_of_isAarp (h : IsAarp p) : snapAarp <+: p.drop 17 := by
  rw [← h.2.2]
  exact List.take_prefix ..

theorem onWire_of_not_isAarp (eth fake : HwAddr) (h : ¬IsAarp p) :
    onWire eth fake p = withoutFake eth fake p := if_neg fun haarp => h haarp.1

theorem demasquerade_iff (h : 14 ≤ p.length) (harp : IsArp p → 28 ≤ p.length) :
    demasquerade v p = .ok (onWire v.ethAddr v.fakeAddr p) ↔ AarpSafe v p := by
  obtain ⟨hlen, hsame⟩ := withoutFake_spec v.ethAddr v.fakeAddr h harp
  rw [demasquerade_eq h harp, matchesAt_eq, AarpSafe]
  by_cases hcode : snapAarp <+: p.drop 17
  · rw [if_pos hcode, Except.ok_bind, if_pos rfl]
    by_cases hlong : 36 ≤ p.length
    · have hapart : ¬p.drop 17 <+: snapAarp := by
        intro hle
        have hcount := hle.length_le
        rw [List.length_drop, show snapAarp.length = 5 from rfl] at hcount
        omega
      have hsender : slice (withoutFake v.ethAddr v.fakeAddr p) 30 6 = slice p 30 6 :=
        slice_congr fun i hlow hhigh => hsame i (.inr (by omega))
      rw [doDemasq_ok v (by omega), hsender]
      by_cases haarp : IsAarp p
      · rw [onWire]
        simp only [haarp, true_and, hapart, hlong, not_true, not_false_eq_true, false_implies, implies_true]
      · rw [onWire_of_not_isAarp _ _ haarp]
        by_cases hfake : slice p 30 6 = v.fakeAddr.val
        · have hself := @Buffer.overwrite_eq_self_iff _ (withoutFake v.ethAddr v.fakeAddr p)
            v.ethAddr.val 30 (by rw [v.ethAddr.property]; omega)
          rw [v.ethAddr.property, show ((withoutFake v.ethAddr v.fakeAddr p).drop 30).take 6 = _ from
            hsender, hfake, ← Subtype.ext_iff] at hself
          rw [if_pos hfake, Except.ok.injEq, hself]
          exact ⟨fun heq => ⟨hapart, fun _ => ⟨hlong, fun _ _ => heq⟩⟩,
            fun hsafe => (hsafe.2 hcode).2 haarp hfake⟩
        · rw [if_neg hfake]
          exact iff_of_true rfl ⟨hapart, fun _ => ⟨hlong, fun _ heq => absurd heq hfake⟩⟩
    · rw [doDemasq_error v (by omega)]
      exact iff_of_false (fun heq => by cases heq) fun hsafe => hlong (hsafe.2 hcode).1
  · have haarp : ¬IsAarp p := fun haarp => hcode (prefix_of_isAarp haarp)
    rw [if_neg hcode]
    by_cases hshort : p.drop 17 <+: snapAarp
    · rw [if_pos hshort]
      exact iff_of_false (fun heq => by cases heq) fun hsafe => hsafe.1 hshort
    · rw [if_neg hshort, onWire_of_not_isAarp _ _ haarp]
      exact iff_of_true rfl ⟨hshort, fun hmatch => absurd hmatch hcode⟩

-- ---------------------------------------------------------------------------
-- Written frames
-- ---------------------------------------------------------------------------

/-- A frame for the card's own address alone. -/
def Local (v : SheepVars) (p : Frame) : Prop := slice p 0 6 = v.ethAddr.val ∧ ¬Multicast p

instance (v : SheepVars) (p : Frame) : Decidable (Local v p) := inferInstanceAs (Decidable (_ ∧ _))

/-- The filter after a frame. -/
def filterAfter (ip : Word) (p : Frame) : Word :=
  if IsArp p then (senderIp p).toOption.getD 0 else ip

theorem exists_senderIp (h : 32 ≤ p.length) : ∃ ip, senderIp p = .ok ip := by
  rw [senderIp, Buffer.read_ok h]
  exact ⟨_, rfl⟩

theorem senderIp_error (h : ¬32 ≤ p.length) : senderIp p = .error .frame := by
  rw [senderIp, Buffer.read_error h]
  rfl

theorem transmit_eq (h : 14 ≤ p.length) (harp : IsArp p → 32 ≤ p.length) :
    transmit v supply p =
      if Local v p then
        .ok { ret := p.length, ipfilter := filterAfter v.ipfilter p, looped := [p], wire := none }
      else do
        let wire ← demasquerade v p
        return { ret := p.length, ipfilter := filterAfter v.ipfilter p
                 looped := if Multicast p ∧ supply.skbCopy then [p] else [], wire := some wire } := by
  have htest : (decide (slice p 0 6 = v.ethAddr.val) && !decide (Multicast p)) = decide (Local v p) := by
    rw [← decide_not, ← Bool.decide_and]
    rfl
  have hlooped : (if (decide (Multicast p) && supply.skbCopy) = true then [p] else []) =
      if Multicast p ∧ supply.skbCopy then [p] else [] := by
    simp only [Bool.and_eq_true, decide_eq_true_eq]
  rw [transmit, protoOf_ok h, Except.ok_bind, filterAfter]
  by_cases htype : typeField p = ethPArp
  · obtain ⟨ip, hip⟩ := exists_senderIp (harp htype)
    rw [if_pos htype, if_pos (show IsArp p from htype), hip]
    simp only [Except.pure_eq_ok, Except.ok_bind, isMulticast_ok (show 0 < p.length by omega),
      isAddr_ok v.ethAddr (show 0 + 6 ≤ p.length by omega), htest, hlooped, decide_eq_true_eq]
    rfl
  · rw [if_neg htype, if_neg (show ¬IsArp p from htype)]
    simp only [Except.pure_eq_ok, Except.ok_bind, isMulticast_ok (show 0 < p.length by omega),
      isAddr_ok v.ethAddr (show 0 + 6 ≤ p.length by omega), htest, hlooped, decide_eq_true_eq]

/-- What the tests of the driver need of a frame that it sends. -/
def Sendable (v : SheepVars) (p : Frame) : Prop :=
  (IsArp p → 32 ≤ p.length) ∧ (¬Local v p → AarpSafe v p)

theorem transmit_error (h : 14 ≤ p.length) (harp : ¬(IsArp p → 32 ≤ p.length)) :
    transmit v supply p = .error .frame := by
  obtain ⟨htype, hshort⟩ := Classical.not_imp.mp harp
  rw [transmit, protoOf_ok h, Except.ok_bind, if_pos (show typeField p = ethPArp from htype),
    senderIp_error hshort]
  rfl

/-- The filter is set for each frame that is sent. -/
theorem transmit_ipfilter {w : Written} (h : 14 ≤ p.length) (hw : transmit v supply p = .ok w) :
    w.ipfilter = filterAfter v.ipfilter p := by
  by_cases harp : IsArp p → 32 ≤ p.length
  · rw [transmit_eq h harp] at hw
    by_cases hlocal : Local v p
    · rw [if_pos hlocal] at hw
      exact congrArg Written.ipfilter (Except.ok.inj hw).symm
    · rw [if_neg hlocal] at hw
      obtain ⟨wire, -, hw⟩ := Except.bind_eq_ok.mp hw
      exact congrArg Written.ipfilter (Except.ok.inj hw).symm
  · rw [transmit_error h harp] at hw
    cases hw

/-- What goes out is right. -/
def SentRight (v : SheepVars) (p : Frame) (outcome : Except Overrun (Option Frame)) : Prop :=
  ∃ wire, outcome = .ok wire ∧ ∀ f, wire = some f → f = onWire v.ethAddr v.fakeAddr p

theorem transmit_right_iff (h : 14 ≤ p.length) :
    SentRight v p ((transmit v supply p).map Written.wire) ↔ Sendable v p := by
  by_cases harp : IsArp p → 32 ≤ p.length
  · rw [transmit_eq h harp, Sendable, and_iff_right harp]
    by_cases hlocal : Local v p
    · rw [if_pos hlocal]
      exact iff_of_true ⟨none, rfl, fun f hf => by cases hf⟩ fun h => absurd hlocal h
    · rw [if_neg hlocal, ← demasquerade_iff h fun htype => le_trans (by decide) (harp htype)]
      constructor
      · rintro ⟨wire, hwire, hright⟩ -
        cases hd : demasquerade v p with
        | error e =>
          rw [hd] at hwire
          cases hwire
        | ok f =>
          rw [hd] at hwire
          exact congrArg Except.ok (hright f (Except.ok.inj hwire).symm)
      · intro hsafe
        rw [hsafe hlocal]
        exact ⟨_, rfl, fun f hf => (Option.some.inj hf).symm⟩
  · rw [transmit_error h harp]
    refine iff_of_false ?_ fun hsafe => harp hsafe.1
    rintro ⟨wire, hwire, -⟩
    cases hwire

theorem sheepNetWrite_of_transmitted {buf : List Byte} (h : transmitted v supply buf = some p) :
    sheepNetWrite v supply buf = transmit v supply p ∧ p = buf.take 1514 ∧ 14 ≤ p.length := by
  rw [transmitted] at h
  split_ifs at h with hsend
  obtain ⟨hlen, hether, halloc, hcopy⟩ := hsend
  obtain rfl := Option.some.inj h
  refine ⟨?_, rfl, ?_⟩
  · rw [sheepNetWrite, if_neg (by omega), hether, halloc, hcopy]
    rfl
  · rw [List.length_take]
    omega

theorem sheepNetWrite_of_not_transmitted {buf : List Byte} (h : transmitted v supply buf = none) :
    ∃ ret, sheepNetWrite v supply buf = .ok (notSent v ret) := by
  rw [transmitted] at h
  split_ifs at h with hsend
  rw [sheepNetWrite]
  split_ifs with hlen hether halloc hcopy
  · exact ⟨_, rfl⟩
  · exact ⟨_, rfl⟩
  · exact ⟨_, rfl⟩
  · exact ⟨_, rfl⟩
  · exact absurd ⟨by omega, by simpa using hether, by simpa using halloc, by simpa using hcopy⟩ hsend

-- ---------------------------------------------------------------------------
-- Received frames
-- ---------------------------------------------------------------------------

variable {skb : Skb} {skbCopy own : Bool} {arpIp : Word} {limit : Nat}

/-- What the driver takes for its own packets. -/
def Marked (v : SheepVars) (skb : Skb) : Prop :=
  skb.hSource = v.fakeAddr.val ∨ skb.protocol = protMagic

def ForFake (v : SheepVars) (skb : Skb) : Prop := skb.hDest = v.fakeAddr.val

/-- A frame for the card, for the fake address or for many. -/
def ForGuest (v : SheepVars) (skb : Skb) : Prop :=
  skb.hDest = v.ethAddr.val ∨ ForFake v skb ∨ Multicast skb.bytes

/-- The IP filter: nothing for an address of 0, and else what is for the address or for many. -/
def Passes (ip : Word) (skb : Skb) : Prop :=
  skb.protocol = htons ethPIp → ip ≠ 0 ∧ (daddr skb.bytes = .ok ip ∨ Multicast skb.bytes)

instance (v : SheepVars) (skb : Skb) : Decidable (Marked v skb) := inferInstanceAs (Decidable (_ ∨ _))
instance (v : SheepVars) (skb : Skb) : Decidable (ForFake v skb) := inferInstanceAs (Decidable (_ = _))
instance (v : SheepVars) (skb : Skb) : Decidable (ForGuest v skb) := inferInstanceAs (Decidable (_ ∨ _))
instance (ip : Word) (skb : Skb) : Decidable (Passes ip skb) :=
  inferInstanceAs (Decidable (_ → _ ∧ (_ ∨ _)))

/-- A frame that the guest is to see. -/
def Wanted (v : SheepVars) (ip : Word) (skb : Skb) : Prop :=
  ForGuest v skb ∧ (ForFake v skb ∨ Passes ip skb)

/-- The frame as the guest sees it. -/
def forGuest (fake : HwAddr) (skb : Skb) : Frame :=
  if Multicast skb.bytes then skb.bytes else Buffer.overwrite skb.bytes 0 fake.val

theorem multicast_eq (skb : Skb) : skb.multicast = decide (Multicast skb.bytes) := rfl

theorem masquerade_eq (v : SheepVars) (skb : Skb) : masquerade v skb = forGuest v.fakeAddr skb := by
  rw [masquerade, forGuest, Buffer.overwrite, v.fakeAddr.property]
  by_cases hmulti : Multicast skb.bytes
  · rw [if_pos hmulti, if_neg (by rw [multicast_eq, decide_eq_true hmulti]; decide)]
  · rw [if_neg hmulti, if_pos (by rw [multicast_eq, decide_eq_false hmulti]; rfl)]
    rfl

theorem daddr_error (h : ¬34 ≤ p.length) : daddr p = .error .frame := by
  rw [daddr, Buffer.read_error h]
  rfl

theorem exists_daddr (h : 34 ≤ p.length) : ∃ ip, daddr p = .ok ip := by
  rw [daddr, Buffer.read_ok h]
  exact ⟨_, rfl⟩

/-- The filter looks at the address of an IP packet. -/
theorem filtered_error (hip : skb.protocol = htons ethPIp) (hset : v.ipfilter ≠ 0)
    (hshort : ¬34 ≤ skb.bytes.length) : filtered v skb = .error .frame := by
  rw [filtered, if_neg (not_not.mpr hip), if_neg hset, daddr_error hshort]
  rfl

theorem filtered_ok
    (hlong : skb.protocol = htons ethPIp → v.ipfilter ≠ 0 → 34 ≤ skb.bytes.length) :
    filtered v skb = .ok (decide (¬Passes v.ipfilter skb)) := by
  rw [filtered]
  by_cases hip : skb.protocol = htons ethPIp
  · rw [if_neg (not_not.mpr hip)]
    by_cases hset : v.ipfilter = 0
    · have hdrop : ¬Passes v.ipfilter skb := fun hpass => (hpass hip).1 hset
      rw [if_pos hset, decide_eq_true hdrop]
      rfl
    · obtain ⟨ip, hdaddr⟩ := exists_daddr (hlong hip hset)
      rw [if_neg hset, hdaddr, Except.ok_bind]
      refine congrArg Except.ok ?_
      rw [multicast_eq, ← decide_not, ← Bool.decide_and]
      refine decide_eq_decide.mpr ?_
      rw [Passes, hdaddr, forall_prop_of_true hip, and_iff_right hset, not_or, Except.ok.injEq]
  · rw [if_pos hip, decide_eq_false fun h => h fun hip' => absurd hip' hip]
    rfl

/-- The driver reads the destination of an IP packet. -/
def ReadsDaddr (v : SheepVars) (skb : Skb) : Prop :=
  ¬Marked v skb ∧ ForGuest v skb ∧ ¬ForFake v skb ∧ v.queue.length ≤ maxQueue ∧
    skb.protocol = htons ethPIp ∧ v.ipfilter ≠ 0

/-- What the driver keeps a frame out of the queue for, besides the tests of its addresses. -/
def Blocked (v : SheepVars) (skbCopy : Bool) (skb : Skb) : Prop :=
  Marked v skb ∨ maxQueue < v.queue.length ∨ ¬skbCopy

theorem not_forGuest_iff :
    ¬ForGuest v skb ↔ skb.hDest ≠ v.ethAddr.val ∧ !skb.multicast ∧ ¬skb.hDest = v.fakeAddr.val := by
  rw [ForGuest, not_or, not_or, multicast_eq, ← decide_not, decide_eq_true_eq]
  exact and_congr_right' and_comm

theorem sheepNetReceiver_eq :
    sheepNetReceiver v skbCopy skb =
      if Marked v skb then .ok none
      else if ¬ForGuest v skb then .ok none
      else if maxQueue < v.queue.length then .ok none
      else do
        if ← (if ForFake v skb then pure false else filtered v skb) then return none
        else if !skbCopy then return none
        else return some (masquerade v skb) := by
  rw [sheepNetReceiver, if_congr not_forGuest_iff rfl rfl]
  rfl

/-- The packets that are dropped whatever is in them. -/
theorem sheepNetReceiver_dropped
    (h : Marked v skb ∨ ¬ForGuest v skb ∨ maxQueue < v.queue.length) :
    sheepNetReceiver v skbCopy skb = .ok none := by
  rw [sheepNetReceiver_eq]
  by_cases hmark : Marked v skb
  · rw [if_pos hmark]
  by_cases hguest : ForGuest v skb
  · rw [if_neg hmark, if_neg (not_not.mpr hguest),
      if_pos ((h.resolve_left hmark).resolve_left (not_not.mpr hguest))]
  · rw [if_neg hmark, if_pos hguest]

theorem sheepNetReceiver_filter (hmark : ¬Marked v skb) (hguest : ForGuest v skb)
    (hroom : v.queue.length ≤ maxQueue) :
    sheepNetReceiver v skbCopy skb = do
      if ← (if ForFake v skb then pure false else filtered v skb) then return none
      else if !skbCopy then return none
      else return some (masquerade v skb) := by
  rw [sheepNetReceiver_eq, if_neg hmark, if_neg (not_not.mpr hguest), if_neg (Nat.not_lt.mpr hroom)]

theorem sheepNetReceiver_error (hread : ReadsDaddr v skb) (hshort : ¬34 ≤ skb.bytes.length) :
    sheepNetReceiver v skbCopy skb = .error .frame := by
  obtain ⟨hmark, hguest, hfake, hroom, hip, hset⟩ := hread
  rw [sheepNetReceiver_filter hmark hguest hroom, if_neg hfake, filtered_error hip hset hshort]
  rfl

theorem sheepNetReceiver_ok (hlong : ReadsDaddr v skb → 34 ≤ skb.bytes.length) :
    ∃ outcome, sheepNetReceiver v skbCopy skb = .ok outcome ∧
      ∀ f, outcome = some f ↔
        (Wanted v v.ipfilter skb ∧ ¬Blocked v skbCopy skb) ∧ f = forGuest v.fakeAddr skb := by
  by_cases hdrop : Marked v skb ∨ ¬ForGuest v skb ∨ maxQueue < v.queue.length
  · refine ⟨none, sheepNetReceiver_dropped hdrop, fun f => iff_of_false (by simp) ?_⟩
    rintro ⟨⟨hwanted, hblocked⟩, -⟩
    rcases hdrop with hmark | hguest | hfull
    · exact hblocked (.inl hmark)
    · exact hguest hwanted.1
    · exact hblocked (.inr (.inl hfull))
  · obtain ⟨hmark, hdrop⟩ := not_or.mp hdrop
    obtain ⟨hguest, hroom⟩ := not_or.mp hdrop
    rw [not_not] at hguest
    rw [Nat.not_lt] at hroom
    have htest : (if ForFake v skb then pure false else filtered v skb) =
        .ok (decide ¬(ForFake v skb ∨ Passes v.ipfilter skb)) := by
      by_cases hfake : ForFake v skb
      · rw [if_pos hfake, decide_eq_false (not_not.mpr (.inl hfake))]
        rfl
      · rw [if_neg hfake, filtered_ok fun hip hset => hlong ⟨hmark, hguest, hfake, hroom, hip, hset⟩]
        simp only [hfake, false_or]
    rw [sheepNetReceiver_filter hmark hguest hroom, htest, Except.ok_bind, masquerade_eq]
    by_cases hpass : ForFake v skb ∨ Passes v.ipfilter skb
    · rw [decide_eq_false (not_not.mpr hpass), if_neg Bool.false_ne_true]
      cases skbCopy with
      | false => exact ⟨none, rfl, fun f => iff_of_false (by simp) fun h => h.1.2 (.inr (.inr (by simp)))⟩
      | true =>
        have hblocked : ¬Blocked v true skb := by
          rintro (h | h | h)
          · exact hmark h
          · exact absurd hroom (Nat.not_le.mpr h)
          · exact h rfl
        refine ⟨_, rfl, fun f => ?_⟩
        rw [Option.some.injEq, eq_comm]
        exact (and_iff_right ⟨⟨hguest, hpass⟩, hblocked⟩).symm
    · rw [decide_eq_true hpass, if_pos rfl]
      exact ⟨none, rfl, fun f => iff_of_false (by simp) fun h => hpass h.1.1.2⟩

/-- What the tests of the driver need of a frame that it receives, with room for `limit` frames. -/
def Receivable (limit : Nat) (v : SheepVars) (skb : Skb) (own skbCopy : Bool) : Prop :=
  (ReadsDaddr v skb → 34 ≤ skb.bytes.length) ∧
    (Wanted v v.ipfilter skb → (Blocked v skbCopy skb ↔ own ∨ limit ≤ v.queue.length))

/-- A frame is queued as the guest is to see it, if it is wanted and not the driver's own. -/
def ReceivedRight (limit : Nat) (v : SheepVars) (ip : Word) (skb : Skb) (own : Bool)
    (outcome : Except Overrun (Option Frame)) : Prop :=
  ∃ queued, outcome = .ok queued ∧
    ∀ f, queued = some f ↔
      (Wanted v ip skb ∧ ¬own ∧ v.queue.length < limit) ∧ f = forGuest v.fakeAddr skb

theorem sheepNetReceiver_right_iff :
    ReceivedRight limit v v.ipfilter skb own (sheepNetReceiver v skbCopy skb) ↔
      Receivable limit v skb own skbCopy := by
  by_cases hlong : ReadsDaddr v skb → 34 ≤ skb.bytes.length
  · obtain ⟨outcome, houtcome, hqueued⟩ := @sheepNetReceiver_ok v skb skbCopy hlong
    rw [Receivable, and_iff_right hlong, houtcome]
    constructor
    · rintro ⟨queued, heq, hright⟩ hwanted
      obtain rfl := Except.ok.inj heq
      have hsame := (hqueued (forGuest v.fakeAddr skb)).symm.trans (hright _)
      rw [and_iff_left rfl, and_iff_left rfl, and_iff_right hwanted, and_iff_right hwanted,
        ← Nat.not_le, ← not_or, not_iff_not] at hsame
      exact hsame
    · intro hblocked
      refine ⟨outcome, rfl, fun f => (hqueued f).trans (and_congr_left' (and_congr_right ?_))⟩
      intro hwanted
      rw [hblocked hwanted, not_or, Nat.not_le]
  · obtain ⟨hread, hshort⟩ := Classical.not_imp.mp hlong
    rw [sheepNetReceiver_error hread hshort]
    refine iff_of_false ?_ fun h => hlong h.1
    rintro ⟨queued, heq, -⟩
    cases heq

-- ---------------------------------------------------------------------------
-- Runs
-- ---------------------------------------------------------------------------

/-- What a call is to do, with room for `limit` frames in the queue. -/
def Call.Right (limit : Nat) : Call → Prop
  | .written v buf outcome => 14 ≤ buf.length → buf.length ≤ 1514 → SentRight v buf outcome
  | .received v arpIp skb own outcome => ReceivedRight limit v arpIp skb own outcome
  | .filterSet arpIp ip => ip = arpIp

def Guard (limit : Nat) (s : State) : Event → Prop
  | .write supply buf => buf.length ≤ 1514 → ∀ p, transmitted s.vars supply buf = some p → Sendable s.vars p
  | .receive skb own skbCopy => Receivable limit s.vars skb own skbCopy
  | .setIpfilter ip => ip = lastArpIp s.sent
  | .read => True
  | .attach _ => True
  | .setAddr _ => True

def Good (limit : Nat) (s : State) : Prop := ∀ c ∈ s.calls, c.Right limit

structure Inv (limit : Nat) (s : State) : Prop where
  ipfilter : s.vars.ipfilter = lastArpIp s.sent
  room : s.vars.queue.length ≤ limit
  good : Good limit s

theorem inv_initial (limit : Nat) : Inv limit initial := ⟨rfl, Nat.zero_le _, by rintro c ⟨⟩⟩

theorem written_right_iff {buf : List Byte} :
    (Call.written v buf ((sheepNetWrite v supply buf).map Written.wire)).Right limit ↔
      (buf.length ≤ 1514 → ∀ p, transmitted v supply buf = some p → Sendable v p) := by
  rw [Call.Right]
  cases hsent : transmitted v supply buf with
  | none =>
    obtain ⟨ret, hret⟩ := sheepNetWrite_of_not_transmitted hsent
    rw [hret]
    exact iff_of_true (fun _ _ => ⟨none, rfl, fun f hf => by cases hf⟩) fun _ p hp => by cases hp
  | some p =>
    obtain ⟨hcode, hp, hlen⟩ := sheepNetWrite_of_transmitted hsent
    have hmin : 14 ≤ buf.length := le_trans hlen (by rw [hp, List.length_take]; exact min_le_right ..)
    rw [hcode, forall_prop_of_true hmin]
    refine forall_congr' fun hfits => ?_
    rw [List.take_of_length_le hfits] at hp
    subst hp
    rw [transmit_right_iff hlen]
    exact ⟨fun h p hp => Option.some.inj hp ▸ h, fun h => h _ rfl⟩

variable {s s' : State} {e : Event} {ethTypeTrans : Frame → BitVec 16}

theorem lastArpIp_cons (h : 14 ≤ p.length) (sent : List Frame) :
    lastArpIp (p :: sent) = filterAfter (lastArpIp sent) p := by
  rw [lastArpIp, filterAfter, List.find?_cons, protoOf_ok h]
  by_cases htype : IsArp p
  · rw [if_pos htype, show typeField p = ethPArp from htype]
    rfl
  · rw [if_neg htype, decide_eq_false fun heq => htype (Except.ok.inj heq)]
    rfl

theorem stepWrite_spec (supply : Supply) (buf : List Byte) :
    ∃ ip sent, (stepWrite ethTypeTrans s supply buf).vars = { s.vars with ipfilter := ip } ∧
      (stepWrite ethTypeTrans s supply buf).sent = sent ∧
      (stepWrite ethTypeTrans s supply buf).calls =
        .written s.vars buf ((sheepNetWrite s.vars supply buf).map Written.wire) :: s.calls ∧
      (s.vars.ipfilter = lastArpIp s.sent → ip = lastArpIp sent) := by
  rw [stepWrite]
  cases hw : sheepNetWrite s.vars supply buf with
  | error e => exact ⟨s.vars.ipfilter, s.sent, rfl, rfl, rfl, id⟩
  | ok w =>
    refine ⟨w.ipfilter, _, rfl, rfl, rfl, fun hfilter => ?_⟩
    cases hsent : transmitted s.vars supply buf with
    | none =>
      obtain ⟨ret, hret⟩ := sheepNetWrite_of_not_transmitted hsent
      obtain rfl := Except.ok.inj (hw.symm.trans hret)
      exact hfilter
    | some p =>
      obtain ⟨hcode, -, hlen⟩ := sheepNetWrite_of_transmitted hsent
      show w.ipfilter = lastArpIp (p :: s.sent)
      rw [transmit_ipfilter hlen (hcode.symm.trans hw), lastArpIp_cons hlen, hfilter]

/-- A frame that is rightly queued finds room. -/
theorem ReceivedRight.room {outcome : Except Overrun (Option Frame)}
    (h : ReceivedRight limit v arpIp skb own outcome) (hroom : v.queue.length ≤ limit) :
    (v.queue ++ (outcome.toOption.getD none).toList).length ≤ limit := by
  obtain ⟨queued, rfl, hqueued⟩ := h
  cases queued with
  | none => rwa [show (Except.toOption (.ok none : Except Overrun (Option Frame))).getD none = none from rfl,
      Option.toList_none, List.append_nil]
  | some f =>
    obtain ⟨⟨-, -, hlt⟩, -⟩ := (hqueued f).mp rfl
    rw [List.length_append]
    exact hlt

theorem good_cons {c : Call} {s' : State} (hs' : s'.calls = c :: s.calls) :
    Good limit s' ↔ c.Right limit ∧ Good limit s := by
  rw [Good, hs', List.forall_mem_cons]
  rfl

/-- What a step adds to the calls is right exactly if it meets the guard. -/
theorem Inv.step (hinv : Inv limit s) (hstep : step ethTypeTrans s e = some s') :
    (Good limit s' ↔ Guard limit s e) ∧ (Good limit s' → Inv limit s') := by
  cases e with
  | write supply buf =>
    obtain rfl := Option.some.inj hstep
    obtain ⟨ip, sent, hvars, hsent, hcalls, hfilter⟩ := @stepWrite_spec s ethTypeTrans supply buf
    refine ⟨?_, fun hgood => ⟨?_, ?_, hgood⟩⟩
    · rw [good_cons hcalls, written_right_iff, and_iff_left hinv.good]
      rfl
    · rw [hvars, hsent]
      exact hfilter hinv.ipfilter
    · rw [hvars]
      exact hinv.room
  | receive skb own skbCopy =>
    rw [SheepNet.step] at hstep
    split_ifs at hstep
    obtain rfl := Option.some.inj hstep
    have hright : Good limit (stepReceive s skb own skbCopy) ↔
        ReceivedRight limit s.vars (lastArpIp s.sent) skb own (sheepNetReceiver s.vars skbCopy skb) :=
      (good_cons rfl).trans (and_iff_left hinv.good)
    refine ⟨?_, fun hgood => ⟨hinv.ipfilter, (hright.mp hgood).room hinv.room, hgood⟩⟩
    rw [hright, ← hinv.ipfilter]
    exact sheepNetReceiver_right_iff
  | read =>
    obtain rfl := Option.some.inj hstep
    refine ⟨iff_of_true hinv.good trivial, fun hgood => ⟨hinv.ipfilter, ?_, hgood⟩⟩
    exact le_trans (by simp) hinv.room
  | attach card =>
    rw [SheepNet.step] at hstep
    split_ifs at hstep
    · obtain rfl := Option.some.inj hstep
      exact ⟨iff_of_true hinv.good trivial, fun _ => hinv⟩
    · obtain rfl := Option.some.inj hstep
      exact ⟨iff_of_true hinv.good trivial, fun hgood => ⟨hinv.ipfilter, hinv.room, hgood⟩⟩
  | setAddr a =>
    obtain rfl := Option.some.inj hstep
    exact ⟨iff_of_true hinv.good trivial, fun hgood => ⟨hinv.ipfilter, hinv.room, hgood⟩⟩
  | setIpfilter ip =>
    obtain rfl := Option.some.inj hstep
    refine ⟨(good_cons rfl).trans (and_iff_left hinv.good), fun hgood => ⟨?_, hinv.room, hgood⟩⟩
    exact hgood _ (List.mem_cons_self ..)

theorem Good.of_step (hstep : step ethTypeTrans s e = some s') (hgood : Good limit s') : Good limit s := by
  cases e with
  | write supply buf =>
    obtain rfl := Option.some.inj hstep
    obtain ⟨ip, sent, -, -, hcalls, -⟩ := @stepWrite_spec s ethTypeTrans supply buf
    exact ((good_cons hcalls).mp hgood).2
  | receive skb own skbCopy =>
    rw [SheepNet.step] at hstep
    split_ifs at hstep
    obtain rfl := Option.some.inj hstep
    exact fun c hc => hgood c (List.mem_cons_of_mem _ hc)
  | read =>
    obtain rfl := Option.some.inj hstep
    exact hgood
  | attach card =>
    rw [SheepNet.step] at hstep
    split_ifs at hstep
    · exact Option.some.inj hstep ▸ hgood
    · obtain rfl := Option.some.inj hstep
      exact hgood
  | setAddr a =>
    obtain rfl := Option.some.inj hstep
    exact hgood
  | setIpfilter ip =>
    obtain rfl := Option.some.inj hstep
    exact fun c hc => hgood c (List.mem_cons_of_mem _ hc)

-- ---------------------------------------------------------------------------
-- Exactness
-- ---------------------------------------------------------------------------

/-- In the runs whose frames suit the tests of the driver, and in no other, every frame goes out and
is queued as it should; the queue is then never longer than its limit. -/
theorem exact_iff (limit : Nat) {es : List Event}
    (hrun : Steps.run (step ethTypeTrans) initial es = some s) :
    ((∀ c ∈ s.calls, c.Right limit) ∧ s.vars.queue.length ≤ limit) ↔
      Steps.Guarded (step ethTypeTrans) (Guard limit) initial es := by
  have hkeep : ∀ {s s' e}, Inv limit s → Guard limit s e → step ethTypeTrans s e = some s' →
      Inv limit s' := fun hinv hguard hstep => (hinv.step hstep).2 ((hinv.step hstep).1.mpr hguard)
  have hgood := Steps.good_iff_guarded (fun hinv : Inv limit _ => hinv.good) hkeep
    (fun hinv hguard hstep hgood => hguard ((hinv.step hstep).1.mp hgood))
    (fun hstep hgood => hgood.of_step hstep) (inv_initial limit) hrun
  constructor
  · exact fun hright => hgood.mp hright.1
  · intro hguard
    exact ⟨hgood.mpr hguard, ((Steps.Reaches.start.run_append hrun hguard).invariant (inv_initial limit)
      hkeep).room⟩

/-- An ARP frame of the guest, and then an IP packet for it. -/
def arpRun : List Event :=
  [.attach ⟨[2, 0, 0, 0, 0, 1], rfl⟩,
    .write ⟨true, true, true⟩ ([255, 255, 255, 255, 255, 255, 0xfe, 0xfd, 0xde, 0xad, 0xbe, 0xef, 8, 6,
      0, 1, 8, 0, 6, 4, 0, 1, 0xfe, 0xfd, 0xde, 0xad, 0xbe, 0xef, 10, 0, 2, 15] ++
      List.replicate 6 0 ++ [10, 0, 2, 2]),
    .receive ⟨[2, 0, 0, 0, 0, 1, 2, 0, 0, 0, 0, 9, 8, 0, 0x45, 0, 0, 20, 0, 0, 0, 0, 64, 17, 0, 0,
      10, 0, 2, 2, 10, 0, 2, 15], htons ethPIp, by decide⟩ false true]

theorem exact_arpRun :
    ∃ s, Steps.run (step fun _ => htons ethPArp) initial arpRun = some s ∧
      ((∀ c ∈ s.calls, c.Right maxQueue) ∧ s.vars.queue.length ≤ maxQueue) ∧ s.vars.queue.length = 1 := by
  obtain ⟨s, hrun, hqueue⟩ : ∃ s, Steps.run (step fun _ => htons ethPArp) initial arpRun = some s ∧
      s.vars.queue.length = 1 := ⟨_, rfl, rfl⟩
  refine ⟨s, hrun, (exact_iff maxQueue hrun).mpr ⟨trivial, fun _ p hp => ?_, ?_, trivial⟩, hqueue⟩
  · obtain rfl := Option.some.inj hp
    exact ⟨by decide, fun _ => ⟨by decide, fun h => absurd h (by decide)⟩⟩
  · refine ⟨fun _ => by decide, fun _ => iff_of_false ?_ (by decide)⟩
    rintro (h | h | h)
    · exact absurd h (by decide)
    · exact absurd h (by decide)
    · exact h rfl

/-- The SNAP code of a frame without data is looked for behind its end. -/
theorem short_frame_overrun :
    ∃ es s, Steps.run (step fun _ => 0) initial es = some s ∧
      ¬∃ limit, (∀ c ∈ s.calls, c.Right limit) ∧ s.vars.queue.length ≤ limit := by
  refine ⟨[.attach ⟨[2, 0, 0, 0, 0, 1], rfl⟩, .write ⟨true, true, true⟩ (List.replicate 14 0)], _, rfl, ?_⟩
  rintro ⟨limit, hright, -⟩
  obtain ⟨wire, hwire, -⟩ := hright _ (List.mem_cons_self ..) (by decide) (by decide)
  cases hwire

end SheepShear.Ether.SheepNet
