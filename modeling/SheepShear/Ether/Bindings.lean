import SheepShear.Ether.Receive
import SheepShear.Lib.Words

/-!
# How bindings of a stream compose

Three laws one expects of the bind requests, each with the exact condition under
which the driver keeps it: a refused request changes nothing, a group SAP or
SNAP can be bound and unbound again, and a new bind forgets the old bindings.
-/

namespace SheepShear.Ether

-- ---------------------------------------------------------------------------
-- Group SAPs
-- ---------------------------------------------------------------------------

/-- The bit of a SAP in its word. -/
def groupBit (sap : Byte) : Nat := ((sap >>> 1) &&& 0x1f#8).toNat

theorem groupBit_lt (sap : Byte) : groupBit sap < 32 := by
  have h : groupBit sap ≤ (0x1f#8).toNat := by
    rw [groupBit, BitVec.toNat_and]
    exact Nat.and_le_right
  exact Nat.lt_succ_of_le h

theorem groupMask_eq (sap : Byte) : groupMask sap = BitVec.twoPow 32 (groupBit sap) := by
  rw [groupMask, BitVec.twoPow, groupBit]

theorem testGroupSAP_eq (g : GroupMap) (sap : Byte) :
    testGroupSAP g sap = (g (groupIndex sap)).getLsbD (groupBit sap) := by
  rw [testGroupSAP, groupMask_eq, Bool.eq_iff_iff, decide_eq_true_eq]
  exact Word.and_twoPow_ne_zero (groupBit_lt sap)

theorem setGroupSAP_eq_self {g : GroupMap} {sap : Byte} :
    setGroupSAP g sap = g ↔ testGroupSAP g sap = true := by
  rw [setGroupSAP, Function.update_eq_self_iff, groupMask_eq, testGroupSAP_eq]
  exact Word.or_twoPow_eq_self (groupBit_lt sap)

theorem clearGroupSAP_eq_self {g : GroupMap} {sap : Byte} :
    clearGroupSAP g sap = g ↔ testGroupSAP g sap = false := by
  rw [clearGroupSAP, Function.update_eq_self_iff, groupMask_eq, testGroupSAP_eq]
  exact Word.and_not_twoPow_eq_self (groupBit_lt sap)

theorem clear_setGroupSAP_eq_self {g : GroupMap} {sap : Byte} :
    clearGroupSAP (setGroupSAP g sap) sap = g ↔ testGroupSAP g sap = false := by
  rw [clearGroupSAP, setGroupSAP, Function.update_self, Function.update_idem,
    Function.update_eq_self_iff, groupMask_eq, testGroupSAP_eq]
  exact Word.or_and_not_twoPow_eq_self (groupBit_lt sap)

-- ---------------------------------------------------------------------------
-- Refused requests
-- ---------------------------------------------------------------------------

/-- A request for an additional binding passes the checks, and the stream does not have the binding
yet. -/
def NewBinding (s : DLPIStream) (bindClass : BindClass) (sap : SubsSap) : Prop :=
  match bindClass with
  | .peer => s.dlsap ≤ kMax8022SAP ∧
    if sap.IsGroup then
      testGroupSAP s.groupSap (sap.theSap.setWidth 8) = false
    else sap.theSap = 0 ∧ s.flags.acceptAll8022Packets = false
  | .hierarchical => s.dlsap = kSNAPSAP ∧ s.flags.snapStream = false
  | .other => False

/-- The request makes a new binding and there is no memory for its reply. -/
def ReplyLost (s : DLPIStream) (a : Alloc) : Request → Prop
  | .subsBind bindClass sap => s.dlpiState = .idle ∧ NewBinding s bindClass sap ∧ a.reply = false
  | _ => False

theorem acceptAll_eq_self {s : DLPIStream} :
    { s with flags := { s.flags with acceptAll8022Packets := true } } = s ↔
      s.flags.acceptAll8022Packets = true := by
  constructor
  · intro h
    rw [← h]
  · intro h
    obtain ⟨_, ⟨_, _, _, _⟩, _, _, _, _⟩ := s
    cases h
    rfl

/-- What `subsBind` does is visible exactly for a new binding. -/
theorem subsBind_eq_self {s s' : DLPIStream} {bindClass : BindClass} {sap : SubsSap}
    (h : subsBind s bindClass sap = .ok s') : s' = s ↔ ¬ NewBinding s bindClass sap := by
  cases bindClass with
  | peer =>
    simp only [subsBind] at h
    split_ifs at h with hdlsap hgroup hall
    · cases h
      have hset : { s with groupSap := setGroupSAP s.groupSap (sap.theSap.setWidth 8) } = s ↔
          setGroupSAP s.groupSap (sap.theSap.setWidth 8) = s.groupSap := by
        constructor
        · intro heq
          exact congrArg DLPIStream.groupSap heq
        · intro heq
          rw [heq]
      rw [hset, setGroupSAP_eq_self]
      simp only [NewBinding, hdlsap, hgroup, if_true, true_and, Bool.not_eq_false]
    · cases h
      rw [acceptAll_eq_self]
      simp only [NewBinding, hdlsap, hgroup, hall, if_false, true_and, Bool.not_eq_false]
  | hierarchical =>
    simp only [subsBind] at h
    split_ifs at h with hdlsap hsnap
    cases h
    refine iff_of_false ?_ (not_not.mpr ⟨hdlsap, Bool.not_eq_true _ ▸ hsnap⟩)
    intro heq
    have hflag := congrArg (fun s : DLPIStream => s.flags.snapStream) heq
    simp [hsnap] at hflag
  | other => cases h

theorem subsBind_error {s : DLPIStream} {bindClass : BindClass} {sap : SubsSap} {err : DlError}
    (h : subsBind s bindClass sap = .error err) : ¬ NewBinding s bindClass sap := by
  cases bindClass with
  | peer =>
    simp only [subsBind] at h
    split_ifs at h with hdlsap hgroup hall
    · simp only [NewBinding, hgroup, hall, if_false, false_and, and_false, not_false_eq_true]
    · exact fun hnew => hdlsap hnew.1
  | hierarchical =>
    simp only [subsBind] at h
    split_ifs at h with hdlsap hsnap
    · simp [NewBinding, hsnap]
    · exact fun hnew => hdlsap hnew.1
  | other => exact id

/-- A request answered with an error leaves the stream alone, unless its binding was made before the
reply was allocated. -/
theorem request_refused {s : DLPIStream} {a : Alloc} {r : Request}
    (h : (request s a r).1.isErrorAck = true) : (request s a r).2 = s ↔ ¬ ReplyLost s a r := by
  cases r with
  | bind sap connectionless =>
    refine iff_of_true ?_ id
    simp only [request, dlpiBind] at h ⊢
    split_ifs at h ⊢
    all_goals first
      | rfl
      | cases h
  | unbind =>
    refine iff_of_true ?_ id
    simp only [request, dlpiUnbind] at h ⊢
    split_ifs at h ⊢
    · rfl
    · simp only [dlpiOkAck] at h
      split at h <;> cases h
  | subsBind bindClass sap =>
    simp only [request, dlpiSubsBind] at h ⊢
    by_cases hidle : s.dlpiState = .idle
    · rw [if_neg (not_not.mpr hidle)] at h ⊢
      cases hbind : subsBind s bindClass sap with
      | error err =>
        refine iff_of_true rfl ?_
        rintro ⟨-, hnew, -⟩
        exact subsBind_error hbind hnew
      | ok s' =>
        cases hreply : a.reply with
        | true =>
          rw [hbind, hreply] at h
          cases h
        | false =>
          have hself := subsBind_eq_self hbind
          simp only [ReplyLost, hidle, hreply, true_and, and_true]
          exact hself
    · rw [if_pos hidle] at h ⊢
      exact iff_of_true rfl fun hlost => hidle hlost.1
  | subsUnbind sap =>
    refine iff_of_true ?_ id
    obtain hs | ⟨hidle, s', hunbind, hs⟩ := dlpiSubsUnbind_state s sap a
    · exact hs
    · simp only [request, dlpiSubsUnbind, hidle, hunbind, ne_eq, not_true_eq_false, if_false,
        dlpiOkAck] at h
      split at h <;> cases h
  | enableMulti addr =>
    refine iff_of_true ?_ id
    simp only [request, dlpiEnableMulti] at h ⊢
    split_ifs at h ⊢
    · rfl
    · rfl
    · simp only [dlpiOkAck] at h
      split at h <;> cases h
  | disableMulti addr =>
    refine iff_of_true ?_ id
    simp only [request, dlpiDisableMulti] at h ⊢
    by_cases haddr : getAddressType addr ≠ .multicast
    · rw [if_pos haddr]
    rw [if_neg haddr] at h ⊢
    by_cases hfound : isMulticastRegistered s addr
    · rw [if_neg (not_not.mpr hfound)] at h
      simp only [dlpiOkAck] at h
      split at h <;> cases h
    · rw [if_pos hfound]
  | fastPath => cases h

-- ---------------------------------------------------------------------------
-- Binding and unbinding
-- ---------------------------------------------------------------------------

/-- Everything that is bound. -/
structure Bindings where
  state : DlpiState
  dlsap : Sap
  all8022 : Bool
  groups : GroupMap
  snap : Option Snap

def DLPIStream.bindings (s : DLPIStream) : Bindings :=
  ⟨s.dlpiState, s.dlsap, s.flags.acceptAll8022Packets, s.groupSap,
    if s.flags.snapStream then some s.snap else none⟩

/-- The bindings are what they were, and so is the receive filter. -/
def Restored (s s' : DLPIStream) : Prop :=
  s'.bindings = s.bindings ∧ ∀ h, wantsPacket s' h = wantsPacket s h

theorem typeFound_congr {s s' : DLPIStream} (hb : s'.bindings = s.bindings) (h : Header) :
    typeFound s' h = typeFound s h := by
  simp only [DLPIStream.bindings, Bindings.mk.injEq] at hb
  obtain ⟨-, hdlsap, hall, hgroups, hsnap⟩ := hb
  unfold typeFound
  rw [hdlsap, hall, hgroups]
  congr 2
  cases hf' : s'.flags.snapStream <;> cases hf : s.flags.snapStream <;>
    simp [hf, hf'] at hsnap ⊢
  rw [hsnap]

theorem restored_iff {s s' : DLPIStream} (hlist : s'.multicastList = s.multicastList)
    (hflag : s'.flags.acceptMulticasts = s.flags.acceptMulticasts) :
    Restored s s' ↔ s'.bindings = s.bindings := by
  refine ⟨And.left, fun hb => ⟨hb, fun h => ?_⟩⟩
  have hstate : s'.dlpiState = s.dlpiState := congrArg Bindings.state hb
  simp only [wantsPacket, hstate, typeFound_congr hb, hflag, isMulticastRegistered, hlist]

/-- The binding a request names can be taken away again by a request with the same address. -/
def CanUnbind (s : DLPIStream) (bindClass : BindClass) (sap : SubsSap) : Prop :=
  match bindClass with
  | .peer => testGroupSAP s.groupSap (sap.theSap.setWidth 8) = true ∧ s.flags.snapStream = false
  | .hierarchical => sap.length = 1 →
    sap.bytes 0 &&& 1 ≠ 0 ∧ sap.bytes 0 ≠ kIPXSAP.setWidth 8 ∧
      testGroupSAP s.groupSap (sap.bytes 0) = false
  | .other => True

theorem dlpiSubsBind_ack {s : DLPIStream} {bindClass : BindClass} {sap : SubsSap} {a : Alloc}
    {bytes : List Byte} (h : (dlpiSubsBind s bindClass sap a).1 = .subsBindAck bytes) :
    s.dlpiState = .idle ∧
      subsBind s bindClass sap = .ok (dlpiSubsBind s bindClass sap a).2 := by
  obtain hs | hs := dlpiSubsBind_state s bindClass sap a
  · unfold dlpiSubsBind at h ⊢
    by_cases hidle : s.dlpiState = .idle
    · rw [if_neg (not_not.mpr hidle)] at h ⊢
      cases hbind : subsBind s bindClass sap with
      | error err =>
        simp only [hbind, dlpiErrorAck] at h
        split at h <;> cases h
      | ok s' =>
        refine ⟨hidle, ?_⟩
        cases a.reply <;> rfl
    · rw [if_pos hidle] at h
      simp only [dlpiErrorAck] at h
      split at h <;> cases h
  · exact hs

theorem group_restored {s s' : DLPIStream} {sap : SubsSap} (hidle : s.dlpiState = .idle)
    (hgroup : sap.IsGroup) (h : subsBind s .peer sap = .ok s') (a : Alloc) :
    Restored s (dlpiSubsUnbind s' sap a).2 ↔ CanUnbind s .peer sap := by
  simp only [subsBind, hgroup, if_true] at h
  split_ifs at h with hdlsap
  cases h
  -- an address of two bytes is neither a SAP nor a SNAP to `DLPI_subs_unbind`
  have hunbind : (dlpiSubsUnbind
      { s with groupSap := setGroupSAP s.groupSap (sap.theSap.setWidth 8) } sap a).2 =
      { s with
        groupSap := setGroupSAP s.groupSap (sap.theSap.setWidth 8)
        flags := { s.flags with snapStream := false } } := by
    simp [dlpiSubsUnbind, subsUnbind, hidle, hgroup.2]
  rw [hunbind]
  refine (restored_iff (by rfl) (by rfl)).trans ?_
  simp only [DLPIStream.bindings, Bindings.mk.injEq, CanUnbind, ← setGroupSAP_eq_self, true_and,
    Bool.false_eq_true, if_false]
  cases s.flags.snapStream <;> simp

theorem snap_restored {s s' : DLPIStream} {sap : SubsSap} (hidle : s.dlpiState = .idle)
    (h : subsBind s .hierarchical sap = .ok s') (a : Alloc) :
    Restored s (dlpiSubsUnbind s' sap a).2 ↔ CanUnbind s .hierarchical sap := by
  simp only [subsBind] at h
  split_ifs at h with hdlsap hsnap
  cases h
  have hoff : s.flags.snapStream = false := Bool.not_eq_true _ ▸ hsnap
  by_cases hlength : sap.length = 1
  · by_cases hodd : sap.bytes 0 &&& 1 ≠ 0 ∧ sap.bytes 0 ≠ kIPXSAP.setWidth 8
    · -- the SNAP is given up, and a group SAP with it
      have hmax : kSNAPSAP ≤ kMax8022SAP := by decide
      have hunbind : (dlpiSubsUnbind
          { s with snap := sap.snap, flags := { s.flags with snapStream := true } } sap a).2 =
          { s with
            snap := sap.snap
            groupSap := clearGroupSAP s.groupSap (sap.bytes 0)
            flags := { s.flags with snapStream := false } } := by
        simp only [dlpiSubsUnbind, subsUnbind, hidle, hlength, hodd, hdlsap, hmax, ne_eq,
          not_true_eq_false, not_false_eq_true, if_true, if_false, and_self]
      rw [hunbind]
      refine (restored_iff (by rfl) (by rfl)).trans ?_
      simp only [DLPIStream.bindings, Bindings.mk.injEq, clearGroupSAP_eq_self, hoff, true_and,
        Bool.false_eq_true, if_false, and_true]
      exact ⟨fun htest _ => ⟨hodd.1, hodd.2, htest⟩, fun hcan => (hcan hlength).2.2⟩
    · have hunbind : (dlpiSubsUnbind
          { s with snap := sap.snap, flags := { s.flags with snapStream := true } } sap a).2 =
          { s with snap := sap.snap, flags := { s.flags with snapStream := true } } := by
        simp only [dlpiSubsUnbind, subsUnbind, hidle, hlength, hodd, ne_eq, not_true_eq_false,
          if_true, if_false]
      rw [hunbind]
      refine (restored_iff (by rfl) (by rfl)).trans (iff_of_false ?_ ?_)
      · simp [DLPIStream.bindings, hoff]
      · exact fun hcan => hodd ⟨(hcan hlength).1, (hcan hlength).2.1⟩
  · have hunbind : (dlpiSubsUnbind
        { s with snap := sap.snap, flags := { s.flags with snapStream := true } } sap a).2 =
        { s with snap := sap.snap, flags := { s.flags with snapStream := false } } := by
      simp only [dlpiSubsUnbind, subsUnbind, hidle, hlength, hdlsap, ne_eq, not_true_eq_false,
        if_true, if_false]
      split
      · next hfive =>
        by_cases h5 : sap.length = 5
        · simp [h5] at hfive
        · simp [h5] at hfive
      · next hfive =>
        by_cases h5 : sap.length = 5
        · simp only [h5, if_true] at hfive
          cases hfive
          rfl
        · simp only [h5, if_false] at hfive
          cases hfive
          rfl
    rw [hunbind]
    refine (restored_iff (by rfl) (by rfl)).trans (iff_of_true ?_ fun h1 => absurd h1 hlength)
    simp [DLPIStream.bindings, hoff]

/-- A group SAP can be taken away again by a request that names it in one byte. -/
def CanUnbindByte (s : DLPIStream) (sap : Byte) : Prop :=
  if sap = kIPXSAP.setWidth 8 then testGroupSAP s.groupSap sap = true
  else testGroupSAP s.groupSap sap = false ∧ s.flags.snapStream = false

theorem odd_theSap {sap : SubsSap} (h : sap.IsGroup) : (sap.theSap.setWidth 8 : Byte) &&& 1 ≠ 0 := by
  have hodd : ∀ v : Sap, v &&& 1 ≠ 0 → (v.setWidth 8 : Byte) &&& 1 ≠ 0 := by
    intro v hv hlow
    apply hv
    apply BitVec.eq_of_toNat_eq
    have hlow := congrArg BitVec.toNat hlow
    simp only [BitVec.toNat_and, BitVec.toNat_setWidth] at hlow ⊢
    change v.toNat % 2 ^ 8 &&& 1 = 0 at hlow
    change v.toNat &&& 1 = 0
    rw [Nat.and_one_is_mod] at hlow ⊢
    omega
  exact hodd _ h.1

theorem group_restored_byte {s s' : DLPIStream} {sap name : SubsSap} (hidle : s.dlpiState = .idle)
    (hgroup : sap.IsGroup) (h : subsBind s .peer sap = .ok s') (hname : name.length = 1)
    (hbyte : name.bytes 0 = sap.theSap.setWidth 8) (a : Alloc) :
    Restored s (dlpiSubsUnbind s' name a).2 ↔ CanUnbindByte s (sap.theSap.setWidth 8) := by
  simp only [subsBind, hgroup, if_true] at h
  split_ifs at h with hdlsap
  cases h
  have hodd := odd_theSap hgroup
  unfold CanUnbindByte
  by_cases hglobal : (sap.theSap.setWidth 8 : Byte) = kIPXSAP.setWidth 8
  · have hunbind : (dlpiSubsUnbind
        { s with groupSap := setGroupSAP s.groupSap (sap.theSap.setWidth 8) } name a).2 =
        { s with groupSap := setGroupSAP s.groupSap (sap.theSap.setWidth 8) } := by
      simp only [dlpiSubsUnbind, subsUnbind, hidle, hname, hbyte, hglobal, ne_eq,
        not_true_eq_false, if_true, if_false, and_false]
    rw [hunbind, if_pos hglobal]
    refine (restored_iff (by rfl) (by rfl)).trans ?_
    simp only [DLPIStream.bindings, Bindings.mk.injEq, setGroupSAP_eq_self, true_and, and_true]
  · have hunbind : (dlpiSubsUnbind
        { s with groupSap := setGroupSAP s.groupSap (sap.theSap.setWidth 8) } name a).2 =
        { s with
          groupSap := clearGroupSAP (setGroupSAP s.groupSap (sap.theSap.setWidth 8))
            (sap.theSap.setWidth 8)
          flags := { s.flags with snapStream := false } } := by
      simp only [dlpiSubsUnbind, subsUnbind, hidle, hname, hbyte, hodd, hglobal, hdlsap, ne_eq,
        not_true_eq_false, not_false_eq_true, if_true, if_false, and_self]
    rw [hunbind, if_neg hglobal]
    refine (restored_iff (by rfl) (by rfl)).trans ?_
    simp only [DLPIStream.bindings, Bindings.mk.injEq, clear_setGroupSAP_eq_self, true_and,
      Bool.false_eq_true, if_false]
    cases s.flags.snapStream <;> simp

-- ---------------------------------------------------------------------------
-- A new bind
-- ---------------------------------------------------------------------------

/-- A stream with the multicast addresses of `s` that was never bound. -/
def neverBound (s : DLPIStream) : DLPIStream :=
  { etherOpen (fun _ => 0) (fun _ => 0) with
    multicastList := s.multicastList
    flags := ⟨false, s.flags.acceptMulticasts, false, s.flags.fastPathMode⟩ }

theorem dlpiBind_ack {s : DLPIStream} {sap : Word} {connectionless : Bool} {a : Alloc}
    (h : (dlpiBind s sap connectionless a).1 = .bindAck sap) :
    (dlpiBind s sap connectionless a).2 = bound s sap := by
  unfold dlpiBind at h ⊢
  split_ifs at h ⊢
  all_goals first
    | rfl
    | (simp only [dlpiErrorAck] at h; split at h <;> cases h)

/-- A packet for an individual 802.2 SAP, sent to one station. -/
def sapPacket (dsap : Byte) : Header := ⟨fun _ => 0, fun _ => 0, 0, dsap, 0, fun _ => 0⟩

theorem bound_filter_iff (s : DLPIStream) (sap : Word) :
    (∀ h, wantsPacket (bound s sap) h = wantsPacket (bound (neverBound s) sap) h) ↔
      s.flags.acceptAll8022Packets = false := by
  constructor
  · intro hfilter
    cases hall : s.flags.acceptAll8022Packets with
    | false => rfl
    | true =>
      -- some even SAP is not the one that is bound, and its packets still come
      obtain ⟨dsap, heven, hdest, hne⟩ : ∃ dsap : Byte, dsap &&& 1 = 0 ∧
          (sapPacket dsap).destSAP = dsap.setWidth 16 ∧ dsap.setWidth 16 ≠ sap.setWidth 16 := by
        by_cases h2 : (2 : Sap) = sap.setWidth 16
        · exact ⟨4, by decide, by decide, by rw [← h2]; decide⟩
        · exact ⟨2, by decide, by decide, h2⟩
      have hodd : ¬ ((sapPacket dsap).destSAP &&& 1 ≠ 0) := by
        rw [hdest, odd_setWidth, not_not]
        exact heven
      have hle : (sapPacket dsap).destSAP ≤ 0xff := (Header.destSAP_le _).mpr rfl
      have hto : (sapPacket dsap).destAddressType = .standard := by
        simp [sapPacket, Header.destAddressType, getAddressType]
      have hafter : wantsPacket (bound s sap) (sapPacket dsap) = true := by
        have hfound : typeFound (bound s sap) (sapPacket dsap) = true := by
          rw [typeFound, if_pos ⟨hall, hle⟩]
        rw [wantsPacket, hfound, hto]
        rfl
      have hfresh : wantsPacket (bound (neverBound s) sap) (sapPacket dsap) = false := by
        have hfound : typeFound (bound (neverBound s) sap) (sapPacket dsap) = false := by
          rw [typeFound, if_neg (fun hflag => Bool.false_ne_true hflag.1), if_neg (hdest ▸ hne)]
          exact decide_eq_false fun hgroup => hodd hgroup.2.1
        rw [wantsPacket, hfound, Bool.and_false, Bool.false_and]
      rw [hfilter, hfresh] at hafter
      cases hafter
  · intro hall h
    have hb : (bound s sap).bindings = (bound (neverBound s) sap).bindings := by
      simp [DLPIStream.bindings, bound, neverBound, hall]
    exact ((restored_iff (by rfl) (by rfl)).mpr hb).2 h

theorem dlpiBind_reply {s s' : DLPIStream} (hstate : s.dlpiState = s'.dlpiState) (sap : Word)
    (connectionless : Bool) (a : Alloc) :
    (dlpiBind s sap connectionless a).1 = (dlpiBind s' sap connectionless a).1 := by
  unfold dlpiBind
  rw [hstate]
  split_ifs <;> rfl

theorem rebind_filter_iff {s : DLPIStream} {sap : Word} {connectionless : Bool} {a a' : Alloc}
    (hidle : s.dlpiState = .idle)
    (h : (dlpiBind (dlpiUnbind s a).2 sap connectionless a').1 = .bindAck sap) :
    (∀ h, wantsPacket (dlpiBind (dlpiUnbind s a).2 sap connectionless a').2 h =
      wantsPacket (dlpiBind (neverBound s) sap connectionless a').2 h) ↔
      s.flags.acceptAll8022Packets = false := by
  have hunbind : (dlpiUnbind s a).2 = { s with dlpiState := .unbound, dlsap := 0 } := by
    simp [dlpiUnbind, hidle]
  have hfresh : (dlpiBind (neverBound s) sap connectionless a').1 = .bindAck sap := by
    rw [← h]
    exact dlpiBind_reply (by rw [hunbind]; rfl) sap connectionless a'
  rw [dlpiBind_ack h, dlpiBind_ack hfresh, ← bound_filter_iff s sap, hunbind]
  rfl

-- ---------------------------------------------------------------------------
-- Every sequence of requests
-- ---------------------------------------------------------------------------

/-- The stream after these requests. -/
def afterRequests (s : DLPIStream) (rs : List (Alloc × Request)) : DLPIStream :=
  rs.foldl (fun s r => (request s r.1 r.2).2) s

/-- When the three laws hold, after any sequence of requests: a refused request changes nothing
unless its reply was lost, binding and unbinding restores the stream when `CanUnbind` says so, and
a new bind forgets everything but the wish for all 802.2 packets. -/
theorem bindings_compose_iff (groupSap : GroupMap) (snap : Snap) (rs : List (Alloc × Request)) :
    let s := afterRequests (etherOpen groupSap snap) rs
    (∀ a r, (request s a r).1.isErrorAck = true →
      ((request s a r).2 = s ↔ ¬ ReplyLost s a r)) ∧
    (∀ bindClass sap a a' bytes, (dlpiSubsBind s bindClass sap a).1 = .subsBindAck bytes →
      (bindClass = .peer → sap.IsGroup) →
      (Restored s (dlpiSubsUnbind (dlpiSubsBind s bindClass sap a).2 sap a').2 ↔
        CanUnbind s bindClass sap) ∧
      (∀ name, bindClass = .peer → name.length = 1 → name.bytes 0 = sap.theSap.setWidth 8 →
        (Restored s (dlpiSubsUnbind (dlpiSubsBind s bindClass sap a).2 name a').2 ↔
          CanUnbindByte s (sap.theSap.setWidth 8)))) ∧
    (∀ sap connectionless a a', s.dlpiState = .idle →
      (dlpiBind (dlpiUnbind s a).2 sap connectionless a').1 = .bindAck sap →
      ((∀ h, wantsPacket (dlpiBind (dlpiUnbind s a).2 sap connectionless a').2 h =
        wantsPacket (dlpiBind (neverBound s) sap connectionless a').2 h) ↔
        s.flags.acceptAll8022Packets = false)) := by
  intro s
  refine ⟨fun a r h => request_refused h, ?_, fun sap connectionless a a' hidle h =>
    rebind_filter_iff hidle h⟩
  intro bindClass sap a a' bytes hack hgroup
  obtain ⟨hidle, hbind⟩ := dlpiSubsBind_ack hack
  cases bindClass with
  | peer =>
    refine ⟨group_restored hidle (hgroup rfl) hbind a', ?_⟩
    intro name _ hname hbyte
    exact group_restored_byte hidle (hgroup rfl) hbind hname hbyte a'
  | hierarchical => exact ⟨snap_restored hidle hbind a', fun _ h => nomatch h⟩
  | other => cases hbind

/-- A stream bound to an individual 802.2 SAP. -/
def sapStream : DLPIStream := bound (etherOpen (fun _ => 0) (fun _ => 0)) 0x42

/-- The address of the group SAP 3 in a request. -/
def groupSap3 : SubsSap := ⟨fun i => if i = 1 then 3 else 0, 2⟩

/-- The address for all 802.2 packets. -/
def sapZero : SubsSap := ⟨fun _ => 0, 2⟩

def granted : Alloc := ⟨true, true, false⟩

/-- A group SAP that was refused for want of memory is bound; one that was bound and unbound again
still receives; and a new bind still receives all 802.2 packets. -/
theorem bindings_remain :
    (afterRequests (etherOpen (fun _ => 0) (fun _ => 0)) [(granted, .bind 0x42 true)] = sapStream) ∧
    ((dlpiSubsBind sapStream .peer groupSap3 ⟨false, true, false⟩).1 =
        .errorAck .subsBindReq .syserr ∧
      (dlpiSubsBind sapStream .peer groupSap3 ⟨false, true, false⟩).2 ≠ sapStream) ∧
    ((dlpiSubsBind sapStream .peer groupSap3 granted).1 = .subsBindAck [0, 3] ∧
      (dlpiSubsUnbind (dlpiSubsBind sapStream .peer groupSap3 granted).2 groupSap3 granted).1 =
        .okAck .subsUnbindReq ∧
      wantsPacket sapStream (sapPacket 3) = false ∧
      wantsPacket (dlpiSubsUnbind (dlpiSubsBind sapStream .peer groupSap3 granted).2 groupSap3
        granted).2 (sapPacket 3) = true) ∧
    ((dlpiSubsBind sapStream .peer sapZero granted).1 = .subsBindAck [0, 0] ∧
      wantsPacket (dlpiBind (dlpiUnbind (dlpiSubsBind sapStream .peer sapZero granted).2 granted).2
        0x42 true granted).2 (sapPacket 2) = true ∧
      wantsPacket (dlpiBind (dlpiUnbind sapStream granted).2 0x42 true granted).2 (sapPacket 2) =
        false) := by
  decide +kernel

end SheepShear.Ether
