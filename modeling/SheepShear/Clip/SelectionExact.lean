import SheepShear.Clip.Selection

/-!
# Which selection requests are answered

A request is a list of conversions, in which a conversion to several targets
stands for those that its property lists at that time. It is answered once if
this list comes to an end and all of its conversions can be made; otherwise it
is not answered at all.
-/

namespace SheepShear.Clip

variable {c : Client}

-- ---------------------------------------------------------------------------
-- Conversions
-- ---------------------------------------------------------------------------

/-- The pairs in the items of a property, of which a last odd one is none. -/
def pairsOf : List Word → List AtomPair
  | target :: property :: items => { target := target, property := property } :: pairsOf items
  | _ => []

/-- The pairs that ask for something. -/
def requested (pairs : List AtomPair) : List AtomPair := pairs.filter fun p => p.property ≠ None

/-- `n` conversions, one after the other, on the properties of a window. -/
inductive Converts (c : Client) : (n : Nat) → Window → List AtomPair → Window → Prop
  | done {w : Window} : Converts c 0 w [] w
  | timestamp {n : Nat} {w w' : Window} {property : Atom} {rest : List AtomPair} :
    Converts c n (xChangeProperty w property (timestampProperty c)) rest w' →
    Converts c (n + 1) w (⟨c.xaTimestamp, property⟩ :: rest) w'
  | targets {n : Nat} {w w' : Window} {property : Atom} {rest : List AtomPair} :
    Converts c n (xChangeProperty w property (targetsProperty c)) rest w' →
    Converts c (n + 1) w (⟨c.xaTargets, property⟩ :: rest) w'
  | string {n : Nat} {w w' : Window} {property : Atom} {rest : List AtomPair} :
    c.clipData.type = XA_STRING →
    Converts c n (xChangeProperty w property (stringProperty c)) rest w' →
    Converts c (n + 1) w (⟨XA_STRING, property⟩ :: rest) w'
  | multiple {n : Nat} {w w' : Window} {property : Atom} {rest : List AtomPair} {prop : Property} :
    w.error = false → w.interned property = true → w.property property = some prop →
    prop.format = .bits32 → prop.items.length < 2 ^ 28 →
    Converts c n w (requested (pairsOf prop.items) ++ rest) w' →
    Converts c (n + 1) w (⟨c.xaMultiple, property⟩ :: rest) w'

theorem requested_cons (pair : AtomPair) (pairs : List AtomPair) :
    requested (pair :: pairs) =
      if pair.property = None then requested pairs else pair :: requested pairs := by
  by_cases hnone : pair.property = None <;> simp [requested, hnone]

-- ---------------------------------------------------------------------------
-- The pairs of a property
-- ---------------------------------------------------------------------------

/-- A `long` in front of others, as an atom. -/
theorem atomAt_bytes (item : Word) (data : List Byte) :
    atomAt (Format.bits32.bytes item ++ data) 0 = item := by
  show Word.ofBytes ((item.signExtend 64).extractLsb' 24 8) ((item.signExtend 64).extractLsb' 16 8)
    ((item.signExtend 64).extractLsb' 8 8) ((item.signExtend 64).extractLsb' 0 8) = item
  ext i hi
  simp only [Word.ofBytes]
  grind

theorem atomAt_append {xs ys : List Byte} (i : Nat) : atomAt (xs ++ ys) (xs.length + i) = atomAt ys i := by
  simp only [atomAt, Nat.add_assoc, List.getD_eq_getElem?_getD, List.getElem?_append_right
    (Nat.le_add_right _ _), Nat.add_sub_cancel_left]

theorem atomPairs_bytes (items : List Word) :
    atomPairs (items.flatMap Format.bits32.bytes) = pairsOf items := by
  fun_induction pairsOf items with
  | case1 target property items ih =>
    have hlength : (Format.bits32.bytes target ++ (Format.bits32.bytes property ++
        items.flatMap Format.bits32.bytes)).length / 16 =
        (items.flatMap Format.bits32.bytes).length / 16 + 1 := by
      rw [List.length_append, List.length_append, Format.length_bytes, Format.length_bytes]
      show (8 + (8 + _)) / 16 = _
      omega
    have hproperty : atomAt (Format.bits32.bytes target ++ (Format.bits32.bytes property ++
        items.flatMap Format.bits32.bytes)) 8 = property :=
      (atomAt_append 0).trans (atomAt_bytes property _)
    have hrest (i : Nat) : atomAt (Format.bits32.bytes target ++ (Format.bits32.bytes property ++
        items.flatMap Format.bits32.bytes)) (16 + i) = atomAt (items.flatMap Format.bits32.bytes) i := by
      rw [show 16 + i = (Format.bits32.bytes target).length + (8 + i) by
        rw [Format.length_bytes]; show _ = 8 + _; omega]
      exact (atomAt_append (8 + i)).trans (atomAt_append i)
    rw [← ih, List.flatMap_cons, List.flatMap_cons, atomPairs, hlength, List.range_succ_eq_map,
      List.map_cons, atomAt_bytes, hproperty, List.map_map, atomPairs]
    refine congrArg _ (List.map_congr_left fun i _ => ?_)
    rw [Function.comp_apply, Nat.mul_succ, Nat.add_comm (16 * i), hrest, Nat.add_assoc, hrest]
  | case2 items h =>
    match items with
    | [] => rfl
    | [item] =>
      have hnone : [item].length * Format.bits32.size / 16 = 0 := by
        simp [Format.size, Format.inc, Format.bits]
      rw [atomPairs, Format.length_flatMap_bytes, hnone]
      rfl
    | target :: property :: items => exact absurd rfl (h target property items)

-- ---------------------------------------------------------------------------
-- From conversions to calls
-- ---------------------------------------------------------------------------

/-- A property of atoms that fits a buffer is read as its pairs. -/
theorem handleSelectionMULTIPLE_of_atoms {handle : Handler} {s : World}
    {req : XSelectionRequestEvent} {prop : Property} (herror : s.window.error = false)
    (hknown : s.window.interned req.property = true)
    (hprop : s.window.property req.property = some prop) (hformat : prop.format = .bits32)
    (hsize : prop.items.length < 2 ^ 28) :
    handleSelectionMULTIPLE c handle s req = servicePairs handle req (pairsOf prop.items) true s := by
  have hbytes : prop.bytes.length + (false : Bool).toNat < 2 ^ 31 := by
    rw [prop.length_bytes, hformat]
    show prop.items.length * 8 + 0 < 2 ^ 31
    omega
  rw [handleSelectionMULTIPLE, readProperty_eq c.display herror hknown hprop false false hbytes,
    Except.ok_bind]
  simp only [hformat, ne_eq, not_true_eq_false, if_false, Bool.toNat_false, List.replicate_zero,
    List.append_nil, Property.bytes, atomPairs_bytes, Bool.false_eq_true]

/-- And no other property is. -/
theorem handleSelectionMULTIPLE_eq_true {handle : Handler} {s s' : World}
    {req : XSelectionRequestEvent} (h : handleSelectionMULTIPLE c handle s req = .ok (true, s')) :
    ∃ prop, s.window.error = false ∧ s.window.interned req.property = true ∧
      s.window.property req.property = some prop ∧ prop.format = .bits32 ∧
      prop.items.length < 2 ^ 28 := by
  obtain ⟨read, hread, h⟩ := Except.bind_eq_ok.mp h
  cases read with
  | none => cases h
  | some read =>
    simp only at h
    split_ifs at h with hformat
    · cases h
    · obtain ⟨herror, hknown, hread, hsize⟩ := readProperty_eq_some hread
      obtain ⟨prop, hprop, hbits⟩ := Option.map_eq_some_iff.mp (hread ▸ not_not.mp hformat)
      refine ⟨prop, herror, hknown, hprop, hbits, ?_⟩
      have hfits := hsize prop hprop
      rw [prop.length_bytes, hbits] at hfits
      have hlong : prop.items.length * 8 + 0 < 2 ^ 31 := hfits
      omega

-- What `dispatch` does for each target.

theorem dispatch_timestamp {handle : Handler} {s : World} {req : XSelectionRequestEvent}
    (h : req.target = c.xaTimestamp) :
    dispatch c handle s req = .ok (true, s.change req.property (timestampProperty c)) := if_pos h

theorem dispatch_targets {handle : Handler} {s : World} {req : XSelectionRequestEvent}
    (h : req.target = c.xaTargets) :
    dispatch c handle s req = .ok (true, s.change req.property (targetsProperty c)) := by
  have hne : c.xaTargets ≠ c.xaTimestamp := by
    have hdistinct := c.distinct
    simp only [List.nodup_cons, List.mem_cons] at hdistinct
    tauto
  rw [dispatch, h, if_neg hne, if_pos rfl]
  rfl

theorem dispatch_string {handle : Handler} {s : World} {req : XSelectionRequestEvent}
    (h : req.target = XA_STRING) :
    dispatch c handle s req = .ok (handleSelectionSTRING c s req) := by
  have hdistinct := c.distinct
  simp only [List.nodup_cons, List.mem_cons] at hdistinct
  rw [dispatch, h, if_neg (by tauto), if_neg (by tauto), if_pos rfl]

theorem dispatch_multiple {handle : Handler} {s : World} {req : XSelectionRequestEvent}
    (h : req.target = c.xaMultiple) :
    dispatch c handle s req = handleSelectionMULTIPLE c handle s req := by
  have hdistinct := c.distinct
  simp only [List.nodup_cons, List.mem_cons] at hdistinct
  rw [dispatch, h, if_neg (by tauto), if_neg (by tauto), if_neg (by tauto), if_pos rfl]

/-- A list of pairs that is converted at the front of others is serviced. -/
def Serviced (c : Client) (n : Nat) : Prop :=
  ∀ (pairs rest : List AtomPair) (s : World) (req : XSelectionRequestEvent) (w : Window),
    Converts c n s.window (requested pairs ++ rest) w →
    ∃ fuel s' m, m ≤ n ∧
      servicePairs (fun s req => handleSelection c fuel s req true) req pairs true s = .ok (true, s') ∧
      Converts c m s'.window rest w

/-- A request that is converted at the front of others is handled. -/
theorem handled_of_converts {n : Nat} (hserviced : ∀ m < n, Serviced c m) {s : World}
    {req : XSelectionRequestEvent} {rest : List AtomPair} {w : Window}
    (h : Converts c n s.window (⟨req.target, req.property⟩ :: rest) w) :
    ∃ fuel s' m, m < n ∧ handleSelection c fuel s req true = .ok (true, s') ∧
      Converts c m s'.window rest w := by
  have hone {s' : World} {m : Nat} (hm : m < n)
      (hdispatch : dispatch c (fun s req => handleSelection c 0 s req true) s req = .ok (true, s'))
      (hrest : Converts c m s'.window rest w) :
      ∃ fuel s' m, m < n ∧ handleSelection c fuel s req true = .ok (true, s') ∧
        Converts c m s'.window rest w :=
    ⟨1, s', m, hm, by rw [handleSelection, hdispatch]; rfl, hrest⟩
  generalize hpair : (⟨req.target, req.property⟩ : AtomPair) = pair at h
  cases h with
  | timestamp hrest =>
    obtain ⟨htarget, rfl⟩ := AtomPair.mk.inj hpair
    exact hone (Nat.lt_succ_self _) (dispatch_timestamp htarget) hrest
  | targets hrest =>
    obtain ⟨htarget, rfl⟩ := AtomPair.mk.inj hpair
    exact hone (Nat.lt_succ_self _) (dispatch_targets htarget) hrest
  | string htype hrest =>
    obtain ⟨htarget, rfl⟩ := AtomPair.mk.inj hpair
    have hdispatch : dispatch c (fun s req => handleSelection c 0 s req true) s req =
        .ok (true, s.change req.property (stringProperty c)) := by
      rw [dispatch_string htarget, handleSelectionSTRING, if_neg (not_not.mpr htype)]
    exact hone (Nat.lt_succ_self _) hdispatch hrest
  | @multiple n _ _ property _ prop herror hknown hprop hformat hsize hrest =>
    obtain ⟨htarget, rfl⟩ := AtomPair.mk.inj hpair
    obtain ⟨fuel, s', m, hm, hpairs, hleft⟩ :=
      hserviced n (Nat.lt_succ_self n) (pairsOf prop.items) rest s req w hrest
    refine ⟨fuel + 1, s', m, by omega, ?_, hleft⟩
    rw [handleSelection, dispatch_multiple htarget,
      handleSelectionMULTIPLE_of_atoms herror hknown hprop hformat hsize, hpairs]
    rfl

theorem serviced (n : Nat) : Serviced c n := by
  induction n using Nat.strongRecOn with
  | ind n ihn =>
    intro pairs rest s req w h
    induction pairs with
    | nil => exact ⟨0, s, n, le_refl n, rfl, h⟩
    | cons pair pairs ih =>
      rw [requested_cons] at h
      split_ifs at h with hnone
      · obtain ⟨fuel, s', m, hm, hpairs, hleft⟩ := ih h
        exact ⟨fuel, s', m, hm, by rw [servicePairs, if_pos hnone, hpairs], hleft⟩
      · obtain ⟨fuel₁, s₁, m₁, hm₁, hhandled, hrest⟩ := @handled_of_converts c n ihn s
          { req with target := pair.target, property := pair.property } _ _ h
        obtain ⟨fuel₂, s₂, m₂, hm₂, hpairs, hleft⟩ := ihn m₁ hm₁ pairs rest s₁ req w hrest
        refine ⟨max fuel₁ fuel₂, s₂, m₂, by omega, ?_, hleft⟩
        rw [servicePairs, if_neg hnone, handleSelection_mono (Nat.le_max_left _ _) hhandled]
        exact servicePairs_mono (fun s req r => handleSelection_mono (Nat.le_max_right _ _)) hpairs

-- ---------------------------------------------------------------------------
-- From calls to conversions
-- ---------------------------------------------------------------------------

/-- What a handler of one request does has to be a conversion. -/
def Converting (c : Client) (handle : Handler) : Prop :=
  ∀ s req s', handle s req = .ok (true, s') →
    ∀ n rest w, Converts c n s'.window rest w →
      ∃ n, Converts c n s.window (⟨req.target, req.property⟩ :: rest) w

theorem converts_of_serviced {handle : Handler} (hhandle : Converting c handle)
    {req : XSelectionRequestEvent} {pairs : List AtomPair} {handled : Bool} {s s' : World}
    (h : servicePairs handle req pairs handled s = .ok (true, s')) :
    handled = true ∧ ∀ n rest w, Converts c n s'.window rest w →
      ∃ n, Converts c n s.window (requested pairs ++ rest) w := by
  induction pairs generalizing handled s with
  | nil =>
    obtain ⟨rfl, rfl⟩ := Prod.mk.inj (Except.ok.inj h)
    exact ⟨rfl, fun n rest w hrest => ⟨n, hrest⟩⟩
  | cons pair pairs ih =>
    rw [servicePairs] at h
    rw [requested_cons]
    split_ifs at h ⊢ with hnone
    · exact ih h
    · obtain ⟨⟨ok, s₁⟩, hpair, h⟩ := Except.bind_eq_ok.mp h
      obtain ⟨hboth, hconverts⟩ := ih h
      obtain ⟨rfl, rfl⟩ := Bool.and_eq_true_iff.mp hboth
      refine ⟨rfl, fun n rest w hrest => ?_⟩
      obtain ⟨m, hpairs⟩ := hconverts n rest w hrest
      exact hhandle _ _ _ hpair m _ w hpairs

theorem converting_dispatch {handle : Handler} (hhandle : Converting c handle) :
    Converting c (dispatch c handle) := by
  rintro s ⟨requestor, selection, target, property, time⟩ s' h n rest w hrest
  rw [dispatch] at h
  split_ifs at h with htimestamp htargets hstring hmultiple
  · obtain ⟨-, rfl⟩ := Prod.mk.inj (Except.ok.inj h)
    exact ⟨n + 1, htimestamp ▸ .timestamp hrest⟩
  · obtain ⟨-, rfl⟩ := Prod.mk.inj (Except.ok.inj h)
    exact ⟨n + 1, htargets ▸ .targets hrest⟩
  · rw [handleSelectionSTRING] at h
    split_ifs at h with htype
    · cases h
    · obtain ⟨-, rfl⟩ := Prod.mk.inj (Except.ok.inj h)
      exact ⟨n + 1, hstring ▸ .string (not_not.mp htype) hrest⟩
  · obtain ⟨prop, herror, hknown, hprop, hformat, hsize⟩ := handleSelectionMULTIPLE_eq_true h
    rw [handleSelectionMULTIPLE_of_atoms herror hknown hprop hformat hsize] at h
    obtain ⟨m, hpairs⟩ := (converts_of_serviced hhandle h).2 n rest w hrest
    exact ⟨m + 1, hmultiple ▸ .multiple herror hknown hprop hformat hsize hpairs⟩
  · cases h

theorem handleSelection_true (n : Nat) (s : World) (req : XSelectionRequestEvent) :
    handleSelection c (n + 1) s req true =
      dispatch c (fun s req => handleSelection c n s req true) s req := by
  rw [handleSelection]
  cases dispatch c (fun s req => handleSelection c n s req true) s req with
  | error e => rfl
  | ok r => simp

theorem converting_handleSelection (n : Nat) :
    Converting c fun s req => handleSelection c n s req true := by
  induction n with
  | zero => rintro _ _ _ ⟨⟩
  | succ n ih =>
    intro s req s' h
    exact converting_dispatch ih s req s' (handleSelection_true n s req ▸ h)

-- ---------------------------------------------------------------------------
-- Answers
-- ---------------------------------------------------------------------------

theorem servicePairs_sent {handle : Handler}
    (hhandle : ∀ s req r, handle s req = .ok r → r.2.sent = s.sent) {req : XSelectionRequestEvent}
    {pairs : List AtomPair} {handled : Bool} {s : World} {r : Bool × World}
    (h : servicePairs handle req pairs handled s = .ok r) : r.2.sent = s.sent := by
  induction pairs generalizing handled s with
  | nil => exact (Except.ok.inj h) ▸ rfl
  | cons pair pairs ih =>
    rw [servicePairs] at h
    split_ifs at h with hnone
    · exact ih h
    · obtain ⟨r₁, hpair, h⟩ := Except.bind_eq_ok.mp h
      exact (ih h).trans (hhandle _ _ _ hpair)

theorem dispatch_sent {handle : Handler}
    (hhandle : ∀ s req r, handle s req = .ok r → r.2.sent = s.sent) {s : World}
    {req : XSelectionRequestEvent} {r : Bool × World} (h : dispatch c handle s req = .ok r) :
    r.2.sent = s.sent := by
  rw [dispatch] at h
  split_ifs at h with htimestamp htargets hstring hmultiple
  · exact (Except.ok.inj h) ▸ rfl
  · exact (Except.ok.inj h) ▸ rfl
  · rw [handleSelectionSTRING] at h
    split_ifs at h <;> exact (Except.ok.inj h) ▸ rfl
  · obtain ⟨read, -, h⟩ := Except.bind_eq_ok.mp h
    cases read with
    | none => exact (Except.ok.inj h) ▸ rfl
    | some read =>
      simp only at h
      split_ifs at h with hformat
      · exact (Except.ok.inj h) ▸ rfl
      · have hsent := servicePairs_sent hhandle h
        exact hsent
  · exact (Except.ok.inj h) ▸ rfl

/-- A request that is part of another one is answered with no event. -/
theorem handleSelection_sent {n : Nat} {s : World} {req : XSelectionRequestEvent} {r : Bool × World}
    (h : handleSelection c n s req true = .ok r) : r.2.sent = s.sent := by
  induction n generalizing s req r with
  | zero => cases h
  | succ n ih => exact dispatch_sent (fun _ _ _ => ih) (handleSelection_true n s req ▸ h)

/-- A request of its own is answered with one event if it is handled. -/
theorem handleSelection_false (n : Nat) (s : World) (req : XSelectionRequestEvent) :
    handleSelection c n s req false = (handleSelection c n s req true).map fun r =>
      if r.1 then (r.1, { r.2 with sent := r.2.sent ++ [answer req r.1] }) else r := by
  cases n with
  | zero => rfl
  | succ n =>
    rw [handleSelection_true, handleSelection]
    cases dispatch c (fun s req => handleSelection c n s req true) s req with
    | error e => rfl
    | ok r => obtain ⟨handled, s'⟩ := r; cases handled <;> rfl

/-- The call returns and has sent one event, which names the property of the
request if it was converted and none otherwise. -/
def AnsweredOnce (c : Client) (s : World) (req : XSelectionRequestEvent) : Prop :=
  ∃ fuel handled s', handleSelection c fuel s req false = .ok (handled, s') ∧
    clipboardSelectionRequest c fuel s req = .ok s' ∧ s'.sent = s.sent ++ [answer req handled]

/-- A request for the clipboard by another client is answered once if and only
if it comes down to finitely many conversions, all of which can be made. -/
theorem answeredOnce_iff (c : Client) (s : World) (req : XSelectionRequestEvent)
    (hother : req.requestor ≠ c.clipWin) (hselection : req.selection = c.xaClipboard) :
    AnsweredOnce c s req ↔ ∃ n w, Converts c n s.window [⟨req.target, req.property⟩] w := by
  have htop (fuel : Nat) : clipboardSelectionRequest c fuel s req =
      (handleSelection c fuel s req false).map Prod.snd :=
    if_neg (by rintro (h | h); exacts [hother h, h hselection])
  constructor
  · rintro ⟨fuel, handled, s', hrun, -, hsent⟩
    rw [handleSelection_false] at hrun
    cases hnested : handleSelection c fuel s req true with
    | error e => rw [hnested] at hrun; cases hrun
    | ok r =>
      obtain ⟨converted, s₁⟩ := r
      rw [hnested] at hrun
      cases converted with
      | false =>
        obtain ⟨-, rfl⟩ := Prod.mk.inj (Except.ok.inj hrun)
        rw [handleSelection_sent hnested] at hsent
        exact absurd hsent (by simp)
      | true =>
        obtain ⟨n, hconverts⟩ :=
          converting_handleSelection fuel s req s₁ hnested 0 [] s₁.window .done
        exact ⟨n, s₁.window, hconverts⟩
  · rintro ⟨n, w, hconverts⟩
    obtain ⟨fuel, s', m, -, hnested, -⟩ := handled_of_converts (fun m _ => serviced m) hconverts
    have hrun : handleSelection c fuel s req false =
        .ok (true, { s' with sent := s'.sent ++ [answer req true] }) := by
      rw [handleSelection_false, hnested]
      rfl
    refine ⟨fuel, true, _, hrun, ?_, ?_⟩
    · rw [htop, hrun]
      rfl
    · rw [← handleSelection_sent hnested]

/-- A property that asks first for a conversion of itself is converted for ever. -/
theorem handleSelection_endless {s : World} {property : Atom} {prop : Property} {items : List Word}
    (herror : s.window.error = false) (hknown : s.window.interned property = true)
    (hprop : s.window.property property = some prop) (hformat : prop.format = .bits32)
    (hitems : prop.items = c.xaMultiple :: property :: items) (hsize : prop.items.length < 2 ^ 28)
    (hnone : property ≠ None) (fuel : Nat) {req : XSelectionRequestEvent} {isMultiple : Bool}
    (htarget : req.target = c.xaMultiple) (hsame : req.property = property) :
    handleSelection c fuel s req isMultiple = .error .fuel := by
  induction fuel generalizing req isMultiple with
  | zero => rfl
  | succ fuel ih =>
    rw [handleSelection, dispatch_multiple htarget,
      handleSelectionMULTIPLE_of_atoms herror (hsame ▸ hknown) (hsame ▸ hprop) hformat hsize, hitems,
      pairsOf, servicePairs, if_neg hnone, ih rfl rfl]
    rfl

/-- A client that owns no text, and a window with a property that is about itself. -/
def emptyClient : Client where
  display := { maxRequestSize := 4096, enough := by decide, card16 := by decide }
  clipWin := 1
  xaClipboard := 100
  xaTargets := 101
  xaMultiple := 102
  xaTimestamp := 103
  clipData := { time := 0, type := None, data := [] }
  distinct := by decide

def selfWindow : Window where
  interned := fun a => a ≠ None
  property := fun a => if a = 200 then some ⟨104, .bits32, [102, 200]⟩ else none
  error := false

/-- The text of an empty clipboard is asked for, and a conversion without end. -/
theorem not_answered :
    (¬AnsweredOnce emptyClient ⟨selfWindow, []⟩ ⟨2, 100, XA_STRING, 200, 0⟩) ∧
      ¬AnsweredOnce emptyClient ⟨selfWindow, []⟩ ⟨2, 100, 102, 200, 0⟩ := by
  constructor
  · rintro ⟨fuel, handled, s', hrun, -, hsent⟩
    cases fuel with
    | zero => cases hrun
    | succ fuel =>
      obtain ⟨-, rfl⟩ := Prod.mk.inj (Except.ok.inj hrun)
      cases hsent
  · rintro ⟨fuel, handled, s', hrun, -, -⟩
    have hendless := @handleSelection_endless emptyClient ⟨selfWindow, []⟩ 200 ⟨104, .bits32, [102, 200]⟩ []
      rfl rfl rfl rfl rfl (by decide) (by decide) fuel ⟨2, 100, 102, 200, 0⟩ false rfl rfl
    rw [hendless] at hrun
    cases hrun

theorem answered_targets : AnsweredOnce emptyClient ⟨selfWindow, []⟩ ⟨2, 100, 101, 200, 0⟩ :=
  (answeredOnce_iff emptyClient ⟨selfWindow, []⟩ ⟨2, 100, 101, 200, 0⟩ (by decide) rfl).mpr
    ⟨1, _, .targets .done⟩

end SheepShear.Clip
