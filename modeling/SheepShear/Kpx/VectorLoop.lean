import SheepShear.Kpx.VectorOperand

/-!
# Loops over vector elements

A loop of a handler is a list of steps: each computes a value from the sources
as they are then and stores one element of the destination. Where no step reads
a place that an earlier step has stored to, the loop stores what it would have
computed from the old contents.
-/

namespace SheepShear.Kpx

-- ---------------------------------------------------------------------------
-- Places of elements
-- ---------------------------------------------------------------------------

theorem Lane.mixedIndex_lt (l : Lane) (i : Nat) (h : i < 16 / l.bytes) :
    l.mixedIndex i < 16 / l.bytes := by
  cases l with
  | b => exact (byteElement _).isLt
  | h => exact (halfElement _).isLt
  | w => exact h

@[simp] theorem Lane.mixedIndex_mixedIndex (l : Lane) (i : Nat) (h : i < 16 / l.bytes) :
    l.mixedIndex (l.mixedIndex i) = i := by
  cases l with
  | b => simpa [mixedIndex] using show i < 16 from h
  | h => simpa [mixedIndex] using show i < 8 from h
  | w => rfl

theorem VectorOperand.index_lt (o : VectorOperand) (i : Nat) (h : i < o.count) :
    o.index i < o.count := by
  unfold index
  split_ifs
  · exact o.lane.mixedIndex_lt i h
  · exact h

theorem VectorOperand.index_index (o : VectorOperand) (i : Nat) (h : i < o.count) :
    o.index (o.index i) = i := by
  unfold index
  split_ifs
  · exact o.lane.mixedIndex_mixedIndex i h
  · rfl

theorem Lane.bytes_pos (l : Lane) : 0 < l.bytes := by
  cases l <;> decide

/-- The element of a byte. -/
theorem Lane.div_lt (l : Lane) (k : Fin 16) : k.val / l.bytes < 16 / l.bytes := by
  cases l <;> simp only [bytes] <;> omega

theorem Vr.lane_congr {x y : Vr} (l : Lane) (i : Nat) (hi : i < 16 / l.bytes)
    (h : ∀ k : Fin 16, k.val / l.bytes = i → x k = y k) : x.lane l i = y.lane l i := by
  cases l with
  | b =>
    have hi' : i < 16 := hi
    have hk : x (.ofNat 16 i) = y (.ofNat 16 i) := h _ (by simp [Lane.bytes, Nat.mod_eq_of_lt hi'])
    simp only [Vr.lane, Vr.b, hk]
  | h =>
    have hi' : i < 8 := hi
    have hval : (Fin.ofNat 8 i).val = i := Nat.mod_eq_of_lt hi'
    simp only [Vr.lane, Vr.h]
    rw [h _ (by simp only [hval, Lane.bytes]; omega), h _ (by simp only [hval, Lane.bytes]; omega)]
  | w =>
    have hi' : i < 4 := hi
    have hval : (Fin.ofNat 4 i).val = i := Nat.mod_eq_of_lt hi'
    simp only [Vr.lane, Vr.w]
    rw [h _ (by simp only [hval, Lane.bytes]; omega), h _ (by simp only [hval, Lane.bytes]; omega),
      h _ (by simp only [hval, Lane.bytes]; omega), h _ (by simp only [hval, Lane.bytes]; omega)]

/-- Byte `m` of an element of a size. -/
def Lane.byteOf (l : Lane) (x : Int) (m : Nat) : Byte :=
  (BitVec.ofInt (8 * l.bytes) x).extractLsb' (8 * m) 8

theorem Vr.setLane_apply (v : Vr) (l : Lane) (i : Nat) (hi : i < 16 / l.bytes) (x : Int)
    (k : Fin 16) :
    v.setLane l i x k = if k.val / l.bytes = i then l.byteOf x (k % l.bytes) else v k := by
  cases l with
  | b =>
    have hi' : i < 16 := hi
    have hval : (Fin.ofNat 16 i).val = i := Nat.mod_eq_of_lt hi'
    simp only [Vr.setLane, Vr.setB, Lane.bytes, Nat.div_one, Fin.ext_iff, hval]
    split_ifs
    · simp [Lane.byteOf, Lane.bytes, Nat.mod_one]
    · rfl
  | h =>
    have hi' : i < 8 := hi
    have hval : (Fin.ofNat 8 i).val = i := Nat.mod_eq_of_lt hi'
    simp only [Vr.setLane, Vr.setH, Lane.bytes, hval]
    rfl
  | w =>
    have hi' : i < 4 := hi
    have hval : (Fin.ofNat 4 i).val = i := Nat.mod_eq_of_lt hi'
    simp only [Vr.setLane, Vr.setW, Lane.bytes, hval]
    rfl

-- ---------------------------------------------------------------------------
-- Steps
-- ---------------------------------------------------------------------------

structure VectorRegs where
  d : BitVec 5
  a : BitVec 5
  b : BitVec 5
  c : BitVec 5

structure VectorStep where
  pos : Nat
  value : Vr → Vr → Vr → Int

def runSteps (VD : VectorOperand) (r : VectorRegs) (steps : List VectorStep) (s : Cpu) : Cpu :=
  steps.foldl (fun s st =>
    s.storeElement VD r.d st.pos (st.value (s.vr r.a) (s.vr r.b) (s.vr r.c))) s

/-- The values that the steps compute from one state of the sources. -/
def stepValues (r : VectorRegs) (vr : BitVec 5 → Vr) (steps : List VectorStep) : List (Nat × Int) :=
  steps.map fun st => (st.pos, st.value (vr r.a) (vr r.b) (vr r.c))

def fill (VD : VectorOperand) (values : List (Nat × Int)) (x : Vr) : Vr :=
  values.foldl (fun x p => VD.setElement x p.1 (VD.saturate p.2).1) x

def clamped (VD : VectorOperand) (values : List (Nat × Int)) : Bool :=
  values.any fun p => (VD.saturate p.2).2

/-- The state with a result, and SAT set if something was clamped. -/
def Cpu.withResult (s : Cpu) (d : BitVec 5) (v : Vr) (sat : Bool) : Cpu :=
  { s with vr := Function.update s.vr d v, vscr := if sat then s.vscr ||| 1 else s.vscr }

/-- `x` is `y` but for the elements in `written`. -/
def AgreeOff (VD : VectorOperand) (written : List Nat) (x y : Vr) : Prop :=
  ∀ k : Fin 16, (∀ i ∈ written, VD.index i ≠ k.val / VD.size) → x k = y k

/-- No step computes something else because the destination has changed in `written`, or in the
elements of the steps before it. -/
def Undisturbed (VD : VectorOperand) (r : VectorRegs) (vr : BitVec 5 → Vr) :
    List Nat → List VectorStep → Prop
  | _, [] => True
  | written, st :: steps =>
    (∀ x, AgreeOff VD written x (vr r.d) →
      st.value (Function.update vr r.d x r.a) (Function.update vr r.d x r.b)
        (Function.update vr r.d x r.c) = st.value (vr r.a) (vr r.b) (vr r.c)) ∧
    Undisturbed VD r vr (st.pos :: written) steps

theorem withResult_storeElement (s : Cpu) (VD : VectorOperand) (d : BitVec 5) (x : Vr) (sat : Bool)
    (i : Nat) (v : Int) : (s.withResult d x sat).storeElement VD d i v =
      s.withResult d (VD.setElement x i (VD.saturate v).1) (sat || (VD.saturate v).2) := by
  have hor (w : Word) : w ||| 1#32 ||| 1#32 = w ||| 1#32 := by rw [BitVec.or_assoc, BitVec.or_self]
  unfold Cpu.storeElement
  obtain ⟨y, clamped⟩ := VD.saturate v
  unfold Cpu.withResult Cpu.setElement Cpu.setVr Cpu.setSat
  cases clamped <;> cases sat <;> simp [hor]

theorem AgreeOff.setElement {VD : VectorOperand} {written : List Nat} {x y : Vr}
    (h : AgreeOff VD written x y) (i : Nat) (hi : i < VD.count) (v : Int) :
    AgreeOff VD (i :: written) (VD.setElement x i v) y := by
  intro k hk
  have hne : k.val / VD.size ≠ VD.index i := (hk i List.mem_cons_self).symm
  refine (Vr.setLane_apply x VD.lane _ (VD.index_lt i hi) v k).trans ((if_neg hne).trans ?_)
  exact h k fun j hj => hk j (List.mem_cons_of_mem i hj)

/-- Induction on the steps: the state is the old one with what has been stored so far. -/
theorem runSteps_withResult (VD : VectorOperand) (r : VectorRegs) (s : Cpu) (steps : List VectorStep)
    (hpos : ∀ st ∈ steps, st.pos < VD.count) (written : List Nat)
    (h : Undisturbed VD r s.vr written steps) (x : Vr) (sat : Bool)
    (hx : AgreeOff VD written x (s.vr r.d)) :
    runSteps VD r steps (s.withResult r.d x sat) =
      s.withResult r.d (fill VD (stepValues r s.vr steps) x)
        (sat || clamped VD (stepValues r s.vr steps)) := by
  induction steps generalizing written x sat with
  | nil => simp [runSteps, fill, stepValues, clamped]
  | cons st steps ih =>
    obtain ⟨hst, hrest⟩ := h
    have hvalue := hst x hx
    have hvr : (s.withResult r.d x sat).vr = Function.update s.vr r.d x := rfl
    rw [runSteps, List.foldl_cons, hvr, hvalue, withResult_storeElement]
    have htail := ih (fun st' hst' => hpos st' (List.mem_cons_of_mem st hst')) (st.pos :: written)
      hrest _ (sat || (VD.saturate (st.value (s.vr r.a) (s.vr r.b) (s.vr r.c))).2)
      (hx.setElement st.pos (hpos st List.mem_cons_self)
        (VD.saturate (st.value (s.vr r.a) (s.vr r.b) (s.vr r.c))).1)
    refine htail.trans ?_
    simp [fill, stepValues, clamped, Bool.or_assoc]

theorem runSteps_eq (VD : VectorOperand) (r : VectorRegs) (s : Cpu) (steps : List VectorStep)
    (hpos : ∀ st ∈ steps, st.pos < VD.count) (h : Undisturbed VD r s.vr [] steps) :
    runSteps VD r steps s = s.withResult r.d (fill VD (stepValues r s.vr steps) (s.vr r.d))
      (clamped VD (stepValues r s.vr steps)) := by
  have hs : s.withResult r.d (s.vr r.d) false = s := by
    rw [Cpu.withResult, Function.update_eq_self]
    rfl
  have hrun := runSteps_withResult VD r s steps hpos [] h (s.vr r.d) false fun _ _ => rfl
  rwa [hs, Bool.false_or] at hrun

-- ---------------------------------------------------------------------------
-- Loops over all elements
-- ---------------------------------------------------------------------------

/-- The register with these elements in the order of a view. -/
def VectorOperand.ofElements (VD : VectorOperand) (x : Nat → Int) : Vr := fun k =>
  VD.lane.byteOf (x (VD.index (k.val / VD.size))) (k.val % VD.size)

def rangeSteps (n : Nat) (value : Nat → Vr → Vr → Vr → Int) : List VectorStep :=
  (List.range n).map fun i => ⟨i, value i⟩

theorem fill_range_apply (VD : VectorOperand) (x : Nat → Int) (v : Vr) (n : Nat) (hn : n ≤ VD.count)
    (k : Fin 16) : fill VD ((List.range n).map fun i => (i, x i)) v k =
      if VD.index (k.val / VD.size) < n then
        VD.lane.byteOf (VD.saturate (x (VD.index (k.val / VD.size)))).1 (k.val % VD.size)
      else v k := by
  induction n with
  | zero => rfl
  | succ n ih =>
    have hk : k.val / VD.size < VD.count := VD.lane.div_lt k
    have hn' : n < VD.count := by omega
    rw [List.range_succ, List.map_append, fill, List.foldl_append]
    refine (Vr.setLane_apply _ VD.lane _ (VD.index_lt n hn') _ k).trans ?_
    have hiff : k.val / VD.lane.bytes = VD.index n ↔ VD.index (k.val / VD.size) = n := by
      constructor
      · intro h
        rw [VectorOperand.size, h, VD.index_index n hn']
      · rintro rfl
        exact (VD.index_index _ hk).symm
    by_cases hlast : VD.index (k.val / VD.size) = n
    · rw [if_pos (hiff.mpr hlast), if_pos (by omega), hlast]
      rfl
    · rw [if_neg (mt hiff.mp hlast)]
      refine (ih (by omega)).trans ?_
      by_cases hlt : VD.index (k.val / VD.size) < n
      · rw [if_pos hlt, if_pos (by omega)]
      · rw [if_neg hlt, if_neg (by omega)]

/-- A loop over all elements leaves nothing of the old contents. -/
theorem fill_range (VD : VectorOperand) (x : Nat → Int) (v : Vr) :
    fill VD ((List.range VD.count).map fun i => (i, x i)) v =
      VD.ofElements fun i => (VD.saturate (x i)).1 := by
  funext k
  have hk : k.val / VD.size < VD.count := VD.lane.div_lt k
  rw [fill_range_apply VD x v _ le_rfl, if_pos (VD.index_lt _ hk)]
  rfl

/-- An element of a source is not in the elements of the destination that have been stored. -/
def Clear (VD : VectorOperand) (written : List Nat) (VA : VectorOperand) (j : Nat) : Prop :=
  ∀ k : Fin 16, k.val / VA.size = VA.index j → ∀ i ∈ written, VD.index i ≠ k.val / VD.size

instance (VD : VectorOperand) (written : List Nat) (VA : VectorOperand) (j : Nat) :
    Decidable (Clear VD written VA j) := by
  unfold Clear
  infer_instance

/-- Elements are stored in order, so those from the next one on are still there. -/
theorem clear_of_le (V : VectorOperand) (i j : Nat) (hij : i ≤ j) (hj : j < V.count) :
    Clear V (List.range i) V j := by
  intro k hk i' hi' heq
  have hi : i' < i := List.mem_range.mp hi'
  have hsame : i' = j := by
    rw [← V.index_index i' (by omega), heq, hk, V.index_index j hj]
  omega

theorem getElement_update {VD : VectorOperand} {written : List Nat} {vr : BitVec 5 → Vr}
    {d : BitVec 5} {x : Vr} (hx : AgreeOff VD written x (vr d)) (VA : VectorOperand) (a : BitVec 5)
    (j : Nat) (hj : j < VA.count) (h : a ≠ d ∨ Clear VD written VA j) :
    VA.getElement (Function.update vr d x a) j = VA.getElement (vr a) j := by
  by_cases had : a = d
  · subst had
    have hclear := h.resolve_left (not_not.mpr rfl)
    have hlane : x.lane VA.lane (VA.index j) = (vr a).lane VA.lane (VA.index j) :=
      Vr.lane_congr VA.lane _ (VA.index_lt j hj) fun k hk => hx k (hclear k hk)
    rw [Function.update_self, VectorOperand.getElement, VectorOperand.getElement, hlane]
  · rw [Function.update_of_ne had]

theorem undisturbed_range (VD : VectorOperand) (r : VectorRegs) (vr : BitVec 5 → Vr) (n : Nat)
    (value : Nat → Vr → Vr → Vr → Int)
    (h : ∀ i < n, ∀ x, AgreeOff VD (List.range i) x (vr r.d) →
      value i (Function.update vr r.d x r.a) (Function.update vr r.d x r.b)
        (Function.update vr r.d x r.c) = value i (vr r.a) (vr r.b) (vr r.c)) :
    Undisturbed VD r vr [] (rangeSteps n value) := by
  -- from any element on
  have hfrom (left m : Nat) (written : List Nat) (hm : m + left = n)
      (hwritten : ∀ i ∈ written, i < m) :
      Undisturbed VD r vr written ((List.range' m left).map fun i => ⟨i, value i⟩) := by
    induction left generalizing m written with
    | zero => trivial
    | succ left ih =>
      refine ⟨fun x hx => h m (by omega) x fun k hk => hx k fun i hi => ?_, ih (m + 1) _ (by omega) ?_⟩
      · exact hk i (List.mem_range.mpr (hwritten i hi))
      · rintro i (- | ⟨_, hi⟩)
        · exact Nat.lt_succ_self m
        · exact (hwritten i hi).trans (Nat.lt_succ_self m)
  rw [rangeSteps, List.range_eq_range']
  exact hfrom n 0 [] (by omega) nofun

/-- A loop over all elements that reads no place it has stored to. -/
theorem runSteps_range (VD : VectorOperand) (r : VectorRegs) (s : Cpu)
    (value : Nat → Vr → Vr → Vr → Int)
    (h : ∀ i < VD.count, ∀ x, AgreeOff VD (List.range i) x (s.vr r.d) →
      value i (Function.update s.vr r.d x r.a) (Function.update s.vr r.d x r.b)
        (Function.update s.vr r.d x r.c) = value i (s.vr r.a) (s.vr r.b) (s.vr r.c)) :
    runSteps VD r (rangeSteps VD.count value) s =
      s.withResult r.d
        (VD.ofElements fun i => (VD.saturate (value i (s.vr r.a) (s.vr r.b) (s.vr r.c))).1)
        ((List.range VD.count).any fun i =>
          (VD.saturate (value i (s.vr r.a) (s.vr r.b) (s.vr r.c))).2) := by
  have hpos : ∀ st ∈ rangeSteps VD.count value, st.pos < VD.count := by
    intro st hst
    obtain ⟨i, hi, rfl⟩ := List.mem_map.mp hst
    exact List.mem_range.mp hi
  have hvalues : stepValues r s.vr (rangeSteps VD.count value) =
      (List.range VD.count).map fun i => (i, value i (s.vr r.a) (s.vr r.b) (s.vr r.c)) := by
    rw [stepValues, rangeSteps, List.map_map]
    rfl
  rw [runSteps_eq VD r s _ hpos (undisturbed_range VD r s.vr _ value h), hvalues, fill_range, clamped,
    List.any_map]
  rfl

-- ---------------------------------------------------------------------------
-- The guest's elements
-- ---------------------------------------------------------------------------

theorem lane_mixedIndex (l : Lane) (v : Vr) (i : Nat) (hi : i < 16 / l.bytes) :
    v.lane l (l.mixedIndex i) = AltiVec.value l v i := by
  cases l with
  | b => simp [Lane.mixedIndex, Vr.lane, Vr.b, AltiVec.value, Vr.element]
  | h =>
    have hi' : i < 8 := hi
    interval_cases i <;> rfl
  | w =>
    have hi' : i < 4 := hi
    interval_cases i <;> rfl

/-- A view in the guest's order. -/
theorem VectorOperand.index_guest (o : VectorOperand) (h : o.mixed = true ∨ o.lane = .w) (i : Nat) :
    o.index i = o.lane.mixedIndex i := by
  unfold index
  split_ifs with hm
  · rfl
  · rw [h.resolve_left hm]
    rfl

theorem VectorOperand.getElement_guest (o : VectorOperand) (h : o.mixed = true ∨ o.lane = .w)
    (v : Vr) (i : Nat) (hi : i < o.count) :
    o.getElement v i = o.element.conv (o.value.conv (AltiVec.value o.lane v i)) := by
  rw [getElement, o.index_guest h, lane_mixedIndex _ _ _ hi]

/-- Where the guest's bytes of an element are. -/
theorem byteElement_split (l : Lane) (k : Fin 16) :
    (byteElement k).val / l.bytes = l.mixedIndex (k / l.bytes) ∧
      (byteElement k).val % l.bytes = l.bytes - 1 - k % l.bytes := by
  revert k
  cases l <;> decide

theorem VectorOperand.ofElements_guest (VD : VectorOperand) (h : VD.mixed = true ∨ VD.lane = .w)
    (x : Nat → Int) : VD.ofElements x = AltiVec.ofValues VD.lane x := by
  apply Vr.eq_ofElements
  intro k
  obtain ⟨hdiv, hmod⟩ := byteElement_split VD.lane k
  have hk := VD.lane.div_lt k
  unfold Vr.element ofElements size
  rw [hdiv, hmod, VD.index_guest h, VD.lane.mixedIndex_mixedIndex _ hk]
  rfl

/-- A view in the host's order holds the guest's elements permuted. -/
theorem VectorOperand.ofElements_direct (VD : VectorOperand) (h : VD.mixed = false) (x : Nat → Int) :
    VD.ofElements x = AltiVec.ofValues VD.lane fun i => x (VD.lane.mixedIndex i) := by
  apply Vr.eq_ofElements
  intro k
  obtain ⟨hdiv, hmod⟩ := byteElement_split VD.lane k
  have hindex (i : Nat) : VD.index i = i := by
    rw [index, h]
    rfl
  unfold Vr.element ofElements size
  rw [hdiv, hmod, hindex]
  rfl

/-- Only the values modulo the size matter. -/
theorem ofValues_congr (l : Lane) (f g : Nat → Int)
    (h : ∀ i < 16 / l.bytes, BitVec.ofInt (8 * l.bytes) (f i) = .ofInt (8 * l.bytes) (g i)) :
    AltiVec.ofValues l f = AltiVec.ofValues l g := by
  unfold AltiVec.ofValues
  congr
  funext k
  rw [h _ (l.div_lt k)]

-- ---------------------------------------------------------------------------
-- One register everywhere
-- ---------------------------------------------------------------------------

/-- A loop where all registers start with `X`: what the destination holds depends only on which
sources it is. -/
def runLocal (VD : VectorOperand) (aliasA aliasB aliasC : Bool) (X : Vr) (steps : List VectorStep) :
    Vr :=
  steps.foldl (fun x st => VD.setElement x st.pos (VD.saturate
    (st.value (if aliasA then x else X) (if aliasB then x else X) (if aliasC then x else X))).1) X

theorem storeElement_vr (s : Cpu) (VD : VectorOperand) (d : BitVec 5) (i : Nat) (v : Int) :
    (s.storeElement VD d i v).vr =
      Function.update s.vr d (VD.setElement (s.vr d) i (VD.saturate v).1) := by
  unfold Cpu.storeElement
  obtain ⟨y, clamped⟩ := VD.saturate v
  cases clamped <;> rfl

theorem runSteps_uniform (VD : VectorOperand) (r : VectorRegs) (X : Vr) (steps : List VectorStep)
    (s : Cpu) (hs : s.vr = fun _ => X) :
    (runSteps VD r steps s).vr r.d =
      runLocal VD (r.a = r.d) (r.b = r.d) (r.c = r.d) X steps := by
  have hrun (x : Vr) (s : Cpu) (hs : s.vr = Function.update (fun _ => X) r.d x) :
      (runSteps VD r steps s).vr r.d =
        steps.foldl (fun x st => VD.setElement x st.pos (VD.saturate
          (st.value (if r.a = r.d then x else X) (if r.b = r.d then x else X)
            (if r.c = r.d then x else X))).1) x := by
    induction steps generalizing x s with
    | nil => simp [runSteps, hs]
    | cons st steps ih =>
      refine ih _ _ ?_
      rw [storeElement_vr, hs, Function.update_idem, Function.update_self]
      simp only [Function.update_apply]
  refine (hrun X s ?_).trans ?_
  · rw [hs]
    exact (Function.update_eq_self r.d _).symm
  · simp [runLocal]

end SheepShear.Kpx
