import SheepShear.Lib.Except

/-!
# Checked buffers

Reads and writes of a part of a buffer, which fail when the part is not inside
it. What fails is named by the error, since programs handle several buffers.
-/

namespace SheepShear.Buffer

variable {α ε : Type}

/-- `len` values from `off` on. -/
def read (e : ε) (buf : List α) (off len : Nat) : Except ε (List α) :=
  if off + len ≤ buf.length then .ok ((buf.drop off).take len) else .error e

def overwrite (buf : List α) (off : Nat) (xs : List α) : List α :=
  buf.take off ++ xs ++ buf.drop (off + xs.length)

def write (e : ε) (buf : List α) (off : Nat) (xs : List α) : Except ε (List α) :=
  if off + xs.length ≤ buf.length then .ok (overwrite buf off xs) else .error e

/-- The value at `i`. -/
def get (e : ε) (buf : List α) (i : Nat) : Except ε α :=
  match buf[i]? with
  | some x => .ok x
  | none => .error e

theorem read_ok {e : ε} {buf : List α} {off len : Nat} (h : off + len ≤ buf.length) :
    read e buf off len = .ok ((buf.drop off).take len) := if_pos h

theorem read_error {e : ε} {buf : List α} {off len : Nat} (h : ¬off + len ≤ buf.length) :
    read e buf off len = .error e := if_neg h

theorem write_ok {e : ε} {buf xs : List α} {off : Nat} (h : off + xs.length ≤ buf.length) :
    write e buf off xs = .ok (overwrite buf off xs) := if_pos h

theorem write_error {e : ε} {buf xs : List α} {off : Nat} (h : ¬off + xs.length ≤ buf.length) :
    write e buf off xs = .error e := if_neg h

theorem length_read {buf : List α} {off len : Nat} (h : off + len ≤ buf.length) :
    ((buf.drop off).take len).length = len := by
  rw [List.length_take, List.length_drop]
  omega

theorem length_overwrite {buf xs : List α} {off : Nat} (h : off + xs.length ≤ buf.length) :
    (overwrite buf off xs).length = buf.length := by
  simp only [overwrite, List.length_append, List.length_take, List.length_drop]
  omega

/-- A write inside a buffer of a known size. -/
theorem exists_write {e : ε} {buf xs : List α} {off n : Nat} (hbuf : buf.length = n)
    (h : off + xs.length ≤ n) : ∃ buf', write e buf off xs = .ok buf' ∧ buf'.length = n := by
  subst hbuf
  exact ⟨_, write_ok h, length_overwrite h⟩

theorem write_eq_ok {e : ε} {buf buf' xs : List α} {off : Nat} (h : write e buf off xs = .ok buf') :
    off + xs.length ≤ buf.length ∧ buf'.length = buf.length := by
  by_cases hfits : off + xs.length ≤ buf.length
  · rw [write_ok hfits] at h
    obtain rfl := Except.ok.inj h
    exact ⟨hfits, length_overwrite hfits⟩
  · rw [write_error hfits] at h
    cases h

theorem getElem?_overwrite {buf xs : List α} {off i : Nat} (h : off + xs.length ≤ buf.length)
    (hi : i < off ∨ off + xs.length ≤ i) : (overwrite buf off xs)[i]? = buf[i]? := by
  have htake : (buf.take off).length = off := by
    rw [List.length_take]
    omega
  rw [overwrite, List.append_assoc]
  rcases hi with hi | hi
  · rw [List.getElem?_append_left (by omega), List.getElem?_take_of_lt hi]
  · rw [List.getElem?_append_right (by omega), List.getElem?_append_right (by omega), htake,
      List.getElem?_drop]
    congr 1
    omega

/-- Only what is there already changes nothing. -/
theorem overwrite_eq_self_iff {buf xs : List α} {off : Nat} (h : off + xs.length ≤ buf.length) :
    overwrite buf off xs = buf ↔ (buf.drop off).take xs.length = xs := by
  have hsplit : buf = buf.take off ++ ((buf.drop off).take xs.length ++ buf.drop (off + xs.length)) := by
    rw [← List.drop_drop, List.take_append_drop, List.take_append_drop]
  have hlen : ((buf.drop off).take xs.length).length = xs.length := length_read h
  rw [overwrite, List.append_assoc]
  constructor
  · intro heq
    have htail := List.append_cancel_left (heq.trans hsplit)
    exact (List.append_inj_left htail hlen.symm).symm
  · intro heq
    conv_rhs => rw [hsplit, heq]

/-- A field is overwritten by one of the same length. -/
theorem overwrite_field (xs ys zs ys' : List α) (h : ys'.length = ys.length) :
    overwrite (xs ++ (ys ++ zs)) xs.length ys' = xs ++ (ys' ++ zs) := by
  rw [overwrite, List.take_left, h, ← List.append_assoc xs, ← List.length_append, List.drop_left,
    List.append_assoc]

/-- What is in front of a field plays no part. -/
theorem overwrite_append (xs buf ys : List α) (off : Nat) :
    overwrite (xs ++ buf) (xs.length + off) ys = xs ++ overwrite buf off ys := by
  rw [overwrite, overwrite, List.take_length_add_append, Nat.add_assoc, List.drop_length_add_append,
    List.append_assoc, List.append_assoc, List.append_assoc]

theorem overwrite_length (xs buf ys : List α) :
    overwrite (xs ++ buf) xs.length ys = xs ++ ys ++ buf.drop ys.length := by
  rw [overwrite, List.take_left, List.drop_length_add_append]

/-- And neither is what is behind it. -/
theorem overwrite_append_left {buf ys : List α} {off : Nat} (h : off + ys.length ≤ buf.length)
    (zs : List α) : overwrite (buf ++ zs) off ys = overwrite buf off ys ++ zs := by
  rw [overwrite, overwrite, List.take_append_of_le_length (by omega),
    List.drop_append_of_le_length h, List.append_assoc (buf.take off ++ ys)]

-- ---------------------------------------------------------------------------
-- Stores at indices
-- ---------------------------------------------------------------------------

def store (e : ε) (buf : List α) (i : Nat) (x : α) : Except ε (List α) :=
  if i < buf.length then .ok (buf.set i x) else .error e

/-- Values stored one after the other, each at its index. -/
def scatter (e : ε) : List (Nat × α) → List α → Except ε (List α)
  | [], buf => .ok buf
  | (i, x) :: ws, buf => do
    let buf ← store e buf i x
    scatter e ws buf

variable {e : ε} {buf buf' : List α} {ws : List (Nat × α)}

theorem exists_scatter_iff :
    (∃ buf', scatter e ws buf = .ok buf') ↔ ∀ w ∈ ws, w.1 < buf.length := by
  induction ws generalizing buf with
  | nil => simp [scatter]
  | cons w ws ih =>
    obtain ⟨i, x⟩ := w
    rw [scatter, store, List.forall_mem_cons]
    by_cases hi : i < buf.length
    · rw [if_pos hi, Except.ok_bind, ih, List.length_set]
      exact (and_iff_right hi).symm
    · rw [if_neg hi, Except.error_bind]
      constructor
      · rintro ⟨buf', h⟩
        cases h
      · intro h
        exact absurd h.1 hi

theorem scatter_cons_eq_ok {i : Nat} {x : α} (h : scatter e ((i, x) :: ws) buf = .ok buf') :
    i < buf.length ∧ scatter e ws (buf.set i x) = .ok buf' := by
  rw [scatter, store] at h
  split at h
  · exact ⟨‹_›, h⟩
  · cases h

theorem length_scatter (h : scatter e ws buf = .ok buf') : buf'.length = buf.length := by
  induction ws generalizing buf with
  | nil => exact congrArg List.length (Except.ok.inj h).symm
  | cons w ws ih => rw [ih (scatter_cons_eq_ok h).2, List.length_set]

theorem scatter_of_not_mem (h : scatter e ws buf = .ok buf') {k : Nat}
    (hk : ∀ w ∈ ws, w.1 ≠ k) : buf'[k]? = buf[k]? := by
  induction ws generalizing buf with
  | nil => exact congrArg (·[k]?) (Except.ok.inj h).symm
  | cons w ws ih =>
    obtain ⟨hw, hws⟩ := List.forall_mem_cons.mp hk
    rw [ih (scatter_cons_eq_ok h).2 hws, List.getElem?_set_ne hw]

theorem scatter_append {vs : List (Nat × α)} :
    scatter e (ws ++ vs) buf = scatter e ws buf >>= scatter e vs := by
  induction ws generalizing buf with
  | nil => rfl
  | cons w ws ih =>
    rw [List.cons_append, scatter, scatter, bind_assoc]
    exact bind_congr fun buf => ih

/-- The last value for an index is kept. -/
theorem scatter_concat {i : Nat} {x : α} (h : scatter e (ws ++ [(i, x)]) buf = .ok buf') :
    buf'[i]? = some x := by
  rw [scatter_append, Except.bind_eq_ok] at h
  obtain ⟨buf₁, -, h₁⟩ := h
  obtain ⟨hi, h₂⟩ := scatter_cons_eq_ok h₁
  rw [← Except.ok.inj h₂, List.getElem?_set_self hi]

/-- Equal values for an index are kept, whichever is the last. -/
theorem scatter_of_agree (h : scatter e ws buf = .ok buf') {i : Nat} {x : α} (hmem : (i, x) ∈ ws)
    (hagree : ∀ w ∈ ws, w.1 = i → w.2 = x) : buf'[i]? = some x := by
  induction ws generalizing buf with
  | nil => cases hmem
  | cons w ws ih =>
    obtain ⟨j, y⟩ := w
    obtain ⟨hj, hws⟩ := scatter_cons_eq_ok h
    have htail : ∀ w ∈ ws, w.1 = i → w.2 = x := fun w hw => hagree w (List.mem_cons_of_mem _ hw)
    by_cases hlater : (i, x) ∈ ws
    · exact ih hws hlater htail
    · obtain ⟨rfl, rfl⟩ := Prod.mk.inj ((List.mem_cons.mp hmem).resolve_right hlater)
      have hnot : ∀ w ∈ ws, w.1 ≠ i := by
        intro w hw hi
        have hpair : (i, x) = w := Prod.ext hi.symm (htail w hw hi).symm
        exact hlater (hpair ▸ hw)
      rw [scatter_of_not_mem hws hnot, List.getElem?_set_self hj]

end SheepShear.Buffer
