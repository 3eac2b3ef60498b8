import Mathlib

/-!
# Ring buffers without a count

A ring of `n` slots with a read and a write index, where equal indices mean an
empty ring. The ring holds what was put into it as long as the writer never
catches up with the reader.
-/

namespace SheepShear

structure Ring (n : Nat) (α : Type) where
  slots : Fin n → α
  read : Fin n
  write : Fin n

namespace Ring

variable {n : Nat} [NeZero n] {α : Type}

/-- The value goes into the slot before the index moves on. -/
def store (r : Ring n α) (x : α) : Ring n α := { r with slots := Function.update r.slots r.write x }

def publish (r : Ring n α) : Ring n α := { r with write := r.write + 1 }

def isEmpty (r : Ring n α) : Bool := r.read = r.write

def front (r : Ring n α) : α := r.slots r.read

def advance (r : Ring n α) : Ring n α := { r with read := r.read + 1 }

/-- The slots from the read index up to the write index, in order. -/
def contents (r : Ring n α) : List α :=
  (List.range (r.write - r.read).val).map fun i => r.slots (r.read + Fin.ofNat n i)

/-- One more value would make a full ring look empty. -/
def isFull (r : Ring n α) : Bool := r.write + 1 = r.read

theorem ofNat_sub_val (a : Fin n) : Fin.ofNat n a.val = a := by
  ext
  exact Nat.mod_eq_of_lt a.isLt

/-- The distance of two indices grows by one with the second, unless they meet. -/
theorem val_add_one {a : Fin n} (h : a + 1 ≠ 0) : (a + 1).val = a.val + 1 := by
  have hlt := a.isLt
  have hval : (a + 1).val = (a.val + 1) % n := by
    rw [Fin.val_add, Fin.val_one', Nat.add_mod_mod]
  rcases Nat.lt_or_ge (a.val + 1) n with hn | hn
  · rw [hval, Nat.mod_eq_of_lt hn]
  · exact absurd (Fin.ext (by rw [hval, show a.val + 1 = n by omega, Nat.mod_self]; rfl)) h

theorem contents_eq_nil_iff (r : Ring n α) : r.contents = [] ↔ r.isEmpty = true := by
  rw [contents, List.map_eq_nil_iff, List.range_eq_nil, isEmpty, decide_eq_true_eq]
  constructor
  · intro h
    exact (sub_eq_zero.mp (Fin.ext h)).symm
  · intro h
    rw [h, sub_self]
    rfl

theorem contents_store (r : Ring n α) (x : α) : (r.store x).contents = r.contents := by
  apply List.map_congr_left
  intro i hi
  apply Function.update_of_ne
  intro heq
  have hi : i < (r.write - r.read).val := List.mem_range.mp hi
  have hsub : Fin.ofNat n i = r.write - r.read := eq_sub_of_add_eq' heq
  have hval := congrArg Fin.val hsub
  have hmod : (Fin.ofNat n i).val = i := Nat.mod_eq_of_lt (hi.trans (r.write - r.read).isLt)
  omega

theorem contents_publish (r : Ring n α) (h : r.isFull = false) :
    r.publish.contents = r.contents ++ [r.slots r.write] := by
  have hne : r.write - r.read + 1 ≠ 0 := by
    intro h0
    have hfull : r.write + 1 = r.read := by
      rw [sub_add_eq_add_sub] at h0
      exact sub_eq_zero.mp h0
    simp [isFull, hfull] at h
  have hcount : (r.write + 1 - r.read).val = (r.write - r.read).val + 1 := by
    rw [← val_add_one hne, sub_add_eq_add_sub]
  simp only [contents, publish, hcount, List.range_succ, List.map_append, List.map_cons,
    List.map_nil, ofNat_sub_val, add_sub_cancel]

theorem contents_advance (r : Ring n α) (h : r.isEmpty = false) :
    r.contents = r.front :: r.advance.contents := by
  have hne : r.write - (r.read + 1) + 1 ≠ 0 := by
    rw [sub_add_eq_sub_sub, sub_add_cancel]
    intro h0
    simp [isEmpty, (sub_eq_zero.mp h0).symm] at h
  have hcount : (r.write - r.read).val = (r.write - (r.read + 1)).val + 1 := by
    rw [← val_add_one hne, sub_add_eq_sub_sub, sub_add_cancel]
  have hsucc (i : Nat) : r.read + Fin.ofNat n (i + 1) = r.read + 1 + Fin.ofNat n i := by
    have : Fin.ofNat n (i + 1) = 1 + Fin.ofNat n i := by
      ext
      simp [Fin.ofNat, Fin.val_add, Nat.add_comm]
    rw [this, add_assoc]
  simp only [contents, advance, hcount, List.range_succ_eq_map, List.map_cons, List.map_map]
  congr 1
  · simp [front, Fin.ofNat]
  · apply List.map_congr_left
    intro i _
    exact congrArg r.slots (hsucc i)

omit [NeZero n] in
theorem front_store {r : Ring n α} (h : r.isEmpty = false) (x : α) :
    (r.store x).front = r.front := by
  have hne : r.read ≠ r.write := by simpa [isEmpty] using h
  exact Function.update_of_ne hne ..

theorem isEmpty_publish {r : Ring n α} (h : r.isFull = false) : r.publish.isEmpty = false := by
  have hne : ¬r.write + 1 = r.read := by simpa [isFull] using h
  exact decide_eq_false fun heq => hne heq.symm

theorem isFull_advance {r : Ring n α} (h : r.isEmpty = false) : r.advance.isFull = false := by
  have hne : r.read ≠ r.write := by simpa [isEmpty] using h
  exact decide_eq_false fun heq => hne (add_right_cancel heq).symm

end Ring

end SheepShear
