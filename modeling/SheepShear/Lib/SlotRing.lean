import Mathlib

/-!
# Rings whose slots are marked

A ring of `n` slots, each of which is free or holds a value, with a position to
take from and one to put into. The ring is full when the slot to put into is in
use, so all slots can be.
-/

namespace SheepShear.SlotRing

variable {α : Type} {n head inx : Nat} {slots : Nat → Option α} {x : α} {xs : List α}

/-- The position `i` after the head. -/
def index (n head i : Nat) : Nat := if head + i < n then head + i else head + i - n

def advance (n i : Nat) : Nat := if i + 1 ≥ n then 0 else i + 1

theorem index_inj {i j : Nat} (hi : i < n) (hj : j < n)
    (h : index n head i = index n head j) : i = j := by
  unfold index at h
  split_ifs at h <;> omega

theorem index_surj {k : Nat} (hhead : head < n) (hk : k < n) :
    ∃ i, i < n ∧ index n head i = k := by
  by_cases hle : head ≤ k
  · refine ⟨k - head, by omega, ?_⟩
    unfold index
    split_ifs <;> omega
  · refine ⟨k + n - head, by omega, ?_⟩
    unfold index
    split_ifs <;> omega

@[simp] theorem index_zero (hhead : head < n) : index n head 0 = head := by
  simp [index, hhead]

theorem index_self : index n head n = head := by
  unfold index
  split_ifs <;> omega

theorem advance_index {i : Nat} (hhead : head < n) (hi : i < n) :
    advance n (index n head i) = index n head (i + 1) := by
  unfold advance index
  split_ifs <;> omega

theorem index_advance {i : Nat} (hhead : head < n) (hi : i < n) :
    index n (advance n head) i = index n head (i + 1) := by
  unfold advance index
  split_ifs <;> omega

theorem advance_lt (hhead : head < n) : advance n head < n := by
  unfold advance
  split_ifs <;> omega

/-- The slots from the head on hold these values in order, and the others are free. -/
structure Holds (n : Nat) (slots : Nat → Option α) (head inx : Nat) (xs : List α) : Prop where
  head_lt : head < n
  length_le : xs.length ≤ n
  inx_eq : inx = index n head xs.length
  used : ∀ {i x}, xs[i]? = some x → slots (index n head i) = some x
  free : ∀ {i}, xs.length ≤ i → i < n → slots (index n head i) = none

theorem holds_nil (hn : 0 < n) (hfree : ∀ k, slots k = none) : Holds n slots 0 0 [] where
  head_lt := hn
  length_le := Nat.zero_le n
  inx_eq := (index_zero hn).symm
  used h := nomatch h
  free _ _ := hfree _

theorem Holds.front (h : Holds n slots head inx xs) : slots head = xs.head? := by
  have hhead := h.head_lt
  rw [← index_zero hhead]
  cases xs with
  | nil => exact h.free (Nat.zero_le _) (by omega)
  | cons x xs => exact h.used rfl

/-- The slot to put into is free unless all are in use. -/
theorem Holds.length_lt (h : Holds n slots head inx xs) (hfree : slots inx = none) :
    xs.length < n := by
  have hle := h.length_le
  by_contra hge
  have hlen : xs.length = n := by omega
  rw [h.inx_eq, hlen, index_self, h.front, List.head?_eq_none_iff] at hfree
  subst hfree
  have := h.head_lt
  simp at hlen
  omega

theorem Holds.all_used (h : Holds n slots head inx xs) (hfull : slots inx ≠ none) {k : Nat}
    (hk : k < n) : slots k ≠ none := by
  have hlen : xs.length = n := by
    by_contra hne
    have hle := h.length_le
    exact hfull (h.inx_eq ▸ h.free le_rfl (by omega))
  obtain ⟨i, hi, rfl⟩ := index_surj h.head_lt hk
  rw [← hlen] at hi
  rw [h.used (List.getElem?_eq_getElem hi)]
  simp

theorem Holds.push (h : Holds n slots head inx xs) (hfree : slots inx = none) (x : α) :
    Holds n (Function.update slots inx (some x)) head (advance n inx) (xs ++ [x]) := by
  have hlt := h.length_lt hfree
  have hinx := h.inx_eq
  refine ⟨h.head_lt, by simpa using hlt, ?_, ?_, ?_⟩
  · rw [hinx, advance_index h.head_lt hlt, List.length_append, List.length_singleton]
  · intro i y hy
    rcases Nat.lt_or_ge i xs.length with hi | hi
    · rw [List.getElem?_append_left hi] at hy
      rw [Function.update_of_ne, h.used hy]
      intro heq
      have := index_inj (by omega) hlt (heq.trans hinx)
      omega
    · have hlen := (List.getElem?_eq_some_iff.mp hy).1
      simp only [List.length_append, List.length_singleton] at hlen
      obtain rfl : i = xs.length := by omega
      rw [List.getElem?_concat_length] at hy
      rw [← hinx, Function.update_self, hy]
  · intro i hi hin
    simp only [List.length_append, List.length_singleton] at hi
    rw [Function.update_of_ne, h.free (by omega) hin]
    intro heq
    have := index_inj hin hlt (heq.trans hinx)
    omega

theorem Holds.pop (h : Holds n slots head inx (x :: xs)) :
    Holds n (Function.update slots head none) (advance n head) inx xs := by
  have hhead := h.head_lt
  have hle := h.length_le
  rw [List.length_cons] at hle
  have hne : ∀ {i}, i + 1 < n → index n head (i + 1) ≠ head := by
    intro i hi heq
    have := index_inj hi (Nat.zero_lt_of_lt hi) (heq.trans (index_zero hhead).symm)
    omega
  refine ⟨advance_lt hhead, by omega, ?_, ?_, ?_⟩
  · rw [h.inx_eq, List.length_cons, index_advance hhead (by omega)]
  · intro i y hy
    have hi := (List.getElem?_eq_some_iff.mp hy).1
    rw [index_advance hhead (by omega), Function.update_of_ne (hne (by omega))]
    exact h.used hy
  · intro i hi hin
    rw [index_advance hhead hin]
    rcases Nat.lt_or_ge (i + 1) n with hlt | hge
    · rw [Function.update_of_ne (hne hlt)]
      exact h.free (by simpa using hi) hlt
    · obtain rfl : n = i + 1 := by omega
      rw [index_self, Function.update_self]

theorem filterMap_range_getElem? (xs : List α) :
    (List.range xs.length).filterMap (fun i => xs[i]?) = xs := by
  induction xs using List.reverseRecOn with
  | nil => rfl
  | append_singleton xs x ih =>
    rw [List.length_append, List.length_singleton, List.range_succ, List.filterMap_append]
    have hfront : (List.range xs.length).filterMap (fun i => (xs ++ [x])[i]?) = xs := by
      conv_rhs => rw [← ih]
      refine List.filterMap_congr fun i hi => ?_
      exact List.getElem?_append_left (List.mem_range.mp hi)
    simp [hfront]

/-- The values can be read off the slots. -/
theorem Holds.contents (h : Holds n slots head inx xs) :
    (List.range n).filterMap (fun i => slots (index n head i)) = xs := by
  have hle := h.length_le
  obtain ⟨m, rfl⟩ := Nat.exists_eq_add_of_le hle
  rw [List.range_add, List.filterMap_append]
  have hused : (List.range xs.length).filterMap (fun i => slots (index (xs.length + m) head i)) =
      xs := by
    conv_rhs => rw [← filterMap_range_getElem? xs]
    refine List.filterMap_congr fun i hi => ?_
    have hi := List.getElem?_eq_getElem (List.mem_range.mp hi)
    rw [h.used hi, hi]
  have hfree : ((List.range m).map (xs.length + ·)).filterMap
      (fun i => slots (index (xs.length + m) head i)) = [] := by
    refine List.filterMap_eq_nil_iff.mpr fun i hi => ?_
    obtain ⟨j, hj, rfl⟩ := List.mem_map.mp hi
    have hj := List.mem_range.mp hj
    exact h.free (by omega) (by omega)
  rw [hused, hfree, List.append_nil]

end SheepShear.SlotRing
