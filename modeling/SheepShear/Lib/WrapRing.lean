import SheepShear.Lib.Buffer

/-!
# Rings filled and drained in runs

A buffer whose contents begin at a read offset and end at a write offset, going
on at the beginning of the buffer where they reach its end. When the offsets are
equal the ring is empty or full; only a count can tell.
-/

namespace SheepShear.WrapRing

open Buffer

variable {α : Type} {data xs ys : List α} {r w n k : Nat}

/-- An offset that has reached the end of the buffer goes back by its length. -/
def wrap (n p : Nat) : Nat := if n ≤ p then p - n else p

theorem wrap_of_lt (h : k < n) : wrap n k = k := if_neg (by omega)

theorem wrap_of_le (h : n ≤ k) : wrap n k = k - n := if_pos h

theorem wrap_lt (hn : k < 2 * n) : wrap n k < n := by
  unfold wrap
  split_ifs <;> omega

/-- What the ring holds. -/
inductive Holds (data : List α) (r w : Nat) (xs : List α) : Prop where
  | straight (hle : r ≤ w) (hlt : w < data.length) (hxs : xs = (data.drop r).take (w - r))
  | wrapped (hle : w ≤ r) (hlt : r < data.length) (hxs : xs = data.drop r ++ data.take w)

namespace Holds

theorem empty (h : r < data.length) : Holds data r r [] :=
  .straight le_rfl h (by simp)

theorem read_lt (h : Holds data r w xs) : r < data.length := by
  cases h with
  | straight hle hlt _ => omega
  | wrapped _ hlt _ => exact hlt

theorem write_lt (h : Holds data r w xs) : w < data.length := by
  cases h with
  | straight _ hlt _ => exact hlt
  | wrapped hle hlt _ => omega

theorem length_cases (h : Holds data r w xs) :
    r ≤ w ∧ xs.length = w - r ∨ w ≤ r ∧ xs.length = data.length - r + w := by
  cases h with
  | straight hle hlt hxs =>
    subst hxs
    refine .inl ⟨hle, ?_⟩
    rw [List.length_take, List.length_drop]
    omega
  | wrapped hle hlt hxs =>
    subst hxs
    refine .inr ⟨hle, ?_⟩
    rw [List.length_append, List.length_drop, List.length_take]
    omega

theorem length_le (h : Holds data r w xs) : xs.length ≤ data.length := by
  have hr := h.read_lt
  have hw := h.write_lt
  rcases h.length_cases with ⟨hle, hlen⟩ | ⟨hle, hlen⟩ <;> omega

/-- The contents end where the count says. -/
theorem write_eq (h : Holds data r w xs) : w = wrap data.length (r + xs.length) := by
  have hr := h.read_lt
  have hw := h.write_lt
  rcases h.length_cases with ⟨hle, hlen⟩ | ⟨hle, hlen⟩
  · rw [wrap_of_lt (by omega)]
    omega
  · rw [wrap_of_le (by omega)]
    omega

/-- The first values are dropped. -/
theorem drop (h : Holds data r w xs) (hk : k ≤ xs.length) :
    Holds data (wrap data.length (r + k)) w (xs.drop k) := by
  have hr := h.read_lt
  have hw := h.write_lt
  cases h with
  | straight hle hlt hxs =>
    subst hxs
    rw [List.length_take, List.length_drop] at hk
    rw [wrap_of_lt (by omega)]
    refine .straight (by omega) hlt ?_
    rw [List.drop_take, List.drop_drop]
    congr 1
    omega
  | wrapped hle hlt hxs =>
    subst hxs
    rw [List.length_append, List.length_drop, List.length_take] at hk
    rcases Nat.lt_or_ge (r + k) data.length with hend | hend
    · rw [wrap_of_lt hend]
      refine .wrapped (by omega) hend ?_
      rw [List.drop_append_of_le_length (by rw [List.length_drop]; omega), List.drop_drop]
    · rw [wrap_of_le hend]
      refine .straight (by omega) hw ?_
      rw [List.drop_append, List.drop_eq_nil_of_le (by rw [List.length_drop]; omega),
        List.nil_append, List.length_drop, List.drop_take]
      congr 2
      all_goals omega

/-- The first values are those up to the end of the buffer, and then those at its beginning. -/
theorem read (h : Holds data r w xs) (hk : k ≤ xs.length) :
    xs.take k = if r < w then (data.drop r).take k
      else (data.drop r).take k ++ data.take (k - (data.length - r)) := by
  have hlen := h.length_cases
  cases h with
  | straight hle hlt hxs =>
    subst hxs
    rw [List.length_take, List.length_drop] at hk
    split_ifs with hrw
    · rw [List.take_take, min_eq_left (by omega)]
    · obtain rfl : k = 0 := by omega
      simp
  | wrapped hle hlt hxs =>
    subst hxs
    rw [List.length_append, List.length_drop, List.length_take] at hk
    rw [if_neg (by omega), List.take_append, List.length_drop, List.take_take,
      min_eq_left (by omega)]

end Holds

/-- Values are written from the write offset on, and on at the beginning of the buffer. -/
def put (data : List α) (w : Nat) (ys : List α) : List α :=
  overwrite (overwrite data w (ys.take (data.length - w))) 0 (ys.drop (data.length - w))

theorem length_put (hw : w ≤ data.length) (hys : ys.length ≤ data.length) :
    (put data w ys).length = data.length := by
  have hfirst : w + (ys.take (data.length - w)).length ≤ data.length := by
    rw [List.length_take]
    omega
  rw [put, length_overwrite, length_overwrite hfirst]
  rw [length_overwrite hfirst, List.length_drop]
  omega

theorem overwrite_nil (data : List α) (w : Nat) : overwrite data w [] = data := by
  rw [overwrite, List.append_nil, List.length_nil, Nat.add_zero, List.take_append_drop]

theorem put_of_fits (h : w + ys.length ≤ data.length) : put data w ys = overwrite data w ys := by
  rw [put, List.take_of_length_le (by omega), List.drop_eq_nil_of_le (by omega), overwrite_nil]

/-- When the values go on at the beginning, the first ones are those up to the end. -/
theorem put_of_ge (hw : w ≤ data.length) (h : data.length ≤ w + ys.length)
    (hys : ys.length ≤ data.length) :
    put data w ys = ys.drop (data.length - w) ++
      (data.take w).drop (ys.length - (data.length - w)) ++ ys.take (data.length - w) := by
  have htake : (ys.take (data.length - w)).length = data.length - w := by
    rw [List.length_take]
    omega
  rw [put, overwrite.eq_def data, htake, List.drop_eq_nil_of_le (by omega), List.append_nil,
    overwrite, List.take_zero, List.nil_append, Nat.zero_add, List.length_drop,
    List.drop_append_of_le_length (by rw [List.length_take]; omega), List.append_assoc]

/-- Values that fit are added to the contents. -/
theorem Holds.put (h : Holds data r w xs) (hfits : xs.length + ys.length ≤ data.length) :
    Holds (put data w ys) r (wrap data.length (w + ys.length)) (xs ++ ys) := by
  have hr := h.read_lt
  have hw := h.write_lt
  have hlen : (WrapRing.put data w ys).length = data.length := length_put hw.le (by omega)
  have hcounts := h.length_cases
  cases h with
  | straight hle hlt hxs =>
    have hcount : xs.length = w - r := by
      rw [hxs, List.length_take, List.length_drop]
      omega
    have hhead : (data.take w).drop r = xs := by rw [hxs, List.drop_take]
    rcases Nat.lt_or_ge (w + ys.length) data.length with hend | hend
    · rw [wrap_of_lt hend]
      refine .straight (by omega) (by omega) ?_
      rw [put_of_fits hend.le, overwrite, List.append_assoc,
        List.drop_append_of_le_length (by rw [List.length_take]; omega), hhead,
        ← List.append_assoc, List.take_append_of_le_length (by rw [List.length_append]; omega),
        List.take_of_length_le (by rw [List.length_append]; omega)]
    · rw [wrap_of_le hend]
      refine .wrapped (by omega) (by omega) ?_
      have hback : (ys.drop (data.length - w)).length = w + ys.length - data.length := by
        rw [List.length_drop]
        omega
      rw [put_of_ge hw.le hend (by omega), List.append_assoc, ← hback, List.take_left,
        List.drop_append, List.drop_eq_nil_of_le (by omega), List.nil_append,
        List.drop_append_of_le_length
          (by simp only [List.length_drop, List.length_take]; omega),
        List.drop_drop, show ys.length - (data.length - w) +
          (r - (ys.drop (data.length - w)).length) = r by omega, hhead, List.append_assoc,
        List.take_append_drop]
  | wrapped hle hlt hxs =>
    have hcount : xs.length = data.length - r + w := by
      rw [hxs, List.length_append, List.length_drop, List.length_take]
      omega
    rw [wrap_of_lt (by omega)]
    refine .wrapped (by omega) (by omega) ?_
    have hfront : (data.take w ++ ys).length = w + ys.length := by
      rw [List.length_append, List.length_take]
      omega
    rw [put_of_fits (by omega), overwrite, ← hfront, List.take_left, List.drop_append,
      List.drop_eq_nil_of_le (by omega), List.nil_append, List.drop_drop,
      show (data.take w ++ ys).length + (r - (data.take w ++ ys).length) = r by omega, hxs,
      List.append_assoc]

end SheepShear.WrapRing
