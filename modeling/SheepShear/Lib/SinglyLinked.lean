import SheepShear.Lib.IntrusiveList

/-!
# Singly linked lists

Lists of nodes that know only their successor. A walk over `next` visits no node
twice, so the writes that append a node or cut one out change one link of it.
Loops over the nodes take fuel and give no result without it. The elements of a
list that satisfy a predicate are counted from the front.
-/

namespace SheepShear.IntrusiveList

variable {ν : Type} {next : ν → Option ν} {p : Option ν}

/-- A walk can start at any of its nodes. -/
theorem Walk.drop {as bs : List ν} (h : Walk next p (as ++ bs)) : Walk next bs.head? bs := by
  induction as generalizing p with
  | nil =>
    have hp := h.head_eq
    subst hp
    exact h
  | cons a as ih =>
    have htail : Walk next (next a) (as ++ bs) := h.tail
    exact ih htail

theorem Walk.nodup {xs : List ν} (h : Walk next p xs) : xs.Nodup := by
  induction h with
  | nil => exact List.nodup_nil
  | @cons x xs h ih =>
    refine List.nodup_cons.mpr ⟨fun hx => ?_, ih⟩
    obtain ⟨as, bs, rfl⟩ := List.append_of_mem hx
    -- two walks from the same node would have different lengths
    have hlong : Walk next (some x) (x :: (as ++ x :: bs)) := .cons h
    have hlength := congrArg List.length (hlong.unique h.drop)
    simp only [List.length_cons, List.length_append] at hlength
    omega

theorem walk_cons_iff {x : ν} {xs : List ν} :
    Walk next p (x :: xs) ↔ p = some x ∧ Walk next (next x) xs := by
  constructor
  · exact fun h => ⟨h.head_eq, h.tail⟩
  · rintro ⟨rfl, h⟩
    exact .cons h

instance instDecidableWalk [DecidableEq ν] : ∀ (p : Option ν) (xs : List ν), Decidable (Walk next p xs)
  | none, [] => isTrue .nil
  | some _, [] => isFalse nofun
  | p, x :: xs =>
    have := instDecidableWalk (next x) xs
    decidable_of_iff (p = some x ∧ Walk next (next x) xs) walk_cons_iff.symm

theorem Walk.next_eq {as bs : List ν} {x : ν} (h : Walk next p (as ++ x :: bs)) :
    next x = bs.head? := by
  have hx : Walk next (some x) (x :: bs) := h.drop
  exact hx.tail.head_eq

-- ---------------------------------------------------------------------------
-- Loops over the nodes
-- ---------------------------------------------------------------------------

/-- The loop that ends at the first node that satisfies `P`, or with the null pointer. -/
def searchNodes (next : ν → Option ν) (P : ν → Bool) : Nat → Option ν → Option (Option ν)
  | _, none => some none
  | 0, some _ => none
  | fuel + 1, some x => if P x then some (some x) else searchNodes next P fuel (next x)

/-- The loop that visits every node. -/
def foldNodes {β : Type} (next : ν → Option ν) (f : β → ν → β) : Nat → Option ν → β → Option β
  | _, none, b => some b
  | 0, some _, _ => none
  | fuel + 1, some x, b => foldNodes next f fuel (next x) (f b x)

theorem Walk.searchNodes_eq {xs : List ν} (h : Walk next p xs) (P : ν → Bool) {fuel : Nat}
    (hfuel : xs.length ≤ fuel) : searchNodes next P fuel p = some (xs.find? P) := by
  induction h generalizing fuel with
  | nil => cases fuel <;> rfl
  | @cons x xs _ ih =>
    obtain ⟨n, rfl⟩ : ∃ n, fuel = n + 1 := ⟨fuel - 1, by rw [List.length_cons] at hfuel; omega⟩
    rw [searchNodes, List.find?_cons]
    cases P x with
    | true => rfl
    | false => exact ih (Nat.le_of_succ_le_succ hfuel)

theorem Walk.foldNodes_eq {β : Type} {xs : List ν} (h : Walk next p xs) (f : β → ν → β) (b : β)
    {fuel : Nat} (hfuel : xs.length ≤ fuel) : foldNodes next f fuel p b = some (xs.foldl f b) := by
  induction h generalizing fuel b with
  | nil => cases fuel <;> rfl
  | @cons x xs _ ih =>
    obtain ⟨n, rfl⟩ : ∃ n, fuel = n + 1 := ⟨fuel - 1, by rw [List.length_cons] at hfuel; omega⟩
    exact ih (f b x) (Nat.le_of_succ_le_succ hfuel)

/-- The node in front of another one is the only one that leads there. -/
theorem Walk.find_before [DecidableEq ν] {as bs : List ν} {x y : ν}
    (h : Walk next p (as ++ x :: y :: bs)) :
    (as ++ x :: y :: bs).find? (fun z => next z = some y) = some x := by
  induction as generalizing p with
  | nil =>
    have hx : next x = some y := h.next_eq
    rw [List.nil_append, List.find?_cons_of_pos (by simpa using hx)]
  | cons a as ih =>
    have ha : next a ≠ some y := by
      intro ha
      have htail : Walk next (next a) (as ++ x :: y :: bs) := h.tail
      have hhead := ha.symm.trans htail.head_eq
      cases as with
      | nil =>
        have hxy : y = x := Option.some.inj hhead
        have hnodup := htail.nodup
        rw [hxy] at hnodup
        simp at hnodup
      | cons b as =>
        have hyb : y = b := Option.some.inj hhead
        have hnodup := htail.nodup
        rw [hyb] at hnodup
        simp at hnodup
    rw [List.cons_append, List.find?_cons_of_neg (by simpa using ha)]
    exact ih h.tail

-- ---------------------------------------------------------------------------
-- Writes to the links
-- ---------------------------------------------------------------------------

variable [DecidableEq ν]

/-- A node after the last one. -/
theorem Walk.append {as : List ν} {x y : ν} (h : Walk next p (as ++ [x])) (hy : y ∉ as ++ [x]) :
    Walk (Function.update (Function.update next y none) x (some y)) p (as ++ [x, y]) := by
  induction as generalizing p with
  | nil =>
    cases h with | cons _ => ?_
    have hyx : y ≠ x := by
      rintro rfl
      exact hy (List.mem_singleton_self y)
    refine .cons ?_
    rw [Function.update_self]
    refine .cons ?_
    rw [Function.update_of_ne hyx, Function.update_self]
    exact .nil
  | cons a as ih =>
    obtain ⟨hya, hy⟩ := not_or.mp fun hmem => hy (List.mem_cons.mpr hmem)
    have hax : a ≠ x := by
      rintro rfl
      exact (List.nodup_cons.mp h.nodup).1 (List.mem_append_right as (List.mem_singleton_self a))
    cases h with | cons h => ?_
    refine .cons ?_
    rw [Function.update_of_ne hax, Function.update_of_ne (Ne.symm hya)]
    exact ih h hy

/-- The node after another one is cut out. -/
theorem Walk.cut {as bs : List ν} {x y : ν} (h : Walk next p (as ++ x :: y :: bs)) :
    Walk (Function.update next x (next y)) p (as ++ x :: bs) := by
  induction as generalizing p with
  | nil =>
    have hx := (List.nodup_cons.mp h.nodup).1
    have hrest : Walk next (next y) bs := h.tail.tail
    cases h with | cons _ => ?_
    refine .cons ?_
    rw [Function.update_self]
    refine hrest.congr fun z hz => Function.update_of_ne ?_ ..
    rintro rfl
    exact hx (List.mem_cons_of_mem y hz)
  | cons a as ih =>
    have hax : a ≠ x := by
      rintro rfl
      exact (List.nodup_cons.mp h.nodup).1 (List.mem_append_right as (List.mem_cons_self ..))
    cases h with | cons h => ?_
    refine .cons ?_
    rw [Function.update_of_ne hax]
    exact ih h

/-- The links, from the first one on, with a node taken out that the loop looks for. -/
def unlinkNode (next : ν → Option ν) (fuel : Nat) (p : Option ν) (y : ν) :
    Option (Option ν × (ν → Option ν)) :=
  if p = some y then some (next y, next)
  else (searchNodes next (fun x => next x = some y) fuel p).map fun found =>
    match found with
    | some x => (p, Function.update next x (next y))
    | none => (p, next)

theorem Walk.unlinkNode_eq {xs : List ν} {y : ν} (h : Walk next p xs) (hy : y ∈ xs) {fuel : Nat}
    (hfuel : xs.length ≤ fuel) :
    ∃ p' next', unlinkNode next fuel p y = some (p', next') ∧ Walk next' p' (xs.erase y) ∧
      ∀ z ∉ xs, next' z = next z := by
  unfold unlinkNode
  by_cases hfirst : p = some y
  · rw [if_pos hfirst]
    obtain ⟨xs, rfl⟩ : ∃ zs, xs = y :: zs := List.head?_eq_some_iff.mp (h.head_eq.symm.trans hfirst)
    refine ⟨_, _, rfl, ?_, fun _ _ => rfl⟩
    rw [List.erase_cons_head]
    exact h.tail
  · rw [if_neg hfirst, h.searchNodes_eq _ hfuel]
    obtain ⟨as, bs, rfl⟩ := List.append_of_mem hy
    obtain ⟨as, x, rfl⟩ : ∃ as' x, as = as' ++ [x] := by
      rcases List.eq_nil_or_concat as with rfl | ⟨as', x, rfl⟩
      · exact absurd h.head_eq hfirst
      · exact ⟨as', x, List.concat_eq_append⟩
    rw [List.append_assoc, List.singleton_append] at h ⊢
    rw [h.find_before]
    have hcut : (as ++ x :: y :: bs).erase y = as ++ x :: bs := by
      obtain ⟨-, hrest, hdisjoint⟩ := List.nodup_append.mp h.nodup
      have hxy : x ≠ y := by
        rintro rfl
        simp at hrest
      have hyas : y ∉ as := fun hmem => hdisjoint y hmem y (by simp) rfl
      rw [List.erase_append_right _ hyas, List.erase_cons_tail (by simpa using hxy),
        List.erase_cons_head]
    refine ⟨_, _, rfl, ?_, fun z hz => ?_⟩
    · rw [hcut]
      exact h.cut
    · refine Function.update_of_ne ?_ ..
      rintro rfl
      simp at hz

end SheepShear.IntrusiveList

namespace SheepShear

-- ---------------------------------------------------------------------------
-- The elements of one kind
-- ---------------------------------------------------------------------------

variable {α : Type} (P : α → Bool)

/-- Where the element is that has the given number among those that satisfy `P`. -/
def nthIdx (l : List α) (i : Int) : Option Nat := if i < 0 then none else (l.findIdxs P)[i.toNat]?

@[simp] theorem nthIdx_nil (i : Int) : nthIdx P ([] : List α) i = none := by
  simp [nthIdx]

theorem nthIdx_cons (x : α) (l : List α) (i : Int) :
    nthIdx P (x :: l) i =
      if P x then if i = 0 then some 0 else (nthIdx P l (i - 1)).map (· + 1)
      else (nthIdx P l i).map (· + 1) := by
  have hstart : l.findIdxs P 1 = (l.findIdxs P).map (· + 1) := List.findIdxs_start
  unfold nthIdx
  rw [List.findIdxs_cons, hstart]
  rcases lt_trichotomy i 0 with hneg | rfl | hpos
  · simp [hneg, show i - 1 < 0 by omega, show i ≠ 0 by omega]
  · cases P x <;> simp
  · obtain ⟨n, rfl⟩ : ∃ n : Nat, i = n + 1 := ⟨(i - 1).toNat, by omega⟩
    have hlast : ((n : Int) + 1).toNat = n + 1 := by omega
    have hsub : ((n : Int) + 1 - 1).toNat = n := by omega
    have hne : (n : Int) + 1 ≠ 0 := by omega
    have hge : ¬ (n : Int) + 1 < 0 := by omega
    have hge' : ¬ (n : Int) + 1 - 1 < 0 := by omega
    rw [if_neg hge, if_neg hne, if_neg hge', if_neg hge, hlast, hsub]
    cases P x <;> simp

theorem nthIdx_spec {l : List α} {i : Int} {k : Nat} (h : nthIdx P l i = some k) :
    ∃ hlt : k < l.length, P l[k] = true := by
  unfold nthIdx at h
  split at h
  · cases h
  · exact List.mem_findIdxs_iff_exists_getElem_pos.mp (List.mem_of_getElem? h)

/-- A list around two elements in a row. -/
theorem List.split_pair {l : List α} {k : Nat} (h : k + 1 < l.length) :
    ∃ as x y bs, l = as ++ x :: y :: bs ∧ as.length = k := by
  refine ⟨l.take k, l[k], l[k + 1], l.drop (k + 2), ?_, by simp; omega⟩
  rw [← List.drop_eq_getElem_cons, ← List.drop_eq_getElem_cons, List.take_append_drop]

end SheepShear
