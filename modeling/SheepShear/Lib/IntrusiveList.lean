import Mathlib

/-!
# Intrusive doubly linked lists

Nodes that carry their own links: `next` points to the following node and
`prev` to the cell that points to this one, a list head or the `next` field of
another node. One set of nodes is threaded through a family of lists with heads
of their own. The writes of insertion and removal are those of the usual C code;
the rules say what they do to the lists of nodes that the links represent.
-/

namespace SheepShear.IntrusiveList

variable {κ ν : Type}

/-- A cell that holds a pointer to a node. -/
inductive Cell (κ ν : Type) where
  | head (k : κ)
  | next (x : ν)
deriving DecidableEq, Repr

structure Links (κ ν : Type) where
  head : κ → Option ν
  next : ν → Option ν
  prev : ν → Option (Cell κ ν)

namespace Links

def read (l : Links κ ν) : Cell κ ν → Option ν
  | .head k => l.head k
  | .next x => l.next x

theorem read_next (l : Links κ ν) (x : ν) : l.read (.next x) = l.next x := rfl

section

variable [DecidableEq κ] [DecidableEq ν]

def write (l : Links κ ν) (c : Cell κ ν) (v : Option ν) : Links κ ν :=
  match c with
  | .head k => { l with head := Function.update l.head k v }
  | .next x => { l with next := Function.update l.next x v }

def setPrev (l : Links κ ν) (x : ν) (c : Option (Cell κ ν)) : Links κ ν :=
  { l with prev := Function.update l.prev x c }

/-- Insertion at the front of list `k`. -/
def push (l : Links κ ν) (k : κ) (x : ν) : Links κ ν :=
  let l := match l.head k with
    | some y => l.setPrev y (some (.next x))
    | none => l
  let l := l.write (.next x) (l.head k)
  let l := l.write (.head k) (some x)
  l.setPrev x (some (.head k))

/-- Removal through the back link, without knowing the list. -/
def unlink (l : Links κ ν) (x : ν) : Links κ ν :=
  let l := match l.prev x with
    | some c => l.write c (l.next x)
    | none => l
  match l.next x with
  | some y => l.setPrev y (l.prev x)
  | none => l

@[simp] theorem read_write (l : Links κ ν) (c c' : Cell κ ν) (v : Option ν) :
    (l.write c v).read c' = if c' = c then v else l.read c' := by
  cases c <;> cases c' <;> simp [write, read, Function.update_apply]

@[simp] theorem prev_write (l : Links κ ν) (c : Cell κ ν) (v : Option ν) :
    (l.write c v).prev = l.prev := by
  cases c <;> rfl

omit [DecidableEq κ] in
@[simp] theorem read_setPrev (l : Links κ ν) (x : ν) (c : Option (Cell κ ν)) (c' : Cell κ ν) :
    (l.setPrev x c).read c' = l.read c' := by
  cases c' <;> rfl

omit [DecidableEq κ] in
@[simp] theorem prev_setPrev (l : Links κ ν) (x : ν) (c : Option (Cell κ ν)) (y : ν) :
    (l.setPrev x c).prev y = if y = x then c else l.prev y := Function.update_apply ..

theorem push_read (l : Links κ ν) (k : κ) (x : ν) (c : Cell κ ν) :
    (l.push k x).read c =
      if c = .head k then some x else if c = .next x then l.head k else l.read c := by
  cases h : l.head k <;> cases c <;>
    simp [push, h, write, setPrev, read, Function.update_apply]

theorem push_prev (l : Links κ ν) (k : κ) (x y : ν) :
    (l.push k x).prev y =
      if y = x then some (.head k) else if l.head k = some y then some (.next x)
      else l.prev y := by
  simp only [push]
  cases h : l.head k with
  | none => simp
  | some z => simp [eq_comm]

theorem unlink_read (l : Links κ ν) (x : ν) (c₀ c : Cell κ ν) (h : l.prev x = some c₀) :
    (l.unlink x).read c = if c = c₀ then l.next x else l.read c := by
  simp only [unlink, h]
  split <;> simp

theorem unlink_prev (l : Links κ ν) (x y : ν) (c₀ : Cell κ ν) (h : l.prev x = some c₀)
    (hne : c₀ ≠ .next x) :
    (l.unlink x).prev y = if l.next x = some y then some c₀ else l.prev y := by
  have hnext : (l.write c₀ (l.next x)).next x = l.next x := by
    rw [← read_next, read_write, if_neg hne.symm, read_next]
  simp only [unlink, h, hnext]
  cases hx : l.next x with
  | none => simp
  | some z => simp [h, eq_comm]

end

end Links

-- ---------------------------------------------------------------------------
-- Walks
-- ---------------------------------------------------------------------------

/-- The nodes that a loop over `next` visits before it meets the null pointer. -/
inductive Walk (next : ν → Option ν) : Option ν → List ν → Prop where
  | nil : Walk next none []
  | cons {x : ν} {xs : List ν} : Walk next (next x) xs → Walk next (some x) (x :: xs)

theorem Walk.head_eq {next : ν → Option ν} {p : Option ν} {xs : List ν} (h : Walk next p xs) :
    p = xs.head? := by
  cases h <;> rfl

theorem Walk.tail {next : ν → Option ν} {p : Option ν} {x : ν} {xs : List ν}
    (h : Walk next p (x :: xs)) : Walk next (next x) xs := by
  cases h with
  | cons h => exact h

theorem Walk.congr {next next' : ν → Option ν} {p : Option ν} {xs : List ν} (h : Walk next p xs)
    (hnext : ∀ x ∈ xs, next' x = next x) : Walk next' p xs := by
  induction h with
  | nil => exact .nil
  | @cons x xs _ ih =>
    refine .cons ?_
    rw [hnext x (List.mem_cons_self ..)]
    exact ih fun y hy => hnext y (List.mem_cons_of_mem _ hy)

theorem Walk.unique {next : ν → Option ν} {p : Option ν} {xs ys : List ν} (h : Walk next p xs)
    (h' : Walk next p ys) : xs = ys := by
  induction h generalizing ys with
  | nil => cases h' with | nil => rfl
  | cons _ ih => cases h' with | cons h' => rw [ih h']

-- ---------------------------------------------------------------------------
-- Segments
-- ---------------------------------------------------------------------------

/-- The nodes from a cell on, each one with its back link. -/
def Segment (l : Links κ ν) : Cell κ ν → List ν → Prop
  | c, [] => l.read c = none
  | c, x :: xs => l.read c = some x ∧ l.prev x = some c ∧ Segment l (.next x) xs

variable {l l' : Links κ ν} {c : Cell κ ν} {xs ys : List ν} {x y : ν}

theorem Segment.congr (h : Segment l c xs) (hread : l'.read c = l.read c)
    (hnext : ∀ y ∈ xs, l'.next y = l.next y) (hprev : ∀ y ∈ xs, l'.prev y = l.prev y) :
    Segment l' c xs := by
  induction xs generalizing c with
  | nil => exact hread.trans h
  | cons x xs ih =>
    obtain ⟨hr, hp, hs⟩ := h
    refine ⟨hread.trans hr, (hprev x (List.mem_cons_self ..)).trans hp, ?_⟩
    exact ih hs (hnext x (List.mem_cons_self ..)) (fun y hy => hnext y (List.mem_cons_of_mem _ hy))
      fun y hy => hprev y (List.mem_cons_of_mem _ hy)

theorem Segment.head_eq (h : Segment l c xs) : l.read c = xs.head? := by
  cases xs with
  | nil => exact h
  | cons x xs => exact h.1

/-- A segment is closed under `next`. -/
theorem Segment.next_mem (h : Segment l c xs) (hx : x ∈ xs) (hy : l.next x = some y) : y ∈ xs := by
  induction xs generalizing c with
  | nil => cases hx
  | cons z xs ih =>
    obtain ⟨-, -, hs⟩ := h
    rcases List.mem_cons.mp hx with rfl | hx
    · have hhead := hs.head_eq
      rw [Links.read_next, hy] at hhead
      exact List.mem_cons_of_mem _ (List.mem_of_mem_head? hhead.symm)
    · exact List.mem_cons_of_mem _ (ih hs hx)

theorem Segment.next_ne (h : Segment l c xs) (hd : xs.Nodup) (hx : x ∈ xs) :
    l.next x ≠ some x := by
  induction xs generalizing c with
  | nil => cases hx
  | cons z xs ih =>
    obtain ⟨-, -, hs⟩ := h
    obtain ⟨hz, hd⟩ := List.nodup_cons.mp hd
    rcases List.mem_cons.mp hx with rfl | hx
    · intro hnext
      have hhead := hs.head_eq
      rw [Links.read_next, hnext] at hhead
      exact hz (List.mem_of_mem_head? hhead.symm)
    · exact ih hs hd hx

/-- The back link of a node is the cell that points to it. -/
theorem Segment.prev_spec (h : Segment l c xs) (hx : x ∈ xs) :
    ∃ c₀, l.prev x = some c₀ ∧ l.read c₀ = some x ∧ (c₀ = c ∨ ∃ y ∈ xs, c₀ = .next y) := by
  induction xs generalizing c with
  | nil => cases hx
  | cons z xs ih =>
    obtain ⟨hr, hp, hs⟩ := h
    rcases List.mem_cons.mp hx with rfl | hx
    · exact ⟨c, hp, hr, Or.inl rfl⟩
    · obtain ⟨c₀, hprev, hread, hc⟩ := ih hs hx
      refine ⟨c₀, hprev, hread, Or.inr ?_⟩
      rcases hc with rfl | ⟨y, hy, rfl⟩
      · exact ⟨z, List.mem_cons_self .., rfl⟩
      · exact ⟨y, List.mem_cons_of_mem _ hy, rfl⟩

theorem Segment.prev_next (h : Segment l c xs) (hx : x ∈ xs) (hy : l.next x = some y) :
    l.prev y = some (.next x) := by
  induction xs generalizing c with
  | nil => cases hx
  | cons z xs ih =>
    obtain ⟨-, -, hs⟩ := h
    rcases List.mem_cons.mp hx with rfl | hx
    · cases xs with
      | nil => exact nomatch hs.symm.trans hy
      | cons w ws =>
        obtain rfl : w = y := Option.some.inj (hs.1.symm.trans hy)
        exact hs.2.1
    · exact ih hs hx

theorem Segment.walk (h : Segment l c xs) : Walk l.next (l.read c) xs := by
  induction xs generalizing c with
  | nil =>
    rw [show l.read c = none from h]
    exact .nil
  | cons x xs ih =>
    obtain ⟨hr, -, hs⟩ := h
    rw [hr]
    exact .cons (ih hs)

/-- A walk can start in the middle of a segment. -/
theorem Segment.walk_suffix (h : Segment l c (xs ++ ys)) : Walk l.next ys.head? ys := by
  induction xs generalizing c with
  | nil =>
    have hw := h.walk
    rwa [h.head_eq] at hw
  | cons x xs ih => exact ih h.2.2

variable [DecidableEq κ] [DecidableEq ν]

/-- Removal cuts the node out of its segment. -/
theorem Segment.unlink {as bs : List ν} {c₀ : Cell κ ν} (h : Segment l c (as ++ x :: bs))
    (hd : (as ++ x :: bs).Nodup) (hprev : l.prev x = some c₀) (hread : l.read c₀ = some x)
    (hne : c₀ ≠ .next x) : Segment (l.unlink x) c (as ++ bs) := by
  induction as generalizing c with
  | nil =>
    obtain ⟨-, hp, hs⟩ := h
    obtain rfl : c₀ = c := Option.some.inj (hprev.symm.trans hp)
    have hxbs : x ∉ bs := (List.nodup_cons.mp hd).1
    cases bs with
    | nil =>
      change (l.unlink x).read c₀ = none
      rw [l.unlink_read x c₀ c₀ hprev, if_pos rfl]
      exact hs
    | cons y ys =>
      have hy : l.next x = some y := hs.1
      have hout (z : ν) (hz : z ∈ y :: ys) : Cell.next z ≠ c₀ := by
        rintro rfl
        exact hxbs (hs.next_mem hz hread)
      have hys : y ∉ ys := (List.nodup_cons.mp (List.nodup_cons.mp hd).2).1
      refine ⟨?_, ?_, hs.2.2.congr ?_ ?_ ?_⟩
      · rw [l.unlink_read x c₀ c₀ hprev, if_pos rfl, hy]
      · rw [l.unlink_prev x y c₀ hprev hne, if_pos hy]
      · rw [l.unlink_read x c₀ _ hprev, if_neg (hout y (List.mem_cons_self ..))]
      · intro z hz
        rw [← Links.read_next, l.unlink_read x c₀ _ hprev,
          if_neg (hout z (List.mem_cons_of_mem _ hz)), Links.read_next]
      · intro z hz
        rw [l.unlink_prev x z c₀ hprev hne, if_neg]
        rw [hy]
        rintro ⟨rfl⟩
        exact hys hz
  | cons a as ih =>
    obtain ⟨hr, hp, hs⟩ := h
    obtain ⟨ha, hd⟩ := List.nodup_cons.mp hd
    have hax : a ≠ x := by
      rintro rfl
      exact ha (List.mem_append_right _ (List.mem_cons_self ..))
    have hc : c ≠ c₀ := by
      rintro rfl
      exact hax (Option.some.inj (hr.symm.trans hread))
    refine ⟨?_, ?_, ih hs hd⟩
    · rw [l.unlink_read x c₀ c hprev, if_neg hc, hr]
    · rw [l.unlink_prev x a c₀ hprev hne, if_neg, hp]
      intro hnext
      have hmem : x ∈ as ++ x :: bs := List.mem_append_right _ (List.mem_cons_self ..)
      exact ha (hs.next_mem hmem hnext)

-- ---------------------------------------------------------------------------
-- Families of lists
-- ---------------------------------------------------------------------------

/-- The links thread each node through at most one place of one list. -/
structure Represents (l : Links κ ν) (lists : κ → List ν) : Prop where
  segment : ∀ k, Segment l (.head k) (lists k)
  nodup : ∀ k, (lists k).Nodup
  disjoint : ∀ {k k' x}, x ∈ lists k → x ∈ lists k' → k = k'

variable {lists : κ → List ν} {k : κ}

theorem Represents.push (h : Represents l lists) (hx : ∀ k, x ∉ lists k) :
    Represents (l.push k x) (Function.update lists k (x :: lists k)) where
  segment k' := by
    have hnext (y : ν) (hy : y ≠ x) : (l.push k x).next y = l.next y := by
      rw [← Links.read_next, l.push_read, if_neg (by simp), if_neg (by simpa using hy),
        Links.read_next]
    by_cases hk : k' = k
    · subst hk
      rw [Function.update_self]
      refine ⟨by simp [l.push_read], by simp [l.push_prev], ?_⟩
      have hread : (l.push k' x).read (.next x) = (lists k').head? := by
        rw [l.push_read, if_neg (by simp), if_pos rfl, ← (h.segment k').head_eq]
        rfl
      have hs := h.segment k'
      have hd := h.nodup k'
      have hout := hx k'
      cases hl : lists k' with
      | nil =>
        rw [hl] at hread
        exact hread
      | cons y ys =>
        rw [hl] at hread hs hd hout
        obtain ⟨hyx, hysx⟩ := not_or.mp fun hmem => hout (List.mem_cons.mpr hmem)
        have hy : l.head k' = some y := hs.1
        refine ⟨hread, by rw [l.push_prev, if_neg (Ne.symm hyx), if_pos hy], hs.2.2.congr ?_ ?_ ?_⟩
        · exact hnext y (Ne.symm hyx)
        · intro z hz
          exact hnext z (ne_of_mem_of_not_mem hz hysx)
        · intro z hz
          rw [l.push_prev, if_neg (ne_of_mem_of_not_mem hz hysx), if_neg]
          rw [hy]
          rintro ⟨rfl⟩
          exact (List.nodup_cons.mp hd).1 hz
    · rw [Function.update_of_ne hk]
      refine (h.segment k').congr (by simp [l.push_read, hk]) ?_ ?_
      · intro y hy
        exact hnext y (ne_of_mem_of_not_mem hy (hx k'))
      · intro y hy
        rw [l.push_prev, if_neg (ne_of_mem_of_not_mem hy (hx k')), if_neg]
        intro hhead
        exact hk (h.disjoint hy (List.mem_of_mem_head? ((h.segment k).head_eq.symm.trans hhead)))
  nodup k' := by
    by_cases hk : k' = k
    · subst hk
      rw [Function.update_self]
      exact List.nodup_cons.mpr ⟨hx k', h.nodup k'⟩
    · rw [Function.update_of_ne hk]
      exact h.nodup k'
  disjoint {k₁ k₂ y} h₁ h₂ := by
    have hmem (k' : κ) (hy : y ∈ Function.update lists k (x :: lists k) k') :
        (y = x ∧ k' = k) ∨ y ∈ lists k' := by
      by_cases hk : k' = k
      · subst hk
        rw [Function.update_self] at hy
        rcases List.mem_cons.mp hy with rfl | hy
        · exact Or.inl ⟨rfl, rfl⟩
        · exact Or.inr hy
      · rw [Function.update_of_ne hk] at hy
        exact Or.inr hy
    rcases hmem k₁ h₁ with ⟨hy₁, hk₁⟩ | h₁ <;> rcases hmem k₂ h₂ with ⟨hy₂, hk₂⟩ | h₂
    · exact hk₁.trans hk₂.symm
    · exact absurd (hy₁ ▸ h₂) (hx k₂)
    · exact absurd (hy₂ ▸ h₁) (hx k₁)
    · exact h.disjoint h₁ h₂

theorem Represents.unlink (h : Represents l lists) (hx : x ∈ lists k) :
    Represents (l.unlink x) fun k' => (lists k').filter (· != x) := by
  obtain ⟨c₀, hprev, hread, hc⟩ := (h.segment k).prev_spec hx
  have hne : c₀ ≠ .next x := by
    rintro rfl
    exact (h.segment k).next_ne (h.nodup k) hx hread
  refine ⟨?_, ?_, ?_⟩
  · intro k'
    by_cases hk : k' = k
    · subst hk
      obtain ⟨as, bs, has, hl, herase⟩ := List.exists_erase_eq hx
      rw [← (h.nodup k').erase_eq_filter, herase]
      have hs := h.segment k'
      have hd := h.nodup k'
      rw [hl] at hs hd
      exact hs.unlink hd hprev hread hne
    · have hout : x ∉ lists k' := fun hx' => hk (h.disjoint hx' hx)
      rw [← (h.nodup k').erase_eq_filter, List.erase_of_not_mem hout]
      refine (h.segment k').congr ?_ ?_ ?_
      · rw [l.unlink_read x c₀ _ hprev, if_neg]
        rintro rfl
        rw [(h.segment k').head_eq] at hread
        exact hout (List.mem_of_mem_head? hread)
      · intro y hy
        rw [← Links.read_next, l.unlink_read x c₀ _ hprev, if_neg, Links.read_next]
        rintro rfl
        exact hout ((h.segment k').next_mem hy hread)
      · intro y hy
        rw [l.unlink_prev x y c₀ hprev hne, if_neg]
        intro hnext
        exact hk (h.disjoint hy ((h.segment k).next_mem hx hnext))
  · intro k'
    exact (h.nodup k').filter _
  · intro k₁ k₂ y h₁ h₂
    exact h.disjoint (List.mem_of_mem_filter h₁) (List.mem_of_mem_filter h₂)

end SheepShear.IntrusiveList
