import Mathlib

/-!
# Pieces of a sequence, in order and apart

Pieces of a sequence that arrive in any order, more than once and overlapping, are
kept in a list by their offsets. A new piece gives way to the one in front of it
and cuts or replaces those behind it. Offsets may be numbers, or serial numbers
whose differences are taken modulo a word.
-/

namespace SheepShear.Pieces

/-- Offsets with a signed difference, and moving on. -/
class Offset (σ : Type) where
  sub : σ → σ → Int
  shift : σ → Nat → σ

export Offset (sub shift)

instance natOffset : Offset Nat where
  sub a b := (a : Int) - b
  shift a n := a + n

@[simp] theorem sub_nat (a b : Nat) : sub a b = (a : Int) - b := rfl

@[simp] theorem shift_nat (a n : Nat) : shift a n = a + n := rfl

structure Piece (σ α τ : Type) where
  off : σ
  data : List α
  tag : τ
deriving DecidableEq, Repr

variable {σ α τ : Type} [Offset σ]

def Piece.stop (p : Piece σ α τ) : σ := shift p.off p.data.length

/-- Without its first values. -/
def Piece.cut (p : Piece σ α τ) (i : Nat) : Piece σ α τ :=
  { p with off := shift p.off i, data := p.data.drop i }

/-- What a piece that ends at `stop` leaves of those behind it. -/
def absorb (stop : σ) : List (Piece σ α τ) → List (Piece σ α τ)
  | [] => []
  | q :: qs =>
    let i := sub stop q.off
    if i ≤ 0 then q :: qs
    else if i < q.data.length then q.cut i.toNat :: qs
    else absorb stop qs

/-- The pieces up to the first one that begins after `p`, and the others. -/
def around (p : Piece σ α τ) (qs : List (Piece σ α τ)) : List (Piece σ α τ) × List (Piece σ α τ) :=
  qs.span fun q => sub q.off p.off ≤ 0

/-- How far the piece in front reaches into `p`. -/
def overlap (before : List (Piece σ α τ)) (p : Piece σ α τ) : Int :=
  match before.getLast? with
  | none => 0
  | some q => sub q.stop p.off

/-- Nothing when the piece in front has all of it. -/
def insert (p : Piece σ α τ) (qs : List (Piece σ α τ)) : Option (List (Piece σ α τ)) :=
  let (before, after) := around p qs
  let i := overlap before p
  if i > 0 then
    if i ≥ p.data.length then none
    else some (before ++ p.cut i.toNat :: absorb (p.cut i.toNat).stop after)
  else some (before ++ p :: absorb p.stop after)

-- ---------------------------------------------------------------------------
-- Numbers as offsets
-- ---------------------------------------------------------------------------

section Numbers

variable {p q : Piece Nat α τ} {qs qs' before after : List (Piece Nat α τ)} {i n stop : Nat}

def Piece.Covers (p : Piece Nat α τ) (i : Nat) : Prop := p.off ≤ i ∧ i < p.stop

def Covers (qs : List (Piece Nat α τ)) (i : Nat) : Prop := ∃ q ∈ qs, q.Covers i

/-- In order and apart. -/
def Sorted (qs : List (Piece Nat α τ)) : Prop := qs.Pairwise fun p q => p.stop ≤ q.off

theorem Piece.stop_nat (p : Piece Nat α τ) : p.stop = p.off + p.data.length := rfl

theorem Piece.off_le_stop (p : Piece Nat α τ) : p.off ≤ p.stop := Nat.le_add_right ..

@[simp] theorem Piece.cut_off (p : Piece Nat α τ) (i : Nat) : (p.cut i).off = p.off + i := rfl

theorem Piece.cut_stop (hi : i ≤ p.data.length) : (p.cut i).stop = p.stop := by
  change p.off + i + (p.data.drop i).length = p.off + p.data.length
  rw [List.length_drop]
  omega

@[simp] theorem Piece.cut_zero (p : Piece Nat α τ) : p.cut 0 = p := rfl

theorem covers_nil : ¬Covers ([] : List (Piece Nat α τ)) i := by simp [Covers]

theorem covers_cons : Covers (q :: qs) i ↔ q.Covers i ∨ Covers qs i := by simp [Covers]

theorem covers_append : Covers (before ++ after) i ↔ Covers before i ∨ Covers after i := by
  simp [Covers, or_and_right, exists_or]

theorem sorted_cons : Sorted (q :: qs) ↔ (∀ q' ∈ qs, q.stop ≤ q'.off) ∧ Sorted qs :=
  List.pairwise_cons

/-- Cutting a piece takes away what is in front of the cut. -/
theorem covers_cut (hn : n ≤ p.data.length) : (p.cut n).Covers i ↔ p.Covers i ∧ p.off + n ≤ i := by
  rw [Piece.Covers, Piece.Covers, Piece.cut_stop hn, Piece.cut_off]
  omega

/-- A property of pieces that a cut keeps. -/
def CutStable (P : Piece Nat α τ → Prop) : Prop :=
  ∀ p n, n < p.data.length → P p → P (p.cut n)

-- ---------------------------------------------------------------------------
-- Behind a new piece
-- ---------------------------------------------------------------------------

theorem absorb_cons (stop : Nat) (q : Piece Nat α τ) (qs : List (Piece Nat α τ)) :
    absorb stop (q :: qs) =
      if stop ≤ q.off then q :: qs
      else if stop < q.stop then q.cut (stop - q.off) :: qs
      else absorb stop qs := by
  rw [absorb]
  dsimp only [sub_nat]
  rw [Piece.stop_nat]
  split_ifs <;> first | rfl | omega | skip
  congr 2
  omega

/-- The pieces that are left begin at the end of the new one or after it. -/
theorem absorb_sorted (stop : Nat) (h : Sorted qs) :
    Sorted (absorb stop qs) ∧ ∀ q ∈ absorb stop qs, stop ≤ q.off := by
  induction qs with
  | nil => exact ⟨List.Pairwise.nil, by simp [absorb]⟩
  | cons q qs ih =>
    obtain ⟨hq, hqs⟩ := sorted_cons.mp h
    have hle := q.off_le_stop
    rw [absorb_cons]
    split_ifs with hfree hpart
    · refine ⟨h, List.forall_mem_cons.mpr ⟨hfree, fun q' hq' => ?_⟩⟩
      have hq' := hq q' hq'
      omega
    · have hcut : (q.cut (stop - q.off)).stop = q.stop :=
        Piece.cut_stop (by rw [Piece.stop_nat] at hpart; omega)
      refine ⟨sorted_cons.mpr ⟨fun q' hq' => hcut ▸ hq q' hq', hqs⟩,
        List.forall_mem_cons.mpr ⟨?_, fun q' hq' => ?_⟩⟩
      · rw [Piece.cut_off]
        omega
      · have hq' := hq q' hq'
        omega
    · exact ih hqs

theorem covers_absorb (h : Sorted qs) :
    Covers (absorb stop qs) i ↔ Covers qs i ∧ stop ≤ i := by
  induction qs with
  | nil => simp [absorb, covers_nil]
  | cons q qs ih =>
    obtain ⟨hq, hqs⟩ := sorted_cons.mp h
    have hlater : Covers qs i → q.stop ≤ i := by
      rintro ⟨q', hq', hi⟩
      exact (hq q' hq').trans hi.1
    have hle := q.off_le_stop
    rw [absorb_cons]
    split_ifs with hfree hpart
    · rw [covers_cons]
      refine ⟨fun hi => ⟨hi, ?_⟩, And.left⟩
      rcases hi with hi | hi
      · exact hfree.trans hi.1
      · have hi := hlater hi
        omega
    · rw [covers_cons, covers_cons, covers_cut (by rw [Piece.stop_nat] at hpart; omega)]
      constructor
      · rintro (⟨hi, hcut⟩ | hi)
        · exact ⟨.inl hi, by omega⟩
        · have hstop := hlater hi
          exact ⟨.inr hi, by omega⟩
      · rintro ⟨hi | hi, hstop⟩
        · exact .inl ⟨hi, by omega⟩
        · exact .inr hi
    · rw [ih hqs, covers_cons]
      refine ⟨fun ⟨hi, hstop⟩ => ⟨.inr hi, hstop⟩, fun ⟨hi, hstop⟩ => ⟨hi.resolve_left ?_, hstop⟩⟩
      intro hcov
      have hcov := hcov.2
      omega

theorem forall_mem_absorb {P : Piece Nat α τ → Prop} (hcut : CutStable P) (h : ∀ q ∈ qs, P q) :
    ∀ q ∈ absorb stop qs, P q := by
  induction qs with
  | nil => exact h
  | cons q qs ih =>
    obtain ⟨hq, hqs⟩ := List.forall_mem_cons.mp h
    rw [absorb_cons]
    split_ifs with hfree hpart
    · exact h
    · refine List.forall_mem_cons.mpr ⟨hcut q _ ?_ hq, hqs⟩
      rw [Piece.stop_nat] at hpart
      omega
    · exact ih hqs

-- ---------------------------------------------------------------------------
-- A new piece
-- ---------------------------------------------------------------------------

theorem around_spec (h : Sorted qs) :
    ∃ before after, around p qs = (before, after) ∧ qs = before ++ after ∧
      (∀ q ∈ before, q.off ≤ p.off) ∧ ∀ q ∈ after, p.off < q.off := by
  refine ⟨_, _, List.span_eq_takeWhile_dropWhile .., List.takeWhile_append_dropWhile.symm, ?_, ?_⟩
  · intro q hq
    have hle := List.mem_takeWhile_imp hq
    simp only [sub_nat, decide_eq_true_eq] at hle
    omega
  · induction qs with
    | nil => simp
    | cons q qs ih =>
      obtain ⟨hq, hqs⟩ := sorted_cons.mp h
      rw [List.dropWhile_cons]
      split_ifs with hle
      · exact ih hqs
      · simp only [sub_nat, decide_eq_true_eq] at hle
        refine List.forall_mem_cons.mpr ⟨by omega, fun q' hq' => ?_⟩
        have hstop := hq q' hq'
        have hle := q.off_le_stop
        omega

/-- Where the piece in front ends. -/
theorem overlap_spec (h : Sorted before) (hbefore : ∀ q ∈ before, q.off ≤ p.off) :
    ∃ n, (∀ q ∈ before, q.stop ≤ p.off + n) ∧
      (overlap before p ≤ 0 ∧ n = 0 ∨
        overlap before p = n ∧ 0 < n ∧ ∃ q ∈ before, q.off ≤ p.off ∧ q.stop = p.off + n) := by
  induction before using List.reverseRecOn with
  | nil => exact ⟨0, by simp, .inl ⟨le_rfl, rfl⟩⟩
  | append_singleton qs q _ =>
    have hlast : (qs ++ [q]).getLast? = some q := by simp
    obtain ⟨-, -, hapart⟩ := List.pairwise_append.mp h
    have hq := hbefore q (by simp)
    have hstops : ∀ q' ∈ qs ++ [q], q'.stop ≤ q.stop := by
      intro q' hq'
      rcases List.mem_append.mp hq' with hq' | hq'
      · exact (hapart q' hq' q (by simp)).trans q.off_le_stop
      · rw [List.mem_singleton.mp hq']
    rw [overlap, hlast]
    dsimp only [sub_nat]
    rcases Nat.le_total q.stop p.off with hle | hle
    · exact ⟨0, fun q' hq' => (hstops q' hq').trans hle, .inl ⟨by omega, rfl⟩⟩
    · refine ⟨q.stop - p.off, fun q' hq' => (hstops q' hq').trans (by omega), ?_⟩
      rcases hle.eq_or_lt with heq | hlt
      · exact .inl ⟨by omega, by omega⟩
      · exact .inr ⟨by omega, by omega, q, by simp, hq, by omega⟩

/-- The first `n` values of a piece are there already, and either nothing else is in it or the rest
goes between the pieces in front and what it leaves of those behind. -/
theorem insert_spec (p : Piece Nat α τ) (h : Sorted qs) :
    ∃ before after n, qs = before ++ after ∧ (∀ q ∈ before, q.stop ≤ p.off + n) ∧
      (∀ i, p.off ≤ i → i < p.off + n → Covers before i) ∧ (∀ q ∈ after, p.off + n ≤ q.off) ∧
      (insert p qs = none ∧ p.data.length ≤ n ∨
        insert p qs = some (before ++ p.cut n :: absorb p.stop after) ∧
          (n < p.data.length ∨ n = 0)) := by
  obtain ⟨before, after, haround, rfl, hbefore, hafter⟩ := around_spec (p := p) h
  obtain ⟨hsorted, -, hapart⟩ := List.pairwise_append.mp h
  obtain ⟨n, hstops, hoverlap⟩ := overlap_spec hsorted hbefore
  rw [insert, haround]
  dsimp only
  rcases hoverlap with ⟨hfree, rfl⟩ | ⟨hover, hpos, q, hq, hoff, hstop⟩
  · refine ⟨before, after, 0, rfl, hstops, by omega, fun q hq => (hafter q hq).le, .inr ⟨?_, .inr rfl⟩⟩
    rw [if_neg (by omega), Piece.cut_zero]
  · refine ⟨before, after, n, rfl, hstops, fun i hi hlt => ⟨q, hq, ?_⟩, fun r hr => ?_, ?_⟩
    · rw [Piece.Covers]
      omega
    · exact hstop ▸ hapart q hq r hr
    · rw [hover, if_pos (by omega)]
      split_ifs with hall
      · exact .inl ⟨rfl, by omega⟩
      · refine .inr ⟨?_, .inl (by omega)⟩
        rw [Int.toNat_natCast, Piece.cut_stop (by omega)]

theorem insert_sorted (h : Sorted qs) (hinsert : insert p qs = some qs') : Sorted qs' := by
  obtain ⟨before, after, n, rfl, hstops, -, hafter, hcases⟩ := insert_spec p h
  obtain ⟨hsorted, hsorted', -⟩ := List.pairwise_append.mp h
  rcases hcases with ⟨hnone, -⟩ | ⟨hsome, hn⟩
  · rw [hnone] at hinsert
    cases hinsert
  · obtain rfl := Option.some.inj (hsome.symm.trans hinsert)
    have hlen : p.off + n ≤ p.stop := by
      rw [Piece.stop_nat]
      omega
    obtain ⟨habsorb, hbehind⟩ := absorb_sorted p.stop hsorted'
    have hcut : (p.cut n).stop = p.stop := Piece.cut_stop (by omega)
    refine List.pairwise_append.mpr ⟨hsorted, sorted_cons.mpr ⟨?_, habsorb⟩, ?_⟩
    · rw [hcut]
      exact hbehind
    · intro q hq
      refine List.forall_mem_cons.mpr ⟨hstops q hq, fun r hr => ?_⟩
      exact ((hstops q hq).trans hlen).trans (hbehind r hr)

theorem insert_ne_nil (h : Sorted qs) (hinsert : insert p qs = some qs') : qs' ≠ [] := by
  obtain ⟨before, after, n, -, -, -, -, hcases⟩ := insert_spec p h
  rcases hcases with ⟨hnone, -⟩ | ⟨hsome, -⟩
  · rw [hnone] at hinsert
    cases hinsert
  · obtain rfl := Option.some.inj (hsome.symm.trans hinsert)
    simp

/-- The union of what was there and the new piece. -/
theorem covers_insert (h : Sorted qs) (hinsert : insert p qs = some qs') :
    Covers qs' i ↔ Covers qs i ∨ p.Covers i := by
  obtain ⟨before, after, n, rfl, -, hthere, hafter, hcases⟩ := insert_spec p h
  obtain ⟨-, hsorted', -⟩ := List.pairwise_append.mp h
  rcases hcases with ⟨hnone, -⟩ | ⟨hsome, hn⟩
  · rw [hnone] at hinsert
    cases hinsert
  · obtain rfl := Option.some.inj (hsome.symm.trans hinsert)
    rw [covers_append, covers_cons, covers_append, covers_absorb hsorted', covers_cut (by omega)]
    constructor
    · rintro (hi | ⟨hi, -⟩ | ⟨hi, -⟩)
      · exact .inl (.inl hi)
      · exact .inr hi
      · exact .inl (.inr hi)
    · rintro ((hi | hi) | hi)
      · exact .inl hi
      · rcases Nat.lt_or_ge i p.stop with hlt | hge
        · obtain ⟨q, hq, hoff, -⟩ := hi
          have hq := hafter q hq
          exact .inr (.inl ⟨⟨by omega, hlt⟩, by omega⟩)
        · exact .inr (.inr ⟨hi, hge⟩)
      · rcases Nat.lt_or_ge i (p.off + n) with hlt | hge
        · exact .inl (hthere i hi.1 hlt)
        · exact .inr (.inl ⟨hi, hge⟩)

/-- A piece that is not inserted was there. -/
theorem covers_of_insert_none (h : Sorted qs) (hinsert : insert p qs = none)
    (hi : p.Covers i) : Covers qs i := by
  obtain ⟨before, after, n, rfl, -, hthere, -, hcases⟩ := insert_spec p h
  rcases hcases with ⟨-, hlen⟩ | ⟨hsome, -⟩
  · have hlt := hi.2
    rw [Piece.stop_nat] at hlt
    exact covers_append.mpr (.inl (hthere i hi.1 (by omega)))
  · rw [hsome] at hinsert
    cases hinsert

theorem forall_mem_insert {P : Piece Nat α τ → Prop} (hcut : CutStable P) (h : Sorted qs)
    (hqs : ∀ q ∈ qs, P q) (hp : P p) (hinsert : insert p qs = some qs') : ∀ q ∈ qs', P q := by
  obtain ⟨before, after, n, rfl, -, -, -, hcases⟩ := insert_spec p h
  obtain ⟨hbefore, hafter⟩ := List.forall_mem_append.mp hqs
  rcases hcases with ⟨hnone, -⟩ | ⟨hsome, hn⟩
  · rw [hnone] at hinsert
    cases hinsert
  · obtain rfl := Option.some.inj (hsome.symm.trans hinsert)
    refine List.forall_mem_append.mpr ⟨hbefore,
      List.forall_mem_cons.mpr ⟨?_, forall_mem_absorb hcut hafter⟩⟩
    rcases hn with hn | rfl
    · exact hcut p n hn hp
    · exact hp

-- ---------------------------------------------------------------------------
-- Without gaps
-- ---------------------------------------------------------------------------

/-- Where pieces without a gap end. -/
def joined (next : Nat) : List (Piece Nat α τ) → Option Nat
  | [] => some next
  | q :: qs => if q.off ≠ next then none else joined (next + q.data.length) qs

/-- Pieces of one sequence. -/
def Agrees (f : Nat → α) (p : Piece Nat α τ) : Prop :=
  ∀ i x, p.data[i]? = some x → x = f (p.off + i)

theorem agrees_cutStable (f : Nat → α) : CutStable (Agrees f : Piece Nat α τ → Prop) := by
  intro p n hn hp i x hx
  have hx : p.data[n + i]? = some x := by
    rw [← List.getElem?_drop]
    exact hx
  rw [hp _ x hx, Piece.cut_off, Nat.add_assoc]

theorem Agrees.data_eq {f : Nat → α} (h : Agrees f p) :
    p.data = (List.range' p.off p.data.length).map f := by
  apply List.ext_getElem
  · simp
  · intro i hi hi'
    rw [List.getElem_map, List.getElem_range', Nat.one_mul]
    exact h i _ (List.getElem?_eq_getElem hi)

/-- Without a gap, the data are the sequence. -/
theorem joined_data {f : Nat → α} {m : Nat} (hqs : ∀ q ∈ qs, Agrees f q)
    (hjoined : joined n qs = some m) :
    qs.flatMap (·.data) = (List.range' n (m - n)).map f ∧ n ≤ m := by
  induction qs generalizing n with
  | nil =>
    obtain rfl := Option.some.inj hjoined
    simp
  | cons q qs ih =>
    obtain ⟨hq, hqs⟩ := List.forall_mem_cons.mp hqs
    rw [joined] at hjoined
    split_ifs at hjoined with hoff
    obtain ⟨hdata, hle⟩ := ih hqs hjoined
    have hoff : q.off = n := not_not.mp hoff
    refine ⟨?_, by omega⟩
    rw [List.flatMap_cons, hdata, hq.data_eq, hoff, List.length_map, List.length_range',
      ← List.map_append, List.range'_append_1]
    congr 2
    omega

theorem joined_last {m : Nat} (hjoined : joined n qs = some m) (hlast : qs.getLast? = some q) :
    m = q.stop := by
  induction qs generalizing n with
  | nil => cases hlast
  | cons r qs ih =>
    rw [joined] at hjoined
    split_ifs at hjoined with hoff
    cases qs with
    | nil =>
      obtain rfl : r = q := by simpa using hlast
      rw [← Option.some.inj hjoined, ← not_not.mp hoff]
      rfl
    | cons r' qs => exact ih hjoined (by simpa using hlast)

/-- There is no gap exactly when everything up to the end is covered. -/
theorem joined_iff (h : Sorted qs) (hfrom : ∀ q ∈ qs, n ≤ q.off) {m : Nat}
    (hstop : ∀ q ∈ qs, q.stop ≤ m) :
    joined n qs = some m ↔ n ≤ m ∧ ∀ i, n ≤ i → i < m → Covers qs i := by
  induction qs generalizing n with
  | nil =>
    simp only [joined, Option.some.injEq, covers_nil]
    constructor
    · rintro rfl
      exact ⟨le_rfl, by omega⟩
    · rintro ⟨hle, hall⟩
      by_contra hne
      exact hall n le_rfl (by omega)
  | cons q qs ih =>
    obtain ⟨hq, hqs⟩ := sorted_cons.mp h
    obtain ⟨hqm, hstop⟩ := List.forall_mem_cons.mp hstop
    have hnq := hfrom q (List.mem_cons_self ..)
    have hle := q.off_le_stop
    rw [joined]
    split_ifs with hoff
    · simp only [false_iff, not_and, not_forall]
      intro hnm
      refine ⟨n, le_rfl, by omega, ?_⟩
      rw [covers_cons]
      rintro (hcov | ⟨r, hr, hcov⟩)
      · have hcov := hcov.1
        omega
      · have hr := hq r hr
        have hcov := hcov.1
        omega
    · obtain rfl : q.off = n := not_not.mp hoff
      rw [← Piece.stop_nat, ih hqs hq hstop]
      constructor
      · rintro ⟨hsm, hall⟩
        refine ⟨by omega, fun i hi hlt => covers_cons.mpr ?_⟩
        rcases Nat.lt_or_ge i q.stop with hin | hout
        · exact .inl ⟨hi, hin⟩
        · exact .inr (hall i hout hlt)
      · rintro ⟨-, hall⟩
        refine ⟨hqm, fun i hi hlt => ?_⟩
        refine (covers_cons.mp (hall i (by omega) hlt)).resolve_left fun hcov => ?_
        have hcov := hcov.2
        omega

end Numbers

-- ---------------------------------------------------------------------------
-- Offsets that stand for numbers
-- ---------------------------------------------------------------------------

section Positions

variable {pos : Nat → σ} {lo hi stop : Nat} {p : Piece Nat α τ} {qs before : List (Piece Nat α τ)}

/-- The offsets of the positions from `lo` to `hi` behave like the positions. -/
structure Positions (pos : Nat → σ) (lo hi : Nat) : Prop where
  sub_pos : ∀ a b, lo ≤ a → a ≤ hi → lo ≤ b → b ≤ hi → sub (pos a) (pos b) = (a : Int) - b
  shift_pos : ∀ a n, shift (pos a) n = pos (a + n)

def Piece.map (pos : Nat → σ) (p : Piece Nat α τ) : Piece σ α τ := ⟨pos p.off, p.data, p.tag⟩

def Piece.Within (lo hi : Nat) (p : Piece Nat α τ) : Prop := lo ≤ p.off ∧ p.stop ≤ hi

theorem Positions.map_stop (h : Positions pos lo hi) (p : Piece Nat α τ) :
    (p.map pos).stop = pos p.stop := h.shift_pos ..

theorem Positions.map_cut (h : Positions pos lo hi) (p : Piece Nat α τ) (i : Nat) :
    (p.map pos).cut i = (p.cut i).map pos := by
  rw [Piece.cut, Piece.map, Piece.map, Piece.cut]
  congr 1
  exact h.shift_pos ..

theorem Positions.absorb_map (h : Positions pos lo hi) (hlo : lo ≤ stop) (hhi : stop ≤ hi)
    (hqs : ∀ q ∈ qs, q.Within lo hi) :
    absorb (pos stop) (qs.map (Piece.map pos)) = (absorb stop qs).map (Piece.map pos) := by
  induction qs with
  | nil => rfl
  | cons q qs ih =>
    obtain ⟨⟨hoff, hstop⟩, hqs⟩ := List.forall_mem_cons.mp hqs
    have hle := q.off_le_stop
    have hsub : sub (pos stop) (q.map pos).off = (stop : Int) - q.off :=
      h.sub_pos _ _ hlo hhi hoff (by omega)
    rw [List.map_cons, absorb, absorb]
    dsimp only [sub_nat]
    rw [hsub, h.map_cut, ih hqs]
    have hdata : (q.map pos).data = q.data := rfl
    rw [hdata]
    split_ifs <;> rfl

theorem Positions.around_map (h : Positions pos lo hi) (hp : p.Within lo hi)
    (hqs : ∀ q ∈ qs, q.Within lo hi) :
    around (p.map pos) (qs.map (Piece.map pos)) =
      ((around p qs).1.map (Piece.map pos), (around p qs).2.map (Piece.map pos)) := by
  have hle := p.off_le_stop
  obtain ⟨hlo, hhi⟩ := hp
  have hsub (q : Piece Nat α τ) (hq : q.Within lo hi) :
      decide (sub (q.map pos).off (p.map pos).off ≤ 0) = decide (sub q.off p.off ≤ 0) := by
    obtain ⟨hoff, hstop⟩ := hq
    have hle' := q.off_le_stop
    rw [show sub (q.map pos).off (p.map pos).off = (q.off : Int) - p.off from
      h.sub_pos _ _ hoff (by omega) hlo (by omega)]
    rfl
  rw [around, around, List.span_eq_takeWhile_dropWhile, List.span_eq_takeWhile_dropWhile]
  induction qs with
  | nil => rfl
  | cons q qs ih =>
    obtain ⟨hq, hqs⟩ := List.forall_mem_cons.mp hqs
    have ih := Prod.mk.inj (ih hqs)
    rw [List.map_cons, List.takeWhile_cons, List.dropWhile_cons, List.takeWhile_cons,
      List.dropWhile_cons, hsub q hq]
    split_ifs
    · rw [ih.1, ih.2, List.map_cons]
    · rfl

theorem Positions.overlap_map (h : Positions pos lo hi) (hp : p.Within lo hi)
    (hbefore : ∀ q ∈ before, q.Within lo hi) :
    overlap (before.map (Piece.map pos)) (p.map pos) = overlap before p := by
  rw [overlap, overlap, List.getLast?_map]
  cases hlast : before.getLast? with
  | none => rfl
  | some q =>
    obtain ⟨hoff, hstop⟩ := hbefore q (List.mem_of_getLast? hlast)
    have hle := q.off_le_stop
    have hle' := p.off_le_stop
    rw [Option.map_some]
    dsimp only
    rw [h.map_stop]
    exact h.sub_pos _ _ (by omega) hstop hp.1 (by have hp := hp.2; omega)

/-- Insertion by the offsets is insertion by the positions. -/
theorem Positions.insert_map (h : Positions pos lo hi) (hp : p.Within lo hi)
    (hqs : ∀ q ∈ qs, q.Within lo hi) :
    insert (p.map pos) (qs.map (Piece.map pos)) = (insert p qs).map (List.map (Piece.map pos)) := by
  have hsplit : (around p qs).1 ++ (around p qs).2 = qs := by
    rw [around, List.span_eq_takeWhile_dropWhile]
    exact List.takeWhile_append_dropWhile
  obtain ⟨hbefore, hafter⟩ := List.forall_mem_append.mp (hsplit.symm ▸ hqs)
  have hdata : (p.map pos).data = p.data := rfl
  have hle := p.off_le_stop
  rw [insert, insert, h.around_map hp hqs]
  dsimp only
  rw [h.overlap_map hp hbefore, hdata, h.map_cut, h.map_stop, h.map_stop]
  split_ifs with hover hall
  · rfl
  · have hcut : (p.cut (overlap (around p qs).1 p).toNat).stop = p.stop := Piece.cut_stop (by omega)
    have hp1 := hp.1
    rw [hcut, h.absorb_map (by omega) hp.2 hafter]
    simp
  · have hp1 := hp.1
    rw [h.absorb_map (by omega) hp.2 hafter]
    simp

end Positions

end SheepShear.Pieces
