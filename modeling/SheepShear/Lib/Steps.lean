import Mathlib

/-!
# Runs of labelled steps

A system is a function that takes a state and a label to the next state, or to
none when the step is not enabled. Runs are sequences of labels; a guard on the
steps says which runs a result is about.
-/

namespace SheepShear.Steps

variable {σ α : Type} {step : σ → α → Option σ} {guard : σ → α → Prop} {s₀ s s' : σ}

/-- The states of the runs whose steps all meet the guard. -/
inductive Reaches (step : σ → α → Option σ) (guard : σ → α → Prop) (s₀ : σ) : σ → Prop where
  | start : Reaches step guard s₀ s₀
  | next {s s' : σ} {a : α} : Reaches step guard s₀ s → guard s a → step s a = some s' →
    Reaches step guard s₀ s'

/-- The invariant rule. -/
theorem Reaches.invariant {Inv : σ → Prop} (h : Reaches step guard s₀ s) (hstart : Inv s₀)
    (hstep : ∀ {s s' a}, Inv s → guard s a → step s a = some s' → Inv s') : Inv s := by
  induction h with
  | start => exact hstart
  | next _ hg hs ih => exact hstep ih hg hs

def run (step : σ → α → Option σ) : σ → List α → Option σ
  | s, [] => some s
  | s, a :: as => (step s a).bind fun s' => run step s' as

/-- Every step of the run of these labels meets the guard. -/
def Guarded (step : σ → α → Option σ) (guard : σ → α → Prop) : σ → List α → Prop
  | _, [] => True
  | s, a :: as => guard s a ∧
    match step s a with
    | some s' => Guarded step guard s' as
    | none => True

theorem guarded_cons {a : α} {as : List α} :
    Guarded step guard s (a :: as) ↔ guard s a ∧ ∀ s' ∈ step s a, Guarded step guard s' as := by
  rw [Guarded]
  cases step s a with
  | none => simp
  | some s' => simp

/-- Whether a run meets the guard can be computed. -/
instance instDecidableGuarded [∀ s a, Decidable (guard s a)] :
    ∀ (s : σ) (as : List α), Decidable (Guarded step guard s as)
  | _, [] => inferInstanceAs (Decidable True)
  | _, _ :: as =>
    have : ∀ s', Decidable (Guarded step guard s' as) := fun s' => instDecidableGuarded s' as
    decidable_of_iff _ guarded_cons.symm

theorem Guarded.imp {guard' : σ → α → Prop} {as : List α} (h : Guarded step guard s as)
    (himp : ∀ a ∈ as, ∀ s, guard s a → guard' s a) : Guarded step guard' s as := by
  induction as generalizing s with
  | nil => trivial
  | cons a as ih =>
    obtain ⟨ha, hrest⟩ := guarded_cons.mp h
    exact guarded_cons.mpr ⟨himp a (List.mem_cons_self ..) s ha,
      fun s' hs' => ih (hrest s' hs') fun b hb => himp b (List.mem_cons_of_mem a hb)⟩

theorem Reaches.run_append (h : Reaches step guard s₀ s) {as : List α}
    (hrun : run step s as = some s') (hguard : Guarded step guard s as) :
    Reaches step guard s₀ s' := by
  induction as generalizing s with
  | nil => exact Option.some.inj hrun ▸ h
  | cons a as ih =>
    obtain ⟨s₁, hs₁, hrun⟩ := Option.bind_eq_some_iff.mp hrun
    obtain ⟨ha, hguard⟩ := hguard
    rw [hs₁] at hguard
    exact ih (h.next ha hs₁) hrun hguard

/-- A guard that depends on the labels alone. -/
theorem guarded_of_forall {as : List α} (h : ∀ a ∈ as, ∀ s, guard s a) (s : σ) :
    Guarded step guard s as := by
  induction as generalizing s with
  | nil => trivial
  | cons a as ih =>
    obtain ⟨ha, has⟩ := List.forall_mem_cons.mp h
    refine ⟨ha s, ?_⟩
    cases step s a with
    | none => trivial
    | some s' => exact ih has s'

theorem guarded_true (s : σ) (as : List α) : Guarded step (fun _ _ => True) s as :=
  guarded_of_forall (fun _ _ _ => trivial) s

/-- A sequence of labels that runs is a run. -/
theorem reaches_of_run {as : List α} (hrun : run step s as = some s') :
    Reaches step (fun _ _ => True) s s' :=
  Reaches.start.run_append hrun (guarded_true s as)

/-- What holds at the end of a run exactly if every step meets the guard: a step that does not
breaks it, and no later step mends it. -/
theorem good_iff_guarded {Inv Good : σ → Prop} (hgood : ∀ {s}, Inv s → Good s)
    (hstep : ∀ {s s' a}, Inv s → guard s a → step s a = some s' → Inv s')
    (hbreak : ∀ {s s' a}, Inv s → ¬guard s a → step s a = some s' → ¬Good s')
    (hkeep : ∀ {s s' a}, step s a = some s' → Good s' → Good s)
    {as : List α} (hinv : Inv s) (hrun : run step s as = some s') :
    Good s' ↔ Guarded step guard s as := by
  have hback : ∀ (as : List α) {s}, run step s as = some s' → Good s' → Good s := by
    intro as
    induction as with
    | nil => exact fun hrun => Option.some.inj hrun ▸ id
    | cons a as ih =>
      intro s hrun hs'
      obtain ⟨s₁, hs₁, hrun⟩ := Option.bind_eq_some_iff.mp hrun
      exact hkeep hs₁ (ih hrun hs')
  induction as generalizing s with
  | nil =>
    obtain rfl := Option.some.inj hrun
    exact iff_of_true (hgood hinv) trivial
  | cons a as ih =>
    obtain ⟨s₁, hs₁, hrun⟩ := Option.bind_eq_some_iff.mp hrun
    rw [Guarded, hs₁]
    constructor
    · intro hs'
      have ha : guard s a := by
        by_contra ha
        exact hbreak hinv ha hs₁ (hback as hrun hs')
      exact ⟨ha, (ih (hstep hinv ha hs₁) hrun).mp hs'⟩
    · rintro ⟨ha, hrest⟩
      exact (ih (hstep hinv ha hs₁) hrun).mpr hrest

end SheepShear.Steps
