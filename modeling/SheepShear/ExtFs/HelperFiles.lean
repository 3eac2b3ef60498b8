import SheepShear.ExtFs.Paths
import SheepShear.Lib.FileTree

/-!
# Files and their helper files

`extfs_remove` and `extfs_rename` first remove or rename the helper files of an
object, in the directories `.finf` and `.rsrc` beside it, and then the object.
The host decides how each call ends; a call that ends well does what the tree
of files says.
-/

namespace SheepShear.ExtFs.HelperFiles

open FileTree (Tree Entry)

/-- A path has a last component, with a directory before it. -/
structure ItemPath where
  dir : List String
  name : String
deriving DecidableEq

def ItemPath.path (p : ItemPath) : List String := p.dir ++ [p.name]

/-- The directories of helper files. -/
def dirName : Helper → String
  | .finf => ".finf"
  | .rsrc => ".rsrc"

/-- `make_helper_path`. -/
def ItemPath.helperPath (p : ItemPath) (h : Helper) : List String := p.dir ++ [dirName h, p.name]

/-- `make_helper_path` with `only_dir`. -/
def ItemPath.helperDir (p : ItemPath) (h : Helper) : List String := p.dir ++ [dirName h]

inductive Errno where
  | isDir
  | notEmpty
  | other
deriving DecidableEq

/-- How a system call ends. -/
inductive Outcome where
  | ok
  | fails (errno : Errno)
deriving DecidableEq

variable {C : Type}

/-- The tree after a call that ends so, when it can. -/
def Outcome.after (o : Outcome) (t : Tree String C) (done : Option (Tree String C)) :
    Option (Tree String C) :=
  match o with
  | .ok => done
  | .fails _ => some t

structure RemoveOutcomes where
  helper : Helper → Outcome
  main : Outcome
  rmdirHelper : Helper → Outcome
  rmdir : Outcome

/-- `remove` found a directory with something in it. -/
def Outcome.retry : Outcome → Bool
  | .ok => false
  | .fails errno => errno = .isDir ∨ errno = .notEmpty

/-- `extfs_remove`. -/
def extfsRemove (t : Tree String C) (p : ItemPath) (o : RemoveOutcomes) :
    Option (Tree String C × Bool) := do
  let t ← (o.helper .finf).after t (t.remove (p.helperPath .finf))
  let t ← (o.helper .rsrc).after t (t.remove (p.helperPath .rsrc))
  let t ← o.main.after t (t.remove p.path)
  if o.main.retry then
    let t ← (o.rmdirHelper .finf).after t (t.rmdir (p.path ++ [dirName .finf]))
    let t ← (o.rmdirHelper .rsrc).after t (t.rmdir (p.path ++ [dirName .rsrc]))
    let t ← o.rmdir.after t (t.rmdir p.path)
    return (t, o.rmdir = .ok)
  else return (t, o.main = .ok)

structure RenameOutcomes where
  mkdir : Helper → Outcome
  rename : Helper → Outcome
  main : Outcome

/-- `create_helper_dir`, and the renaming of a helper file. -/
def renameHelper (t : Tree String C) (old new : ItemPath) (o : RenameOutcomes) (h : Helper) :
    Option (Tree String C) := do
  let t ← (o.mkdir h).after t (t.mkdir (new.helperDir h))
  (o.rename h).after t (t.rename (old.helperPath h) (new.helperPath h))

/-- `extfs_rename`. -/
def extfsRename (t : Tree String C) (old new : ItemPath) (o : RenameOutcomes) :
    Option (Tree String C × Bool) := do
  let t ← renameHelper t old new o .finf
  let t ← renameHelper t old new o .rsrc
  let t ← o.main.after t (t.rename old.path new.path)
  return (t, o.main = .ok)

inductive Call where
  | remove (p : ItemPath) (o : RemoveOutcomes)
  | rename (old new : ItemPath) (o : RenameOutcomes)

/-- None when the host's calls cannot end so on the tree. -/
def Call.run (t : Tree String C) : Call → Option (Tree String C × Bool)
  | .remove p o => extfsRemove t p o
  | .rename old new o => extfsRename t old new o

-- ---------------------------------------------------------------------------
-- What is wanted
-- ---------------------------------------------------------------------------

/-- Nothing changed, but empty directories for helper files may be new. -/
def Unchanged (new : ItemPath) (t t' : Tree String C) : Prop :=
  ∀ q, t'.at_ q = t.at_ q ∨
    (∃ h, q = new.helperDir h) ∧ t.at_ q = none ∧ t'.at_ q = some .dir ∧ t'.leaf q

/-- A call that fails changes nothing, and an object that was renamed has its helper files and no
others. -/
def Call.Good (t t' : Tree String C) (result : Bool) : Call → Prop
  | .remove _ _ => result = false → ∀ q, t'.at_ q = t.at_ q
  | .rename old new _ =>
    (result = false → Unchanged new t t') ∧
      (result = true → ∀ h q, t'.at_ (new.helperPath h ++ q) = t.at_ (old.helperPath h ++ q))

/-- No path of a call of `extfs_rename` is that of another, or inside it. -/
structure Clear (old new : ItemPath) : Prop where
  object : ∀ h, old.path <+: new.helperPath h → old.path <+: new.dir
  object' : ∀ h, ¬ new.helperPath h <+: old.path
  target : ∀ h, ¬ new.path <+: new.helperPath h
  helper : ∀ h h', h ≠ h' → ¬ old.helperPath h <+: new.helperPath h'
  helper' : ∀ h h', h ≠ h' → ¬ new.helperPath h' <+: old.helperPath h
  made : ∀ h h', ¬ old.helperPath h <+: new.helperDir h'

def Call.Clear : Call → Prop
  | .remove _ _ => True
  | .rename old new _ => HelperFiles.Clear old new

/-- When an object that stays keeps its helper files, and one that goes takes them along. -/
def Call.Cond (t : Tree String C) : Call → Prop
  | .remove _ o =>
    o.main = .ok ∨ o.main.retry ∧ o.rmdir = .ok ∨
      (∀ h, o.helper h ≠ .ok) ∧ (o.main.retry → ∀ h, o.rmdirHelper h ≠ .ok)
  | .rename old new o =>
    old = new ∨ o.main ≠ .ok ∧ (∀ h, o.rename h ≠ .ok) ∨
      o.main = .ok ∧ HelperFiles.Clear old new ∧
        ∀ h, o.rename h = .ok ∨ ∀ q, t.at_ (new.helperPath h ++ q) = t.at_ (old.helperPath h ++ q)

-- ---------------------------------------------------------------------------
-- Removing
-- ---------------------------------------------------------------------------

variable {t t₁ t' : Tree String C} {o : Outcome} {p old new : ItemPath}

/-- Calls that remove, one after the other. -/
inductive Removals : Tree String C → List Outcome → Tree String C → Prop where
  | nil {t : Tree String C} : Removals t [] t
  | cons {t t₁ t' : Tree String C} {o : Outcome} {os : List Outcome} {q : List String} :
    o.after t (t.remove q) = some t₁ → Removals t₁ os t' → Removals t (o :: os) t'

theorem Outcome.after_ne_ok {done : Option (Tree String C)} (ho : o ≠ .ok)
    (h : o.after t done = some t') : t' = t := by
  cases o with
  | ok => exact absurd rfl ho
  | fails => exact (Option.some.inj h).symm

/-- A call of `rmdir` removes when it ends well. -/
theorem Outcome.after_rmdir {q : List String} (h : o.after t (t.rmdir q) = some t') :
    o.after t (t.remove q) = some t' := by
  cases o with
  | ok => exact Tree.rmdir_remove h
  | fails => exact h

/-- What is gone stays gone. -/
theorem Removals.gone {os : List Outcome} (h : Removals t os t') {q : List String}
    (hq : t.at_ q = none) : t'.at_ q = none := by
  induction h with
  | nil => exact hq
  | @cons t t₁ t' o os r hcall _ ih =>
    refine ih ?_
    rcases eq_or_ne o .ok with rfl | ho
    · rw [(Tree.remove_some hcall).2]
      rcases eq_or_ne q r with rfl | hne
      · rw [Function.update_self]
      · rw [Function.update_of_ne hne, hq]
    · rw [Outcome.after_ne_ok ho hcall, hq]

/-- Calls that remove change nothing exactly if all of them fail. -/
theorem Removals.same_iff {os : List Outcome} (h : Removals t os t') :
    (∀ q, t'.at_ q = t.at_ q) ↔ ∀ o ∈ os, o ≠ .ok := by
  induction h with
  | nil => simp
  | @cons t t₁ t' o os r hcall hrest ih =>
    rcases eq_or_ne o .ok with rfl | ho
    · obtain ⟨hthere, hat⟩ := Tree.remove_some hcall
      refine iff_of_false ?_ (fun hall => hall _ List.mem_cons_self rfl)
      intro hsame
      have hgone := hrest.gone (q := r) (by rw [hat, Function.update_self])
      exact hthere (by rw [← hsame r, hgone])
    · obtain rfl := Outcome.after_ne_ok ho hcall
      rw [ih, List.forall_mem_cons]
      exact (and_iff_right ho).symm

theorem forall_helper {P : Helper → Prop} : (∀ h, P h) ↔ P .finf ∧ P .rsrc := by
  constructor
  · exact fun hall => ⟨hall _, hall _⟩
  · rintro ⟨hfinf, hrsrc⟩ h
    cases h
    · exact hfinf
    · exact hrsrc

theorem remove_good_iff {o : RemoveOutcomes} {result : Bool}
    (hrun : extfsRemove t p o = some (t', result)) :
    (Call.remove p o).Good t t' result ↔ (Call.remove p o).Cond t := by
  simp only [extfsRemove, Option.bind_eq_bind, Option.bind_eq_some_iff] at hrun
  obtain ⟨t₁, h₁, t₂, h₂, t₃, h₃, hrun⟩ := hrun
  simp only [Call.Good, Call.Cond]
  split at hrun
  next hretry =>
    simp only [Option.bind_eq_some_iff] at hrun
    obtain ⟨t₄, h₄, t₅, h₅, t₆, h₆, hrun⟩ := hrun
    cases hrun
    have hmain : o.main ≠ .ok := by
      intro hok
      rw [hok] at hretry
      cases hretry
    have hremovals := (Removals.cons h₁ (.cons h₂ (.cons h₃ (.cons (Outcome.after_rmdir h₄)
      (.cons (Outcome.after_rmdir h₅) (.cons (Outcome.after_rmdir h₆) .nil)))))).same_iff
    rw [hremovals, forall_helper, forall_helper]
    by_cases hok : o.rmdir = .ok <;> simp [hok, hmain, hretry, and_assoc]
  next hretry =>
    cases hrun
    have hremovals := (Removals.cons h₁ (.cons h₂ (.cons h₃ .nil))).same_iff
    rw [hremovals, forall_helper]
    by_cases hok : o.main = .ok <;> simp [hok, hretry]

-- ---------------------------------------------------------------------------
-- Renaming a helper file
-- ---------------------------------------------------------------------------

theorem dirName_injective : Function.Injective dirName := by
  intro h h' heq
  cases h <;> cases h' <;> first | rfl | exact absurd heq (by decide)

theorem helperPath_injective (h : Helper) :
    Function.Injective fun p : ItemPath => p.helperPath h := by
  rintro ⟨dir, name⟩ ⟨dir', name'⟩ heq
  obtain ⟨rfl, hnames⟩ := List.append_inj' heq rfl
  cases hnames
  rfl

theorem helperPath_apart {h h' : Helper} (hne : h ≠ h') :
    ¬ p.helperPath h <+: p.helperPath h' := by
  intro hpre
  have heq := hpre.eq_of_length (by simp [ItemPath.helperPath])
  obtain ⟨-, hnames⟩ := List.append_inj' heq rfl
  exact hne (dirName_injective (List.cons.inj hnames).1)

/-- A directory for helper files is not among them. -/
theorem helperPath_not_dir (h h' : Helper) : ¬ p.helperPath h <+: p.helperDir h' := by
  intro hpre
  have := hpre.length_le
  simp [ItemPath.helperPath, ItemPath.helperDir] at this

theorem Unchanged.of_eq (h : ∀ q, t'.at_ q = t.at_ q) : Unchanged new t t' := fun q => .inl (h q)

theorem Unchanged.trans (h : Unchanged new t t₁) (h' : Unchanged new t₁ t') :
    Unchanged new t t' := by
  intro q
  rcases h q with hsame | ⟨hq, hnone, hdir, hleaf⟩
  · rcases h' q with hsame' | ⟨hq, hnone, hdir, hleaf⟩
    · exact .inl (hsame'.trans hsame)
    · exact .inr ⟨hq, hsame ▸ hnone, hdir, hleaf⟩
  · have hkeeps : t'.at_ q = some .dir := by
      rcases h' q with hsame' | ⟨-, hnone', -⟩
      · rw [hsame', hdir]
      · simp [hdir] at hnone'
    refine .inr ⟨hq, hnone, hkeeps, Tree.leaf_iff.mpr ?_⟩
    intro n
    have hempty := Tree.leaf_iff.mp hleaf n
    rcases h' (q ++ [n]) with hsame' | ⟨⟨h₂, hdir₂⟩, -⟩
    · rw [hsame', hempty]
    · -- One directory for helper files is not inside the other.
      obtain ⟨h₁, rfl⟩ := hq
      have hlen := congrArg List.length hdir₂
      simp [ItemPath.helperDir] at hlen

/-- What does not have a new directory inside is as it was. -/
theorem Unchanged.subtree (h : Unchanged new t t') {x : List String}
    (hx : ∀ h, ¬ x <+: new.helperDir h) (q : List String) : t'.at_ (x ++ q) = t.at_ (x ++ q) := by
  rcases h (x ++ q) with hsame | ⟨⟨h', hdir⟩, -⟩
  · exact hsame
  · exact absurd ⟨q, hdir⟩ (hx h')

theorem after_mkdir_unchanged {h : Helper}
    (hcall : o.after t (t.mkdir (new.helperDir h)) = some t') : Unchanged new t t' := by
  rcases eq_or_ne o .ok with rfl | ho
  · obtain ⟨hfree, hat⟩ := Tree.mkdir_some hcall
    intro q
    rcases eq_or_ne q (new.helperDir h) with rfl | hne
    · refine .inr ⟨⟨h, rfl⟩, hfree, by rw [hat, Function.update_self], Tree.leaf_iff.mpr ?_⟩
      intro n
      rw [hat, Function.update_of_ne (by simp)]
      by_contra hthere
      simp [t.parent _ n hthere] at hfree
    · exact .inl (by rw [hat, Function.update_of_ne hne])
  · obtain rfl := Outcome.after_ne_ok ho hcall
    exact .of_eq fun _ => rfl

/-- A renaming to another path of what is apart from both changes nothing there. -/
theorem rename_elsewhere {a b x : List String} (hcall : o.after t (t.rename a b) = some t')
    (ha : ¬ a <+: x) (ha' : ¬ x <+: a) (hb : ¬ b <+: x) (hb' : ¬ x <+: b) (q : List String) :
    t'.at_ (x ++ q) = t.at_ (x ++ q) := by
  rcases eq_or_ne o .ok with rfl | ho
  · rw [(Tree.rename_some hcall).2]
    refine Tree.renamed_of_not_prefix ?_ ?_
    · intro hpre
      exact (List.prefix_or_prefix_of_prefix hpre (List.prefix_append x q)).elim hb hb'
    · intro hpre
      exact (List.prefix_or_prefix_of_prefix hpre (List.prefix_append x q)).elim ha ha'
  · rw [Outcome.after_ne_ok ho hcall]

section
variable {o : RenameOutcomes} {h : Helper}

theorem renameHelper_unchanged (hrun : renameHelper t old new o h = some t')
    (hstill : o.rename h ≠ .ok ∨ old = new) : Unchanged new t t' := by
  obtain ⟨t₁, hmkdir, hrename⟩ := Option.bind_eq_some_iff.mp hrun
  refine (after_mkdir_unchanged hmkdir).trans (.of_eq fun q => ?_)
  by_cases ho : o.rename h = .ok
  · obtain rfl := hstill.resolve_left (not_not.mpr ho)
    rw [ho] at hrename
    rw [(Tree.rename_some hrename).2, Tree.renamed_self]
  · rw [Outcome.after_ne_ok ho hrename]

theorem renameHelper_elsewhere (hrun : renameHelper t old new o h = some t') {x : List String}
    (hx : ∀ h, ¬ x <+: new.helperDir h)
    (ha : ¬ old.helperPath h <+: x) (ha' : ¬ x <+: old.helperPath h)
    (hb : ¬ new.helperPath h <+: x) (hb' : ¬ x <+: new.helperPath h) (q : List String) :
    t'.at_ (x ++ q) = t.at_ (x ++ q) := by
  obtain ⟨t₁, hmkdir, hrename⟩ := Option.bind_eq_some_iff.mp hrun
  rw [rename_elsewhere hrename ha ha' hb hb', (after_mkdir_unchanged hmkdir).subtree hx]

/-- Where the helper file at the new path was before. -/
def RenameOutcomes.source (o : RenameOutcomes) (old new : ItemPath) (h : Helper) : List String :=
  if o.rename h = .ok then old.helperPath h else new.helperPath h

theorem renameHelper_target (hrun : renameHelper t old new o h = some t')
    (hclear : Clear old new) (q : List String) :
    t'.at_ (new.helperPath h ++ q) = t.at_ (o.source old new h ++ q) := by
  unfold RenameOutcomes.source
  split_ifs with ho
  · obtain ⟨t₁, hmkdir, hrename⟩ := Option.bind_eq_some_iff.mp hrun
    rw [ho] at hrename
    rw [(Tree.rename_some hrename).2, Tree.renamed_target]
    exact (after_mkdir_unchanged hmkdir).subtree (hclear.made h) q
  · exact (renameHelper_unchanged hrun (.inl ho)).subtree (fun h' => helperPath_not_dir h h') q

/-- A helper file that was renamed to another path was there and is gone. -/
theorem renameHelper_source (hrun : renameHelper t old new o h = some t') (ho : o.rename h = .ok)
    (hne : old ≠ new) (hclear : Clear old new) :
    t.at_ (old.helperPath h) ≠ none ∧ t'.at_ (old.helperPath h) = none := by
  obtain ⟨t₁, hmkdir, hrename⟩ := Option.bind_eq_some_iff.mp hrun
  rw [ho] at hrename
  obtain ⟨hthere, hgone⟩ := Tree.rename_source hrename ((helperPath_injective h).ne hne)
  have hkept := (after_mkdir_unchanged hmkdir).subtree (hclear.made h) []
  rw [List.append_nil] at hkept
  exact ⟨hkept ▸ hthere, hgone⟩

end

-- ---------------------------------------------------------------------------
-- Renaming
-- ---------------------------------------------------------------------------

section
variable {o : RenameOutcomes} {t₂ : Tree String C}

/-- After both helper files. -/
theorem renameHelpers_target (h₁ : renameHelper t old new o .finf = some t₁)
    (h₂ : renameHelper t₁ old new o .rsrc = some t₂) (hclear : Clear old new) (h : Helper)
    (q : List String) : t₂.at_ (new.helperPath h ++ q) = t.at_ (o.source old new h ++ q) := by
  cases h with
  | finf =>
    -- The second renaming is of paths apart from the first.
    rw [renameHelper_elsewhere h₂ (fun _ => helperPath_not_dir _ _)
      (hclear.helper .rsrc .finf nofun) (hclear.helper' .rsrc .finf nofun)
      (helperPath_apart nofun) (helperPath_apart nofun),
      renameHelper_target h₁ hclear]
  | rsrc =>
    rw [renameHelper_target h₂ hclear, RenameOutcomes.source]
    split_ifs with ho
    · exact renameHelper_elsewhere h₁ (hclear.made .rsrc) (helperPath_apart nofun)
        (helperPath_apart nofun) (hclear.helper' .rsrc .finf nofun)
        (hclear.helper .rsrc .finf nofun) q
    · exact renameHelper_elsewhere h₁ (fun _ => helperPath_not_dir _ _)
        (hclear.helper .finf .rsrc nofun) (hclear.helper' .finf .rsrc nofun)
        (helperPath_apart nofun) (helperPath_apart nofun) q

theorem renameHelpers_source (h₁ : renameHelper t old new o .finf = some t₁)
    (h₂ : renameHelper t₁ old new o .rsrc = some t₂) (hclear : Clear old new) (hne : old ≠ new)
    {h : Helper} (ho : o.rename h = .ok) :
    t.at_ (old.helperPath h) ≠ none ∧ t₂.at_ (old.helperPath h) = none := by
  cases h with
  | finf =>
    obtain ⟨hthere, hgone⟩ := renameHelper_source h₁ ho hne hclear
    have hstays := renameHelper_elsewhere h₂ (hclear.made .finf)
      (helperPath_apart nofun) (helperPath_apart nofun)
      (hclear.helper' .finf .rsrc nofun) (hclear.helper .finf .rsrc nofun) []
    rw [List.append_nil] at hstays
    exact ⟨hthere, hstays.trans hgone⟩
  | rsrc =>
    obtain ⟨hthere, hgone⟩ := renameHelper_source h₂ ho hne hclear
    have hstays := renameHelper_elsewhere h₁ (hclear.made .rsrc)
      (helperPath_apart nofun) (helperPath_apart nofun)
      (hclear.helper' .rsrc .finf nofun) (hclear.helper .rsrc .finf nofun) []
    rw [List.append_nil] at hstays
    exact ⟨hstays ▸ hthere, hgone⟩

/-- The renaming of the object itself does not touch the helper files at the new path. -/
theorem rename_object_elsewhere (hrename : t.rename old.path new.path = some t')
    (hclear : Clear old new) (h : Helper) (q : List String) :
    t'.at_ (new.helperPath h ++ q) = t.at_ (new.helperPath h ++ q) := by
  obtain ⟨hcan, hat⟩ := Tree.rename_some hrename
  rw [hat]
  by_cases hsame : old.path = new.path
  · rw [hsame, Tree.renamed_self]
  · refine Tree.renamed_of_not_prefix ?_ ?_
    · intro hpre
      rcases List.prefix_or_prefix_of_prefix hpre (List.prefix_append _ q) with hpre | hpre
      · exact hclear.target h hpre
      · have := hpre.length_le
        simp [ItemPath.helperPath, ItemPath.path] at this
    · intro hpre
      rcases List.prefix_or_prefix_of_prefix hpre (List.prefix_append _ q) with hpre | hpre
      · obtain heq | ⟨hinto, -⟩ := hcan.2.2
        · exact hsame heq
        · exact hinto ((hclear.object h hpre).trans (List.prefix_append ..))
      · exact hclear.object' h hpre

theorem rename_good_of_cond {result : Bool} (hrun : extfsRename t old new o = some (t', result))
    (hcond : (Call.rename old new o).Cond t) : (Call.rename old new o).Good t t' result := by
  simp only [extfsRename, Option.bind_eq_bind, Option.bind_eq_some_iff] at hrun
  obtain ⟨t₁, h₁, t₂, h₂, t₃, h₃, hrun⟩ := hrun
  cases hrun
  rcases hcond with rfl | ⟨hmain, hfail⟩ | ⟨hmain, hclear, hhelper⟩
  · have hmain : Unchanged old t₂ t' := by
      refine .of_eq fun q => ?_
      by_cases ho : o.main = .ok
      · rw [ho] at h₃
        rw [(Tree.rename_some h₃).2, Tree.renamed_self]
      · rw [Outcome.after_ne_ok ho h₃]
    have hall := ((renameHelper_unchanged h₁ (.inr rfl)).trans
      (renameHelper_unchanged h₂ (.inr rfl))).trans hmain
    exact ⟨fun _ => hall, fun _ h => hall.subtree fun h' => helperPath_not_dir h h'⟩
  · obtain rfl := Outcome.after_ne_ok hmain h₃
    refine ⟨fun _ => ?_, fun hresult => absurd (of_decide_eq_true hresult) hmain⟩
    exact (renameHelper_unchanged h₁ (.inl (hfail _))).trans
      (renameHelper_unchanged h₂ (.inl (hfail _)))
  · rw [hmain] at h₃
    refine ⟨fun hresult => absurd hmain (of_decide_eq_false hresult), fun _ h q => ?_⟩
    rw [rename_object_elsewhere h₃ hclear, renameHelpers_target h₁ h₂ hclear,
      RenameOutcomes.source]
    split_ifs with ho
    · rfl
    · exact (hhelper h).resolve_left ho q

theorem rename_cond_of_good {result : Bool} (hrun : extfsRename t old new o = some (t', result))
    (hclear : Clear old new) (hgood : (Call.rename old new o).Good t t' result) :
    (Call.rename old new o).Cond t := by
  simp only [extfsRename, Option.bind_eq_bind, Option.bind_eq_some_iff] at hrun
  obtain ⟨t₁, h₁, t₂, h₂, t₃, h₃, hrun⟩ := hrun
  cases hrun
  by_cases hne : old = new
  · exact .inl hne
  right
  by_cases hmain : o.main = .ok
  · refine .inr ⟨hmain, hclear, fun h => ?_⟩
    by_cases ho : o.rename h = .ok
    · exact .inl ho
    · refine .inr fun q => ?_
      rw [hmain] at h₃
      have hhelper := hgood.2 (decide_eq_true hmain) h q
      rw [rename_object_elsewhere h₃ hclear, renameHelpers_target h₁ h₂ hclear,
        RenameOutcomes.source, if_neg ho] at hhelper
      exact hhelper
  · refine .inl ⟨hmain, fun h ho => ?_⟩
    obtain rfl := Outcome.after_ne_ok hmain h₃
    obtain ⟨hthere, hgone⟩ := renameHelpers_source h₁ h₂ hclear hne ho
    rcases hgood.1 (decide_eq_false hmain) (old.helperPath h) with hsame | ⟨-, hnone, -⟩
    · exact hthere (hsame ▸ hgone)
    · exact hthere hnone

end

theorem helperDir_made (hp : ∀ h, dirName h ∉ p.path) (hnew : ∀ h, dirName h ∉ new.path)
    (h h' : Helper) : ¬ p.helperPath h <+: new.helperDir h' := by
  intro hpre
  rcases List.prefix_concat_iff.mp hpre with heq | hpre
  · have heq : (p.dir ++ [dirName h]) ++ [p.name] = new.dir ++ [dirName h'] := by
      rw [List.append_assoc]
      exact heq
    have hname := (List.append_inj' heq rfl).2
    exact hp h' (by simp [ItemPath.path, List.singleton_inj.mp hname])
  · have hmem : dirName h ∈ new.dir := hpre.subset (by simp [ItemPath.helperPath])
    exact hnew h (List.mem_append_left _ hmem)

theorem helperPath_apart_of_not_mem (hp : ∀ h, dirName h ∉ p.path)
    (hnew : ∀ h, dirName h ∉ new.path) {h h' : Helper} (hne : h ≠ h') :
    ¬ p.helperPath h <+: new.helperPath h' := by
  intro hpre
  have hsplit : new.helperPath h' = new.helperDir h' ++ [new.name] := by
    simp [ItemPath.helperPath, ItemPath.helperDir]
  rw [hsplit] at hpre
  rcases List.prefix_concat_iff.mp hpre with heq | hpre
  · rw [← hsplit] at heq
    obtain ⟨-, hnames⟩ := List.append_inj' heq rfl
    exact hne (dirName_injective (List.cons.inj hnames).1)
  · exact helperDir_made hp hnew h h' hpre

/-- Calls that go through no directory for helper files are clear. -/
theorem clear_of_not_mem (hold : ∀ h, dirName h ∉ old.path) (hnew : ∀ h, dirName h ∉ new.path) :
    Clear old new where
  object h hpre := by
    have hsplit : new.helperPath h = (new.dir ++ [dirName h]) ++ [new.name] := by
      simp [ItemPath.helperPath]
    rw [hsplit] at hpre
    rcases List.prefix_concat_iff.mp hpre with heq | hpre
    · exact absurd (by simp [heq]) (hold h)
    · rcases List.prefix_concat_iff.mp hpre with heq | hpre
      · exact absurd (by simp [heq]) (hold h)
      · exact hpre
  object' h hpre := hold h (hpre.subset (by simp [ItemPath.helperPath]))
  target h hpre := by
    have hname := (List.cons_prefix_cons.mp ((List.prefix_append_right_inj _).mp hpre)).1
    exact hnew h (by simp [ItemPath.path, hname])
  helper _ _ hne := helperPath_apart_of_not_mem hold hnew hne
  helper' _ _ hne := helperPath_apart_of_not_mem hnew hold hne.symm
  made := helperDir_made hold hnew

/-- Failed calls change nothing, and an object that is renamed takes its helper files along, when
the condition holds; and where no path of a call is inside another, only then. -/
theorem call_good {c : Call} {result : Bool} (hrun : c.run t = some (t', result)) :
    (c.Cond t → c.Good t t' result) ∧ (c.Clear → c.Good t t' result → c.Cond t) := by
  cases c with
  | remove p o =>
    have hiff := remove_good_iff hrun
    exact ⟨hiff.mpr, fun _ => hiff.mp⟩
  | rename old new o => exact ⟨rename_good_of_cond hrun, rename_cond_of_good hrun⟩

-- ---------------------------------------------------------------------------
-- A file with a resource fork
-- ---------------------------------------------------------------------------

/-- A file with a resource fork. -/
def forkTree : Tree String Nat where
  at_ p :=
    if p = [] then some .dir
    else if p = ["a"] then some (.file 1)
    else if p = [".rsrc"] then some .dir
    else if p = [".rsrc", "a"] then some (.file 2)
    else none
  paths := [[], ["a"], [".rsrc"], [".rsrc", "a"]]
  mem_paths := by grind
  parent p n h := by
    have hp : p = (p ++ [n]).dropLast := List.dropLast_concat.symm
    split_ifs at h with hroot hfile hdir hfork
    · simp at hroot
    · rw [hp, hfile]
      rfl
    · rw [hp, hdir]
      rfl
    · rw [hp, hfork]
      rfl
    · exact absurd rfl h

/-- It is renamed, and has no Finder information. -/
def renameFork : Call :=
  .rename ⟨[], "a"⟩ ⟨[], "b"⟩
    { mkdir
        | .finf => .ok
        | .rsrc => .fails .other
      rename
        | .finf => .fails .other
        | .rsrc => .ok
      main := .ok }

theorem renameFork_good :
    ∃ t', renameFork.run forkTree = some (t', true) ∧ renameFork.Good forkTree t' true := by
  refine ⟨_, rfl, (call_good rfl).1 ?_⟩
  refine .inr (.inr ⟨rfl, clear_of_not_mem ?_ ?_, ?_⟩)
  · rintro ⟨⟩ <;> decide
  · rintro ⟨⟩ <;> decide
  · rintro ⟨⟩
    · right
      intro q
      simp [forkTree, ItemPath.helperPath, dirName]
    · left
      rfl

/-- The host refuses to remove it. -/
def removeRefused : Call :=
  .remove ⟨[], "a"⟩
    { helper
        | .finf => .fails .other
        | .rsrc => .ok
      main := .fails .other
      rmdirHelper := fun _ => .fails .other
      rmdir := .fails .other }

theorem removeRefused_loses_fork :
    ∃ t', removeRefused.run forkTree = some (t', false) ∧
      ¬ removeRefused.Good forkTree t' false := by
  refine ⟨_, rfl, ?_⟩
  intro h
  exact absurd (h rfl [".rsrc", "a"]) nofun

end SheepShear.ExtFs.HelperFiles
