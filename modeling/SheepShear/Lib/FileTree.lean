import Mathlib

/-!
# Trees of files and directories

Paths are lists of names. What is at a path hangs in a directory at the path
before it. The operations that make, remove and rename give the new tree, or
none where a file system would refuse.
-/

namespace SheepShear.FileTree

inductive Entry (C : Type) where
  | dir
  | file (contents : C)

def Entry.isDir {C : Type} : Entry C → Bool
  | .dir => true
  | .file _ => false

/-- Nothing is at a path that is not in `paths`. -/
structure Tree (N C : Type) where
  at_ : List N → Option (Entry C)
  paths : List (List N)
  mem_paths : ∀ p, at_ p ≠ none → p ∈ paths
  parent : ∀ p n, at_ (p ++ [n]) ≠ none → at_ p = some .dir

variable {N C : Type} {t t' : Tree N C} {p q r : List N}

/-- What is inside something is inside one of its entries. -/
theorem Tree.inside (t : Tree N C) (hq : q ≠ []) (h : t.at_ (p ++ q) ≠ none) :
    t.at_ p = some .dir ∧ ∃ n, t.at_ (p ++ [n]) ≠ none := by
  induction q using List.reverseRecOn with
  | nil => exact absurd rfl hq
  | append_singleton q n ih =>
    rw [← List.append_assoc] at h
    have hdir := t.parent _ _ h
    rcases eq_or_ne q [] with rfl | hne
    · rw [List.append_nil] at h hdir
      exact ⟨hdir, n, h⟩
    · exact ih hne (by rw [hdir]; exact Option.some_ne_none _)

section
variable [DecidableEq N]

/-- Nothing is inside. -/
def Tree.leaf (t : Tree N C) (p : List N) : Bool :=
  t.paths.all fun q => q.isEmpty || q.dropLast ≠ p || (t.at_ q).isNone

theorem Tree.leaf_iff : t.leaf p ↔ ∀ n, t.at_ (p ++ [n]) = none := by
  rw [Tree.leaf, List.all_eq_true]
  constructor
  · intro h n
    by_contra hne
    simpa [hne] using h _ (t.mem_paths _ hne)
  · intro h q _
    rcases q.eq_nil_or_concat with rfl | ⟨q, n, rfl⟩
    · rfl
    · rcases eq_or_ne q p with rfl | hne
      · simp [h n]
      · simp [hne]

theorem Tree.leaf_inside (h : t.leaf p) (hq : q ≠ []) : t.at_ (p ++ q) = none := by
  by_contra hne
  obtain ⟨-, n, hn⟩ := t.inside hq hne
  exact hn (Tree.leaf_iff.mp h n)

/-- The parent of a path is a directory. -/
def Tree.hangs (t : Tree N C) (p : List N) : Prop :=
  p ≠ [] ∧ (t.at_ p.dropLast).any Entry.isDir

instance : Decidable (t.hangs p) := inferInstanceAs (Decidable (_ ∧ _))

omit [DecidableEq N] in
theorem Tree.hangs_concat {n : N} : t.hangs (p ++ [n]) ↔ t.at_ p = some .dir := by
  rw [Tree.hangs, List.dropLast_concat]
  cases t.at_ p with
  | none => simp
  | some e => cases e <;> simp [Entry.isDir]

-- ---------------------------------------------------------------------------
-- Making and removing
-- ---------------------------------------------------------------------------

def Tree.mkdir (t : Tree N C) (p : List N) : Option (Tree N C) :=
  if h : t.hangs p ∧ t.at_ p = none then
    some
      { at_ := Function.update t.at_ p (some .dir)
        paths := p :: t.paths
        mem_paths := by
          intro q hq
          rcases eq_or_ne q p with rfl | hne
          · exact List.mem_cons_self
          · rw [Function.update_of_ne hne] at hq
            exact List.mem_cons_of_mem _ (t.mem_paths q hq)
        parent := by
          intro q n hq
          rcases eq_or_ne (q ++ [n]) p with rfl | hne
          · rw [Function.update_of_ne (by simp)]
            exact Tree.hangs_concat.mp h.1
          · rw [Function.update_of_ne hne] at hq
            have hdir := t.parent q n hq
            rw [Function.update_of_ne (by rintro rfl; simp [h.2] at hdir)]
            exact hdir }
  else none

/-- A file or an empty directory. -/
def Tree.remove (t : Tree N C) (p : List N) : Option (Tree N C) :=
  if h : (t.at_ p).isSome ∧ t.leaf p then
    some
      { at_ := Function.update t.at_ p none
        paths := t.paths
        mem_paths := by
          intro q hq
          rcases eq_or_ne q p with rfl | hne
          · exact absurd (Function.update_self ..) hq
          · rw [Function.update_of_ne hne] at hq
            exact t.mem_paths q hq
        parent := by
          intro q n hq
          rcases eq_or_ne (q ++ [n]) p with rfl | hne
          · exact absurd (Function.update_self ..) hq
          · rw [Function.update_of_ne hne] at hq
            rw [Function.update_of_ne (by rintro rfl; exact hq (Tree.leaf_iff.mp h.2 n))]
            exact t.parent q n hq }
  else none

def Tree.rmdir (t : Tree N C) (p : List N) : Option (Tree N C) :=
  if (t.at_ p).any Entry.isDir then t.remove p else none

theorem Tree.mkdir_some (h : t.mkdir p = some t') :
    t.at_ p = none ∧ t'.at_ = Function.update t.at_ p (some .dir) := by
  unfold Tree.mkdir at h
  split at h
  next hfree => exact ⟨hfree.2, by rw [← Option.some.inj h]⟩
  next => cases h

theorem Tree.remove_some (h : t.remove p = some t') :
    t.at_ p ≠ none ∧ t'.at_ = Function.update t.at_ p none := by
  unfold Tree.remove at h
  split at h
  next hthere => exact ⟨Option.isSome_iff_ne_none.mp hthere.1, by rw [← Option.some.inj h]⟩
  next => cases h

theorem Tree.rmdir_remove (h : t.rmdir p = some t') : t.remove p = some t' := by
  unfold Tree.rmdir at h
  split at h
  · exact h
  · cases h

-- ---------------------------------------------------------------------------
-- Renaming
-- ---------------------------------------------------------------------------

/-- `p` can be renamed to `q`: not into itself, and over nothing or over something of its kind with
nothing inside. -/
def Tree.canRename (t : Tree N C) (p q : List N) : Prop :=
  (t.at_ p).isSome ∧ t.hangs q ∧
    (p = q ∨ ¬ p <+: q ∧
      (t.at_ q = none ∨ t.leaf q ∧ (t.at_ q).map Entry.isDir = (t.at_ p).map Entry.isDir))

instance : Decidable (t.canRename p q) := inferInstanceAs (Decidable (_ ∧ _))

/-- What is at a path after a renaming. -/
def Tree.renamed (t : Tree N C) (p q r : List N) : Option (Entry C) :=
  if q <+: r then t.at_ (p ++ r.drop q.length) else if p <+: r then none else t.at_ r

theorem Tree.renamed_target : t.renamed p q (q ++ r) = t.at_ (p ++ r) := by
  rw [Tree.renamed, if_pos (List.prefix_append q r), List.drop_left]

theorem Tree.renamed_of_not_prefix (hq : ¬ q <+: r) (hp : ¬ p <+: r) :
    t.renamed p q r = t.at_ r := by
  rw [Tree.renamed, if_neg hq, if_neg hp]

theorem Tree.renamed_self : t.renamed p p r = t.at_ r := by
  unfold Tree.renamed
  split_ifs with h
  · obtain ⟨r, rfl⟩ := h
    rw [List.drop_left]
  · rfl

def Tree.rename (t : Tree N C) (p q : List N) : Option (Tree N C) :=
  if h : t.canRename p q then
    some
      { at_ := t.renamed p q
        paths := t.paths ++ t.paths.map fun r => q ++ r.drop p.length
        mem_paths := by
          intro r hr
          unfold Tree.renamed at hr
          split_ifs at hr with hq hp
          · obtain ⟨r, rfl⟩ := hq
            rw [List.drop_left] at hr
            refine List.mem_append_right _ (List.mem_map.mpr ⟨_, t.mem_paths _ hr, ?_⟩)
            rw [List.drop_left]
          · exact absurd rfl hr
          · exact List.mem_append_left _ (t.mem_paths _ hr)
        parent := by
          intro r n hr
          by_cases hq : q <+: r
          · obtain ⟨r, rfl⟩ := hq
            rw [List.append_assoc, Tree.renamed_target, ← List.append_assoc] at hr
            rw [Tree.renamed_target]
            exact t.parent _ _ hr
          · rcases eq_or_ne q (r ++ [n]) with rfl | hne
            · -- The renamed entry hangs in the parent of its new path.
              rw [Tree.renamed, if_neg hq, if_neg]
              · exact Tree.hangs_concat.mp h.2.1
              · intro hp
                rcases h.2.2 with rfl | ⟨hp', -⟩
                · exact hq hp
                · exact hp' (hp.trans (List.prefix_append ..))
            · have hq' : ¬ q <+: r ++ [n] := by
                intro hpre
                rcases List.prefix_concat_iff.mp hpre with heq | hpre
                · exact hne heq
                · exact hq hpre
              have hp : ¬ p <+: r ++ [n] := by
                intro hp
                rw [Tree.renamed, if_neg hq', if_pos hp] at hr
                exact hr rfl
              have hp' : ¬ p <+: r := fun hpre => hp (hpre.trans (List.prefix_append ..))
              rw [Tree.renamed_of_not_prefix hq' hp] at hr
              rw [Tree.renamed_of_not_prefix hq hp']
              exact t.parent _ _ hr }
  else none

theorem Tree.rename_some (h : t.rename p q = some t') :
    t.canRename p q ∧ t'.at_ = t.renamed p q := by
  unfold Tree.rename at h
  split at h
  next hcan => exact ⟨hcan, by rw [← Option.some.inj h]⟩
  next => cases h

/-- A path is not renamed to one it is inside of: that has something inside. -/
theorem Tree.canRename.not_prefix (h : t.canRename p q) (hne : p ≠ q) : ¬ q <+: p := by
  rintro ⟨r, rfl⟩
  have hr : r ≠ [] := by
    rintro rfl
    exact hne (List.append_nil q)
  have hthere := Option.isSome_iff_ne_none.mp h.1
  obtain ⟨hdir, -⟩ := t.inside hr hthere
  rcases h.2.2 with heq | ⟨-, hfree | ⟨hleaf, -⟩⟩
  · exact hne heq
  · simp [hdir] at hfree
  · exact hthere (Tree.leaf_inside hleaf hr)

/-- What was renamed to another path is gone. -/
theorem Tree.rename_source (h : t.rename p q = some t') (hne : p ≠ q) :
    t.at_ p ≠ none ∧ t'.at_ p = none := by
  obtain ⟨hcan, hat⟩ := Tree.rename_some h
  refine ⟨Option.isSome_iff_ne_none.mp hcan.1, ?_⟩
  rw [hat, Tree.renamed, if_neg (hcan.not_prefix hne), if_pos (List.prefix_refl p)]

end

end SheepShear.FileTree
