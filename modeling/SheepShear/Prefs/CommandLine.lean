import SheepShear.Prefs.Items

/-!
# Preferences on the command line

The part of `PrefsInit` that works on the argument vector: options that have a
descriptor are taken out together with their values, and the vector is closed up
over the gaps. A vector is a function from the index to a pointer.
-/

namespace SheepShear.Prefs

abbrev Argv := Nat → Option CString

/-- `argv[i..i + n)`. -/
def Argv.entries (argv : Argv) (i n : Nat) : List (Option CString) := (List.range' i n).map argv

/-- The vector that `main` is called with. -/
def Argv.ofList (args : List CString) : Argv := fun i => args[i]?

-- ---------------------------------------------------------------------------
-- Options
-- ---------------------------------------------------------------------------

/-- `--keyword`. -/
def optionKeyword (option : CString) : Option CString :=
  if option.val.length < 3 ∨ option.val[0]? ≠ some 0x2d#8 ∨ option.val[1]? ≠ some 0x2d#8 then none
  else some ⟨option.val.drop 2, fun h => option.noNul (List.mem_of_mem_drop h)⟩

def optionDesc (t : Tables) (option : CString) : Option (CString × PrefsDesc) := do
  let keyword ← optionKeyword option
  let d ← findPrefsDesc t keyword
  return (keyword, d)

/-- Add or replace the item of an option. A bad Boolean value is reported only. -/
def setOption (l : PrefsList) (keyword : CString) (d : PrefsDesc) (value : CString) : PrefsList :=
  match d.type with
  | .string =>
    if d.multiple then prefsAddString l keyword value else prefsReplaceString l keyword value 0
  | .boolean =>
    if value.val = ascii "true" ∨ value.val = ascii "on" ∨ value.val = ascii "yes" then
      prefsReplaceBool l keyword true
    else if value.val = ascii "false" ∨ value.val = ascii "off" ∨ value.val = ascii "no" then
      prefsReplaceBool l keyword false
    else l
  | .int32 => prefsReplaceInt32 l keyword (BitVec.ofInt 32 (atol value.val))

/-- The first loop, from index `i` on. No result is a null value. -/
def overridePrefs (t : Tables) (argc : Nat) (i : Nat) (argv : Argv) (l : PrefsList) :
    Option (Argv × PrefsList) :=
  if i < argc then
    match (argv i).bind (optionDesc t) with
    | none => overridePrefs t argc (i + 1) argv l
    | some (keyword, d) =>
      let argv := Function.update argv i none
      let i := i + 1
      if i < argc then
        match argv i with
        | none => none
        | some value =>
          overridePrefs t argc (i + 1) (Function.update argv i none) (setOption l keyword d value)
      else
        -- the keyword was the last argument, which is reported
        overridePrefs t argc (i + 1) argv l
  else
    some (argv, l)
termination_by argc - i

-- ---------------------------------------------------------------------------
-- Closing up
-- ---------------------------------------------------------------------------

/-- `for (k = i; k < argc; k++) if (argv[k] != NULL) break;` -/
def firstKept (argv : Argv) (argc k : Nat) : Nat :=
  if k < argc then
    if (argv k).isSome then k else firstKept argv argc (k + 1)
  else k
termination_by argc - k

/-- `for (j = i + k; j < argc; j++) argv[j - k] = argv[j];` -/
def moveDown (argv : Argv) (k j n : Nat) : Argv :=
  (List.range' j n).foldl (fun argv j => Function.update argv (j - k) (argv j)) argv

def removeProcessed (argv : Argv) (argc i : Nat) : Argv × Nat :=
  if i < argc then
    let k := firstKept argv argc i
    if k > i then
      let k := k - i
      removeProcessed (moveDown argv k (i + k) (argc - (i + k))) (argc - k) (i + 1)
    else
      removeProcessed argv argc (i + 1)
  else
    (argv, argc)
termination_by argc - i

/-- What `PrefsInit` does after the settings file has been loaded. -/
def prefsInitOptions (t : Tables) (argc : Nat) (argv : Argv) (l : PrefsList) :
    Option (Argv × Nat × PrefsList) := do
  let (argv, l) ← overridePrefs t argc 1 argv l
  let (argv, argc) := removeProcessed argv argc 1
  return (argv, argc, l)

-- ---------------------------------------------------------------------------
-- Pairs
-- ---------------------------------------------------------------------------

/-- The options with their values, from left to right. -/
def optionPairs (t : Tables) : List CString → List (CString × PrefsDesc × CString)
  | option :: value :: args =>
    match optionDesc t option with
    | some (keyword, d) => (keyword, d, value) :: optionPairs t args
    | none => optionPairs t (value :: args)
  | _ => []

/-- The arguments in no pair. -/
def unpaired (t : Tables) : List CString → List CString
  | option :: value :: args =>
    match optionDesc t option with
    | some _ => unpaired t args
    | none => option :: unpaired t (value :: args)
  | args => args

/-- The arguments in no pair, without an option at the end that lacks its value. -/
def remaining (t : Tables) : List CString → List CString
  | option :: value :: args =>
    match optionDesc t option with
    | some _ => remaining t args
    | none => option :: remaining t (value :: args)
  | [arg] => if (optionDesc t arg).isSome then [] else [arg]
  | [] => []

def setOptions (l : PrefsList) (pairs : List (CString × PrefsDesc × CString)) : PrefsList :=
  pairs.foldl (fun l p => setOption l p.1 p.2.1 p.2.2) l

-- ---------------------------------------------------------------------------
-- Closing up keeps the order
-- ---------------------------------------------------------------------------

theorem Argv.entries_succ (argv : Argv) (i n : Nat) :
    argv.entries i (n + 1) = argv i :: argv.entries (i + 1) n := rfl

theorem Argv.entries_add (argv : Argv) (i m n : Nat) :
    argv.entries i (m + n) = argv.entries i m ++ argv.entries (i + m) n := by
  simp only [entries, ← List.map_append, List.range'_append_1]

theorem Argv.entries_congr {argv argv' : Argv} {i n : Nat} (h : ∀ j, i ≤ j → j < i + n → argv' j = argv j) :
    argv'.entries i n = argv.entries i n :=
  List.map_congr_left fun j hj => by
    obtain ⟨hlo, hhi⟩ := List.mem_range'_1.mp hj
    exact h j hlo hhi

theorem Argv.entries_shift {argv argv' : Argv} {i k n : Nat}
    (h : ∀ j, i ≤ j → j < i + n → argv' j = argv (j + k)) :
    argv'.entries i n = argv.entries (i + k) n := by
  induction n generalizing i with
  | zero => rfl
  | succ n ih =>
    have hrest := ih (i := i + 1) fun j hlo hhi => h j (by omega) (by omega)
    rw [entries_succ, entries_succ, h i le_rfl (by omega), hrest, Nat.add_right_comm]

theorem Argv.entries_last (argv : Argv) (i : Nat) :
    argv.entries 0 (i + 1) = argv.entries 0 i ++ [argv i] := by
  rw [entries_add, Nat.zero_add]
  rfl

theorem Argv.filter_entries {argv : Argv} {i : Nat} (h : (argv i).isSome) (n : Nat) :
    (argv.entries i (n + 1)).filter Option.isSome =
      argv i :: (argv.entries (i + 1) n).filter Option.isSome := by
  rw [entries_succ, List.filter_cons_of_pos h]

theorem firstKept_spec (argv : Argv) (argc k : Nat) (hk : k ≤ argc) :
    k ≤ firstKept argv argc k ∧ firstKept argv argc k ≤ argc ∧
      (∀ j, k ≤ j → j < firstKept argv argc k → argv j = none) ∧
      (firstKept argv argc k < argc → (argv (firstKept argv argc k)).isSome) := by
  fun_induction firstKept argv argc k with
  | case1 k hlt hsome => exact ⟨le_rfl, hk, fun j h1 h2 => by omega, fun _ => hsome⟩
  | case2 k hlt hnone ih =>
    obtain ⟨hle, hargc, hgap, hkept⟩ := ih hlt
    refine ⟨by omega, hargc, fun j h1 h2 => ?_, hkept⟩
    rcases Nat.eq_or_lt_of_le h1 with rfl | h1
    · exact Option.not_isSome_iff_eq_none.mp hnone
    · exact hgap j h1 h2
  | case3 k hge => exact ⟨le_rfl, hk, fun j h1 h2 => by omega, fun h => absurd h hge⟩

theorem moveDown_apply (argv : Argv) (k j n p : Nat) (hk : 0 < k) (hj : k ≤ j) :
    moveDown argv k j n p = if j - k ≤ p ∧ p < j - k + n then argv (p + k) else argv p := by
  induction n generalizing argv j with
  | zero =>
    rw [if_neg (by omega)]
    rfl
  | succ n ih =>
    have hstep : moveDown argv k j (n + 1) = moveDown (Function.update argv (j - k) (argv j)) k (j + 1) n :=
      rfl
    rw [hstep, ih _ (j + 1) (by omega)]
    rcases lt_trichotomy p (j - k) with hp | rfl | hp
    · rw [if_neg (by omega), if_neg (by omega), Function.update_of_ne (by omega)]
    · rw [if_neg (by omega), if_pos (by omega), Function.update_self, Nat.sub_add_cancel hj]
    · by_cases hlast : p < j - k + (n + 1)
      · rw [if_pos (by omega), if_pos (by omega), Function.update_of_ne (by omega)]
      · rw [if_neg (by omega), if_neg (by omega), Function.update_of_ne (by omega)]

/-- The loop drops the null pointers from index `i` on and moves nothing else. -/
theorem removeProcessed_entries (argv : Argv) (argc i : Nat) :
    (removeProcessed argv argc i).1.entries 0 (removeProcessed argv argc i).2 =
      argv.entries 0 (min i argc) ++ (argv.entries i (argc - i)).filter Option.isSome := by
  fun_induction removeProcessed argv argc i with
  | case1 argv argc i hlt k₀ hk₀ k ih =>
    obtain ⟨hle, hargc, hgap, hkept⟩ := firstKept_spec argv argc i hlt.le
    have hmove (p : Nat) : moveDown argv k (i + k) (argc - (i + k)) p =
        if i ≤ p ∧ p < argc - k then argv (p + k) else argv p := by
      rw [moveDown_apply _ _ _ _ _ (by omega) (by omega)]
      refine if_congr ?_ rfl rfl
      omega
    have hsplit : argv.entries i (argc - i) = argv.entries i k ++ argv.entries (i + k) (argc - k - i) := by
      rw [← argv.entries_add]
      congr 1
      omega
    have hnone : (argv.entries i k).filter Option.isSome = [] := by
      rw [List.filter_eq_nil_iff]
      intro o ho
      obtain ⟨j, hj, rfl⟩ := List.mem_map.mp ho
      obtain ⟨hlo, hhi⟩ := List.mem_range'_1.mp hj
      rw [hgap j hlo (by omega)]
      simp
    have hfront : (moveDown argv k (i + k) (argc - (i + k))).entries 0 i = argv.entries 0 i :=
      Argv.entries_congr fun p _ hp => by rw [hmove, if_neg (by omega)]
    rw [ih, hsplit, List.filter_append, hnone, List.nil_append, Nat.min_eq_left hlt.le]
    rcases Nat.eq_or_lt_of_le hargc with hend | hlast
    · -- nothing is left
      have hargc' : argc - k = i := by omega
      have hzero : i - (i + 1) = 0 := by omega
      rw [hargc', Nat.min_eq_right (Nat.le_succ i), hfront, Nat.sub_self, hzero]
      rfl
    · have hn : argc - k - i = argc - k - (i + 1) + 1 := by omega
      have hkeep : (argv (i + k)).isSome := by
        have hi : i + k = firstKept argv argc i := by omega
        rw [hi]
        exact hkept hlast
      have hrest : (moveDown argv k (i + k) (argc - (i + k))).entries (i + 1) (argc - k - (i + 1)) =
          argv.entries (i + 1 + k) (argc - k - (i + 1)) :=
        Argv.entries_shift fun p hlo hhi => by rw [hmove, if_pos (by omega)]
      rw [Nat.min_eq_left (by omega), Argv.entries_last, hfront, hrest, hn, Argv.filter_entries hkeep,
        hmove, if_pos (by omega), List.append_assoc, Nat.add_right_comm i 1 k]
      rfl
  | case2 argv argc i hlt k hk ih =>
    obtain ⟨hle, hargc, hgap, hkept⟩ := firstKept_spec argv argc i hlt.le
    have hi : k = i := by omega
    have hkeep : (argv i).isSome := by
      rw [← hi]
      exact hkept (by omega)
    have hn : argc - i = argc - (i + 1) + 1 := by omega
    rw [ih, Nat.min_eq_left hlt.le, Nat.min_eq_left hlt, Argv.entries_last, hn,
      Argv.filter_entries hkeep, List.append_assoc]
    rfl
  | case3 argv argc i hge =>
    have hzero : argc - i = 0 := by omega
    rw [Nat.min_eq_right (by omega), hzero]
    exact (List.append_nil _).symm

-- ---------------------------------------------------------------------------
-- The options are the pairs
-- ---------------------------------------------------------------------------

theorem overridePrefs_skip {t : Tables} {argc i : Nat} {argv : Argv} {l : PrefsList} {arg : CString}
    (hi : i < argc) (harg : argv i = some arg) (hdesc : optionDesc t arg = none) :
    overridePrefs t argc i argv l = overridePrefs t argc (i + 1) argv l := by
  rw [overridePrefs, if_pos hi, harg, Option.bind_some, hdesc]

theorem overridePrefs_pair {t : Tables} {argc i : Nat} {argv : Argv} {l : PrefsList}
    {option value keyword : CString} {d : PrefsDesc} (hi : i + 1 < argc) (hoption : argv i = some option)
    (hdesc : optionDesc t option = some (keyword, d)) (hvalue : argv (i + 1) = some value) :
    overridePrefs t argc i argv l =
      overridePrefs t argc (i + 2) (Function.update (Function.update argv i none) (i + 1) none)
        (setOption l keyword d value) := by
  have hnext : Function.update argv i none (i + 1) = some value := by
    rw [Function.update_of_ne (by omega), hvalue]
  rw [overridePrefs, if_pos (by omega), hoption, Option.bind_some, hdesc]
  simp only [if_pos hi, hnext]

theorem overridePrefs_last {t : Tables} {i : Nat} {argv : Argv} {l : PrefsList}
    {option keyword : CString} {d : PrefsDesc} (hoption : argv i = some option)
    (hdesc : optionDesc t option = some (keyword, d)) :
    overridePrefs t (i + 1) i argv l = some (Function.update argv i none, l) := by
  have hend (argv : Argv) : overridePrefs t (i + 1) (i + 2) argv l = some (argv, l) := by
    rw [overridePrefs, if_neg (by omega)]
  rw [overridePrefs, if_pos (by omega), hoption, Option.bind_some, hdesc]
  simp only [lt_irrefl, if_false, hend]

/-- The first loop on arguments that are all there. -/
theorem overridePrefs_entries (t : Tables) (args : List CString) (i : Nat) (argv : Argv) (l : PrefsList)
    (h : argv.entries i args.length = args.map some) :
    ∃ argv', overridePrefs t (i + args.length) i argv l =
        some (argv', setOptions l (optionPairs t args)) ∧
      (∀ j < i, argv' j = argv j) ∧
      (argv'.entries i args.length).filter Option.isSome = (remaining t args).map some := by
  induction args using remaining.induct t generalizing i argv l with
  | case1 option value args r hdesc ih =>
    obtain ⟨keyword, d⟩ := r
    simp only [List.length_cons, Argv.entries_succ, List.map_cons, List.cons.injEq] at h
    obtain ⟨hoption, hvalue, hargs⟩ := h
    have hrest : Argv.entries (Function.update (Function.update argv i none) (i + 1) none) (i + 2)
        args.length = args.map some := by
      rw [← hargs]
      refine Argv.entries_congr fun j hj _ => ?_
      rw [Function.update_of_ne (by omega), Function.update_of_ne (by omega)]
    obtain ⟨argv', hloop, hbelow, hkept⟩ := ih (i + 2) _ (setOption l keyword d value) hrest
    have hargc : i + (option :: value :: args).length = i + 2 + args.length := by
      simp only [List.length_cons]
      omega
    refine ⟨argv', ?_, fun j hj => ?_, ?_⟩
    · rw [hargc, overridePrefs_pair (by omega) hoption hdesc hvalue, hloop, optionPairs, hdesc]
      rfl
    · rw [hbelow j (by omega), Function.update_of_ne (by omega), Function.update_of_ne (by omega)]
    · -- the two entries have become null pointers
      have hnone : argv' i = none ∧ argv' (i + 1) = none := by
        rw [hbelow i (by omega), hbelow (i + 1) (by omega), Function.update_self,
          Function.update_of_ne (by omega), Function.update_self]
        exact ⟨rfl, rfl⟩
      simp only [List.length_cons, Argv.entries_succ, hnone, remaining, hdesc]
      exact hkept
  | case2 option value args hdesc ih =>
    have hlength : (option :: value :: args).length = (value :: args).length + 1 := rfl
    rw [hlength, Argv.entries_succ, List.map_cons, List.cons.injEq] at h
    obtain ⟨hoption, hargs⟩ := h
    obtain ⟨argv', hloop, hbelow, hkept⟩ := ih (i + 1) argv l hargs
    have hargc : i + ((value :: args).length + 1) = i + 1 + (value :: args).length := by omega
    have hsame : argv' i = some option := by rw [hbelow i (by omega), hoption]
    refine ⟨argv', ?_, fun j hj => hbelow j (by omega), ?_⟩
    · rw [hlength, hargc, overridePrefs_skip (by omega) hoption hdesc, hloop, optionPairs, hdesc]
    · rw [hlength, Argv.filter_entries (by rw [hsame]; rfl), hkept, hsame, remaining, hdesc]
      rfl
  | case3 arg hsome =>
    obtain ⟨⟨keyword, d⟩, hdesc⟩ := Option.isSome_iff_exists.mp hsome
    have harg : argv i = some arg := (List.cons.inj h).1
    refine ⟨Function.update argv i none, overridePrefs_last harg hdesc,
      fun j hj => Function.update_of_ne (by omega) .., ?_⟩
    rw [List.length_singleton, Argv.entries_succ, Function.update_self, remaining, if_pos hsome]
    rfl
  | case4 arg hnone =>
    have harg : argv i = some arg := (List.cons.inj h).1
    have hdesc : optionDesc t arg = none := Option.not_isSome_iff_eq_none.mp hnone
    refine ⟨argv, ?_, fun _ _ => rfl, ?_⟩
    · rw [List.length_singleton, overridePrefs_skip (by omega) harg hdesc, overridePrefs,
        if_neg (lt_irrefl _)]
      rfl
    · rw [List.length_singleton, Argv.entries_succ, harg, remaining, if_neg hnone]
      rfl
  | case5 =>
    refine ⟨argv, ?_, fun _ _ => rfl, rfl⟩
    rw [List.length_nil, overridePrefs, if_neg (by omega)]
    rfl

-- ---------------------------------------------------------------------------
-- Main result
-- ---------------------------------------------------------------------------

/-- What is left of a vector: its first entry and the arguments in no pair. -/
def remainingArgs (t : Tables) : List CString → List CString
  | [] => []
  | arg :: args => arg :: remaining t args

theorem entries_ofList (args : List CString) (i : Nat) :
    (Argv.ofList args).entries i (args.length - i) = (args.drop i).map some := by
  apply List.ext_getElem
  · simp [Argv.entries]
  · intro n h1 h2
    simp only [Argv.entries, List.length_map, List.length_range'] at h1
    simp [Argv.entries, Argv.ofList, List.getElem?_eq_getElem (show i + n < args.length by omega)]

theorem prefsInitOptions_eq {t : Tables} {argc : Nat} {argv argv' : Argv} {l l' : PrefsList}
    (h : overridePrefs t argc 1 argv l = some (argv', l')) :
    prefsInitOptions t argc argv l =
      some ((removeProcessed argv' argc 1).1, (removeProcessed argv' argc 1).2, l') := by
  rw [prefsInitOptions, h]
  rfl

/-- For every argument vector, the items of exactly the pairs are set, in their order, and the
vector is closed up over the other arguments. -/
theorem prefsInit_arguments (t : Tables) (args : List CString) (l : PrefsList) :
    ∃ argv' argc', prefsInitOptions t args.length (.ofList args) l =
        some (argv', argc', setOptions l (optionPairs t args.tail)) ∧
      argv'.entries 0 argc' = (remainingArgs t args).map some := by
  cases args with
  | nil =>
    have hloop : overridePrefs t 0 1 (.ofList []) l = some (.ofList [], l) := by
      rw [overridePrefs, if_neg (by omega)]
    exact ⟨_, _, prefsInitOptions_eq hloop, removeProcessed_entries _ 0 1⟩
  | cons arg args =>
    have hargs := entries_ofList (arg :: args) 1
    rw [List.length_cons, Nat.add_sub_cancel] at hargs
    obtain ⟨argv', hloop, hbelow, hkept⟩ := overridePrefs_entries t args 1 _ l hargs
    rw [Nat.add_comm] at hloop
    refine ⟨_, _, prefsInitOptions_eq hloop, ?_⟩
    rw [removeProcessed_entries, List.length_cons, Nat.min_eq_left (Nat.le_add_left 1 _),
      Nat.add_sub_cancel, hkept, Argv.entries_succ, hbelow 0 Nat.zero_lt_one]
    rfl

/-- An option that the vector ends with has no value, and is taken out nevertheless. -/
theorem last_option_dropped (t : Tables) (arg option : CString) (l : PrefsList)
    (hdesc : (optionDesc t option).isSome) :
    ∃ argv' argc', prefsInitOptions t 2 (.ofList [arg, option]) l = some (argv', argc', l) ∧
      argv'.entries 0 argc' = [some arg] := by
  obtain ⟨⟨keyword, d⟩, hdesc⟩ := Option.isSome_iff_exists.mp hdesc
  have hoption : Argv.ofList [arg, option] 1 = some option := rfl
  have hloop : overridePrefs t 2 1 (.ofList [arg, option]) l = some (_, l) :=
    overridePrefs_last hoption hdesc
  exact ⟨_, _, prefsInitOptions_eq hloop, (removeProcessed_entries _ 2 1).trans rfl⟩

theorem trailing_disk_differs :
    ¬ ∃ argv' argc' l', prefsInitOptions (Platform.unix true).tables 2
        (.ofList [⟨ascii "SheepShear", by decide⟩, ⟨ascii "--disk", by decide⟩]) [] =
          some (argv', argc', l') ∧
      argv'.entries 0 argc' = (⟨ascii "SheepShear", by decide⟩ ::
        unpaired (Platform.unix true).tables [⟨ascii "--disk", by decide⟩]).map some := by
  rintro ⟨argv', argc', l', hinit, hentries⟩
  obtain ⟨argv'', argc'', hinit', hentries'⟩ := last_option_dropped (Platform.unix true).tables
    ⟨ascii "SheepShear", by decide⟩ ⟨ascii "--disk", by decide⟩ [] (by decide +kernel)
  obtain ⟨rfl, rfl, -⟩ : argv' = argv'' ∧ argc' = argc'' ∧ l' = [] := by
    simpa using hinit.symm.trans hinit'
  rw [hentries] at hentries'
  exact absurd (congrArg List.length hentries') (by simp [unpaired])

end SheepShear.Prefs
