import SheepShear.ExtFs.Attached

/-!
# The cached count of a directory

`fs_get_cat_info` counts the entries of a directory when its modification time
is later than the one stored with its item, and else answers what it counted
the last time. Items belong to names, not to directories: after directories
were renamed, a stored count may be that of another directory.
-/

namespace SheepShear.ExtFs.CatInfo

/-- What `fs_get_cat_info` keeps in an `FSItem`. -/
structure ItemCache where
  mtime : Int
  dircount : Int

/-- The file system with the modification times of the objects and the caches of the items.
`counted` is the directory whose entries the count of an item is of, and `answers` are the values of
`ioDrNmFls` with the entries the guest should see. -/
structure State (G N : Type) where
  base : ExtFs.State G N
  mtime : Nat → Int
  cache : Nat → ItemCache
  counted : Nat → Option Nat
  answers : List (Int × Set N)

/-- The names in a directory. -/
def entries {N : Type} (host : Host N) (obj : Nat) : Set N :=
  {n | ∃ path, host.at_ path = some ⟨obj, true⟩ ∧ (host.at_ (path ++ [n])).isSome}

variable {G N : Type}

/-- The names that do not begin with a dot. -/
def visible (v : Volume G N) (host : Host N) (obj : Nat) : Set N :=
  {n | n ∈ entries host obj ∧ v.hidden n = false}

/-- The three ways to say which item is queried, by `ioFDirIndex`. -/
inductive Query (G N : Type) where
  | dir (dirIndex : Int) (dirId : Nat)
  | path (dirId : Nat) (cs : List (Component G))
  | index (dirId : Nat) (name : N)

/-- `ioFDirIndex` is -1, which wants a directory. -/
def Query.onlyDir : Query G N → Bool
  | .dir dirIndex _ => dirIndex = -1
  | _ => false

section
variable [DecidableEq G] [DecidableEq N]

/-- The item that is queried. -/
def Query.item (v : Volume G N) (s : ExtFs.State G N) : Query G N → Table G N × Option Nat
  | .dir _ dirId => (s.table, findFsitemById dirId s.table)
  | .path dirId cs => getItemAndPath v dirId cs s.table
  | .index dirId name =>
    match findFsitemById dirId s.table with
    | none => (s.table, none)
    | some p =>
      -- An entry of the directory that `readdir` returned.
      if (s.nodeOf v p).isSome && !v.hidden name &&
          (s.host.at_ (getPathForFsitem v s.table p ++ [name])).isSome then
        let (t, k) := findFsitem v name p s.table
        (t, some k)
      else (s.table, none)

/-- The item that is queried and what `stat` finds at its path. -/
def Query.find (v : Volume G N) (s : ExtFs.State G N) (q : Query G N) :
    ExtFs.State G N × Option (Nat × Node) :=
  match q.item v s with
  | (t, none) => ({ s with table := t }, none)
  | (t, some k) =>
    let s := { s with table := t }
    match s.nodeOf v k with
    | none => (s, none)
    | some node => if q.onlyDir && !node.dir then (s, none) else (s.handOut v k, some (k, node))

/-- `fs_get_cat_info`. `listing` is what `readdir` returns, or none when `opendir` fails. -/
def catInfo (v : Volume G N) (s : State G N) (q : Query G N) (listing : Option (List N)) :
    State G N :=
  match q.find v s.base with
  | (base, none) => { s with base }
  | (base, some (k, node)) =>
    let mtime := s.mtime node.obj
    let cached := decide (mtime ≤ (s.cache k).mtime)
    if node.dir then
      let truth := visible v s.base.host node.obj
      if cached then
        { s with base, answers := ((s.cache k).dircount % 2 ^ 16, truth) :: s.answers }
      else
        let count : Int := ((listing.getD []).filter fun n => !v.hidden n).length
        { s with
          base
          cache := Function.update s.cache k ⟨mtime, count⟩
          counted := Function.update s.counted k (listing.map fun _ => node.obj)
          answers := (count % 2 ^ 16, truth) :: s.answers }
    else if cached then { s with base }
    else
      { s with
        base
        cache := Function.update s.cache k ⟨mtime, (s.cache k).dircount⟩
        counted := Function.update s.counted k none }

/-- Files and directories change, and their modification times with them. A directory whose time is
set back counts as one that was not counted. -/
def State.change (s : State G N) (base : ExtFs.State G N) (mtime : Nat → Int) : State G N :=
  { s with
    base
    mtime
    counted := fun k => (s.counted k).filter fun obj => s.mtime obj ≤ mtime obj }

/-- The operations of the file system, changes of the host's files (`fs_delete` is a lookup and such
a change) and queries. -/
inductive Action (G N : Type) where
  | op (op : Op G N) (mtime : Nat → Int)
  | host (host : Host N) (mtime : Nat → Int)
  | catInfo (q : Query G N) (listing : Option (List N))

def step (v : Volume G N) (s : State G N) : Action G N → Option (State G N)
  | .op op mtime => some (s.change (apply v s.base op) mtime)
  | .host host mtime => some (s.change { s.base with host } mtime)
  | .catInfo q listing => some (catInfo v s q listing)

end

/-- `ExtFSInit` leaves the caches of its two items as they are, and `create_fsitem` clears the time
only. -/
def State.start (v : Volume G N) (host : Host N) (mtime : Nat → Int) (heap : Nat → ItemCache) :
    State G N where
  base := .start v host
  mtime := mtime
  cache := fun k => if k < 2 then heap k else ⟨0, (heap k).dircount⟩
  counted := fun _ => none
  answers := []

/-- Every answer is the number of entries. -/
def Coherent (s : State G N) : Prop :=
  ∀ answer ∈ s.answers, answer.1 = answer.2.ncard

-- ---------------------------------------------------------------------------
-- Guards
-- ---------------------------------------------------------------------------

/-- A directory whose entries change gets a later modification time. -/
def Raises (host host' : Host N) (mtime mtime' : Nat → Int) : Prop :=
  ∀ obj, entries host obj ≠ entries host' obj → mtime obj < mtime' obj

/-- What `readdir` returns are the names in the directory; `.` and `..` may be among them. -/
def Lists (v : Volume G N) (host : Host N) (obj : Nat) (names : List N) : Prop :=
  (names.filter fun n => !v.hidden n).Nodup ∧
    ∀ n, n ∈ names.filter (fun n => !v.hidden n) ↔ n ∈ visible v host obj

variable [DecidableEq G] [DecidableEq N] {v : Volume G N} {s s' : State G N}

/-- The host raises modification times and lists directories as they are. -/
def HostFair (v : Volume G N) (s : State G N) : Action G N → Prop
  | .op op mtime => Raises s.base.host (apply v s.base op).host s.mtime mtime
  | .host host mtime => Raises s.base.host host s.mtime mtime
  | .catInfo q listing => ∀ k obj, (q.find v s.base).2 = some (k, ⟨obj, true⟩) →
    ∀ names ∈ listing, Lists v s.base.host obj names

/-- A directory that is queried can be opened when it is counted, and else is the one that the item's
count is of; its entries fit the answer. -/
def CountsSame (v : Volume G N) (s : State G N) : Action G N → Prop
  | .catInfo q listing => ∀ k obj, (q.find v s.base).2 = some (k, ⟨obj, true⟩) →
    (visible v s.base.host obj).ncard < 2 ^ 16 ∧
      if (s.cache k).mtime < s.mtime obj then listing ≠ none else s.counted k = some obj
  | _ => True

def Guard (v : Volume G N) (s : State G N) (a : Action G N) : Prop :=
  HostFair v s a ∧ CountsSame v s a

-- ---------------------------------------------------------------------------
-- The invariant
-- ---------------------------------------------------------------------------

/-- The stored time is not later than the directory's; when it is the same, so is the count. -/
structure Inv (v : Volume G N) (s : State G N) : Prop where
  counted : ∀ {k obj}, s.counted k = some obj → (s.cache k).mtime ≤ s.mtime obj ∧
    ((s.cache k).mtime = s.mtime obj →
      (s.cache k).dircount = (visible v s.base.host obj).ncard)
  coherent : Coherent s

omit [DecidableEq G] [DecidableEq N] in
theorem State.handOut_host (s : ExtFs.State G N) (k : Nat) : (s.handOut v k).host = s.host := by
  unfold State.handOut
  split <;> rfl

theorem Query.find_host (s : ExtFs.State G N) (q : Query G N) : (q.find v s).1.host = s.host := by
  unfold Query.find
  split
  · rfl
  · simp only
    split
    · rfl
    · split
      · rfl
      · exact State.handOut_host _ _

omit [DecidableEq G] [DecidableEq N] in
theorem Lists.ncard {host : Host N} {obj : Nat} {names : List N} (h : Lists v host obj names) :
    (visible v host obj).ncard = (names.filter fun n => !v.hidden n).length := by
  classical
  have hset : visible v host obj = ((names.filter fun n => !v.hidden n).toFinset : Set N) := by
    ext n
    rw [List.coe_toFinset]
    exact (h.2 n).symm
  rw [hset, Set.ncard_coe_finset, List.toFinset_card_of_nodup h.1]

omit [DecidableEq G] [DecidableEq N] in
theorem Coherent.answer {answers : List (Int × Set N)} {count : Int} {truth : Set N}
    (h : ∀ answer ∈ answers, answer.1 = answer.2.ncard) (hcount : count = truth.ncard)
    (hfits : truth.ncard < 2 ^ 16) :
    ∀ answer ∈ (count % 2 ^ 16, truth) :: answers, answer.1 = answer.2.ncard := by
  intro answer hmem
  rcases List.mem_cons.mp hmem with rfl | hmem
  · simp only
    omega
  · exact h answer hmem

omit [DecidableEq G] [DecidableEq N] in
theorem Inv.change (h : Inv v s) {base : ExtFs.State G N} {mtime : Nat → Int}
    (hraises : Raises s.base.host base.host s.mtime mtime) : Inv v (s.change base mtime) := by
  refine ⟨?_, h.coherent⟩
  intro k obj hcounted
  obtain ⟨hcounted, hle⟩ := Option.filter_eq_some_iff.mp hcounted
  have hle : s.mtime obj ≤ mtime obj := of_decide_eq_true hle
  obtain ⟨hstored, hcount⟩ := h.counted hcounted
  refine ⟨hstored.trans hle, ?_⟩
  intro hsame
  have hsame : (s.cache k).mtime = mtime obj := hsame
  -- The time did not move, so neither did the entries.
  have hentries : entries s.base.host obj = entries base.host obj := by
    by_contra hne
    have := hraises obj hne
    omega
  have hvisible : visible v base.host obj = visible v s.base.host obj := by
    unfold visible
    rw [hentries]
  show (s.cache k).dircount = (visible v base.host obj).ncard
  rw [hvisible]
  exact hcount (by omega)

omit [DecidableEq G] [DecidableEq N] in
theorem Inv.rebase (h : Inv v s) {base : ExtFs.State G N} (hbase : base.host = s.base.host)
    {answers : List (Int × Set N)} (hanswers : ∀ answer ∈ answers, answer.1 = answer.2.ncard) :
    Inv v { s with base, answers } := by
  refine ⟨?_, hanswers⟩
  intro k obj hcounted
  simp only [hbase]
  exact h.counted hcounted

omit [DecidableEq G] [DecidableEq N] in
/-- The count of an item is stored for a directory. -/
theorem Inv.store (h : Inv v s) {base : ExtFs.State G N} (hbase : base.host = s.base.host) {k : Nat}
    {stored : ItemCache} {counted : Option Nat} {answers : List (Int × Set N)}
    (hstored : ∀ obj, counted = some obj → stored.mtime = s.mtime obj ∧
      stored.dircount = (visible v s.base.host obj).ncard)
    (hanswers : ∀ answer ∈ answers, answer.1 = answer.2.ncard) :
    Inv v { s with
      base
      cache := Function.update s.cache k stored
      counted := Function.update s.counted k counted
      answers } := by
  refine ⟨?_, hanswers⟩
  intro j obj hj
  simp only [hbase] at hj ⊢
  by_cases hjk : j = k
  · subst hjk
    rw [Function.update_self] at hj
    obtain ⟨hmtime, hcount⟩ := hstored obj hj
    rw [Function.update_self]
    exact ⟨hmtime.le, fun _ => hcount⟩
  · rw [Function.update_of_ne hjk] at hj ⊢
    exact h.counted hj

theorem Inv.catInfo (h : Inv v s) {q : Query G N} {listing : Option (List N)}
    (hguard : Guard v s (.catInfo q listing)) : Inv v (catInfo v s q listing) := by
  obtain ⟨hlists, hsame⟩ := hguard
  have hhost := Query.find_host (v := v) s.base q
  unfold CatInfo.catInfo
  split
  next base hfind =>
    rw [hfind] at hhost
    exact h.rebase hhost h.coherent
  next base k node hfind =>
    rw [hfind] at hhost
    have hhost : base.host = s.base.host := hhost
    obtain ⟨obj, dir⟩ := node
    cases dir with
    | false =>
      simp only [Bool.false_eq_true, if_false]
      split
      · exact h.rebase hhost h.coherent
      · exact h.store hhost (fun _ hnone => nomatch hnone) h.coherent
    | true =>
      obtain ⟨hfits, hsame⟩ := hsame k obj (by rw [hfind])
      have hlists := hlists k obj (by rw [hfind])
      simp only [if_true]
      split
      next hcached =>
        have hcached := of_decide_eq_true hcached
        rw [if_neg (by omega)] at hsame
        obtain ⟨hle, hcount⟩ := h.counted hsame
        exact h.rebase hhost (Coherent.answer h.coherent (hcount (by omega)) hfits)
      next hcached =>
        have hcached : ¬ s.mtime obj ≤ (s.cache k).mtime := fun hle => hcached (decide_eq_true hle)
        rw [if_pos (by omega)] at hsame
        obtain ⟨names, rfl⟩ := Option.ne_none_iff_exists'.mp hsame
        have hcount := (hlists names rfl).ncard
        refine h.store hhost ?_ (Coherent.answer h.coherent ?_ hfits)
        · rintro obj' ⟨⟩
          exact ⟨rfl, by rw [hcount]; rfl⟩
        · rw [hcount]
          rfl

theorem step_inv {a : Action G N} (h : Inv v s) (hguard : Guard v s a) (hstep : step v s a = some s') :
    Inv v s' := by
  cases a with
  | op op mtime =>
    cases hstep
    exact h.change hguard.1
  | host host mtime =>
    cases hstep
    exact h.change hguard.1
  | catInfo q listing =>
    cases hstep
    exact h.catInfo hguard

omit [DecidableEq G] [DecidableEq N] in
theorem start_inv (host : Host N) (mtime : Nat → Int) (heap : Nat → ItemCache) :
    Inv v (.start v host mtime heap) := by
  constructor
  · rintro k obj ⟨⟩
  · rintro answer ⟨⟩

/-- The answers are the numbers of entries in every run in which a stored count is used only for the
directory that was counted. -/
theorem coherent_of_countsSame {host : Host N} {mtime : Nat → Int} {heap : Nat → ItemCache}
    (hrun : Steps.Reaches (step v) (Guard v) (.start v host mtime heap) s) : Coherent s :=
  (hrun.invariant (start_inv host mtime heap) step_inv).coherent

-- ---------------------------------------------------------------------------
-- Two directories that change names
-- ---------------------------------------------------------------------------

/-- An empty directory `a` and a directory `b` with one file. -/
def twoDirs (a b : Nat) : Host Nat where
  at_ path :=
    if path = [] then some ⟨0, true⟩
    else if path = [0] then some ⟨1, true⟩
    else if path = [0, a] then some ⟨2, true⟩
    else if path = [0, b] then some ⟨3, true⟩
    else if path = [0, b, 1] then some ⟨4, false⟩
    else none
  next := 5

/-- The directory with the file is older; the root is as old as it is told. -/
def timesOf (root : Int) (obj : Nat) : Int :=
  if obj = 1 then root else if obj = 3 then 50 else 100

theorem twoDirs_rename_empty : (twoDirs 7 9).rename [0, 7] [0, 8] = twoDirs 8 9 := by
  simp only [Host.rename, twoDirs, Host.mk.injEq, and_true]
  funext path
  rcases path with _ | ⟨a, _ | ⟨b, path⟩⟩
  · rfl
  · simp
  · simp only [List.cons_prefix_cons, List.nil_prefix, and_true]
    grind

theorem twoDirs_rename_full : (twoDirs 8 9).rename [0, 9] [0, 7] = twoDirs 8 7 := by
  simp only [Host.rename, twoDirs, Host.mk.injEq, and_true]
  funext path
  rcases path with _ | ⟨a, _ | ⟨b, path⟩⟩
  · rfl
  · simp
  · simp only [List.cons_prefix_cons, List.nil_prefix, and_true]
    grind

theorem entries_twoDirs {a b : Nat} (hab : a ≠ b) {obj : Nat} (hobj : obj ≠ 1) :
    entries (twoDirs a b) obj = if obj = 0 then {0} else if obj = 3 then {1} else ∅ := by
  ext n
  simp only [entries, Set.mem_ofPred_eq]
  constructor
  · rintro ⟨path, hat, hentry⟩
    simp only [twoDirs] at hat
    split_ifs at hat <;> grind [twoDirs]
  · intro h
    split_ifs at h
    · exact ⟨[], by grind [twoDirs]⟩
    · exact ⟨[0, b], by grind [twoDirs]⟩
    · cases h

/-- Only the root changes, and it gets a later time. -/
theorem twoDirs_raises {a b a' b' : Nat} (hab : a ≠ b) (hab' : a' ≠ b') {root root' : Int}
    (hroot : root < root') :
    Raises (twoDirs a b) (twoDirs a' b') (timesOf root) (timesOf root') := by
  intro obj hne
  by_cases hobj : obj = 1
  · subst hobj
    exact hroot
  · exact absurd (by rw [entries_twoDirs hab hobj, entries_twoDirs hab' hobj]) hne

theorem rename_empty_raises :
    Raises (twoDirs 7 9) ((twoDirs 7 9).rename [0, 7] [0, 8]) (timesOf 200) (timesOf 201) := by
  rw [twoDirs_rename_empty]
  exact twoDirs_raises (by decide) (by decide) (by decide)

theorem rename_full_raises :
    Raises ((twoDirs 7 9).rename [0, 7] [0, 8])
      (((twoDirs 7 9).rename [0, 7] [0, 8]).rename [0, 9] [0, 7]) (timesOf 201) (timesOf 202) := by
  rw [twoDirs_rename_empty, twoDirs_rename_full]
  exact twoDirs_raises (by decide) (by decide) (by decide)

def twoDirsStart : State Nat Nat :=
  .start plainVolume (twoDirs 7 9) (timesOf 200) fun _ => ⟨0, 0⟩

theorem twoDirs_lists_empty : Lists plainVolume (twoDirs 7 9) 2 [] := by
  refine ⟨List.nodup_nil, ?_⟩
  intro n
  simp [visible, entries_twoDirs, plainVolume]

theorem twoDirs_lists_full {a b : Nat} (hab : a ≠ b) : Lists plainVolume (twoDirs a b) 3 [1] := by
  refine ⟨by decide, ?_⟩
  intro n
  simp [visible, entries_twoDirs hab, plainVolume]

/-- The directory with the file gets the name of the empty one after that was counted. -/
def reuseName : List (Action Nat Nat) :=
  [.catInfo (.path 2 [.name 7]) (some []),
    .op (.rename 2 [.name 7] [.name 8]) (timesOf 201),
    .op (.rename 2 [.name 9] [.name 7]) (timesOf 202),
    .catInfo (.path 2 [.name 7]) (some [1])]

theorem reuseName_incoherent :
    ∃ s, Steps.Reaches (step plainVolume) (HostFair plainVolume) twoDirsStart s ∧ ¬ Coherent s := by
  have hrun : Steps.run (step plainVolume) twoDirsStart reuseName = some _ := rfl
  refine ⟨_, Steps.Reaches.start.run_append hrun ⟨?_, ?_, ?_, ?_, trivial⟩, ?_⟩
  · rintro k obj ⟨⟩ names ⟨⟩
    exact twoDirs_lists_empty
  · exact rename_empty_raises
  · exact rename_full_raises
  · rintro k obj ⟨⟩ names ⟨⟩
    show Lists plainVolume (((twoDirs 7 9).rename [0, 7] [0, 8]).rename [0, 9] [0, 7]) 3 [1]
    rw [twoDirs_rename_empty, twoDirs_rename_full]
    exact twoDirs_lists_full (by decide)
  · intro h
    have hlast := h (0, visible plainVolume
      (((twoDirs 7 9).rename [0, 7] [0, 8]).rename [0, 9] [0, 7]) 3) (.head _)
    rw [twoDirs_rename_empty, twoDirs_rename_full,
      (twoDirs_lists_full (by decide : (8 : Nat) ≠ 7)).ncard] at hlast
    exact absurd hlast (by decide)

/-- The directory with the file is counted twice, and again under the name it is moved to. -/
def countMoved : List (Action Nat Nat) :=
  [.catInfo (.path 2 [.name 9]) (some [1]),
    .catInfo (.path 2 [.name 9]) none,
    .op (.rename 2 [.name 7] [.name 8]) (timesOf 201),
    .op (.rename 2 [.name 9] [.name 7]) (timesOf 202),
    .catInfo (.path 2 [.name 7]) (some [1])]

theorem countMoved_coherent :
    ∃ s, Steps.run (step plainVolume) twoDirsStart countMoved = some s ∧
      s.answers.map Prod.fst = [1, 1, 1] ∧ Coherent s := by
  have hrun : Steps.run (step plainVolume) twoDirsStart countMoved = some _ := rfl
  have hone {a b : Nat} (hab : a ≠ b) : (visible plainVolume (twoDirs a b) 3).ncard < 2 ^ 16 := by
    rw [(twoDirs_lists_full hab).ncard]
    decide
  refine ⟨_, hrun, rfl, coherent_of_countsSame (Steps.Reaches.start.run_append hrun ?_)⟩
  refine ⟨⟨?_, ?_⟩, ⟨?_, ?_⟩, ⟨?_, trivial⟩, ⟨?_, trivial⟩, ⟨?_, ?_⟩, trivial⟩
  · rintro k obj ⟨⟩ names ⟨⟩
    exact twoDirs_lists_full (by decide)
  · rintro k obj ⟨⟩
    exact ⟨hone (by decide), nofun⟩
  · rintro k obj ⟨⟩ names ⟨⟩
  · rintro k obj ⟨⟩
    exact ⟨hone (by decide), rfl⟩
  · exact rename_empty_raises
  · exact rename_full_raises
  · rintro k obj ⟨⟩ names ⟨⟩
    show Lists plainVolume (((twoDirs 7 9).rename [0, 7] [0, 8]).rename [0, 9] [0, 7]) 3 [1]
    rw [twoDirs_rename_empty, twoDirs_rename_full]
    exact twoDirs_lists_full (by decide)
  · rintro k obj ⟨⟩
    refine ⟨?_, nofun⟩
    show (visible plainVolume (((twoDirs 7 9).rename [0, 7] [0, 8]).rename [0, 9] [0, 7]) 3).ncard < _
    rw [twoDirs_rename_empty, twoDirs_rename_full]
    exact hone (by decide)

end SheepShear.ExtFs.CatInfo
