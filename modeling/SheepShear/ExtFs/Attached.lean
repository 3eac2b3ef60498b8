import SheepShear.ExtFs.Cnids

/-!
# IDs stay attached to their objects

In every run that renames and moves only objects with nothing inside that was
handed out, an ID leads to the current path of its object. Renaming a directory
after something in it was looked up breaks this.
-/

namespace SheepShear.ExtFs

variable {G N : Type} [DecidableEq G] [DecidableEq N] {v : Volume G N} {s : State G N}

/-- The object of a path name has nothing inside that was handed out. -/
def NothingInsideOf (v : Volume G N) (s : State G N) (dirId : Nat) (cs : List (Component G)) : Prop :=
  ∀ k, (getItemAndPath v dirId cs s.table).2 = some k →
    NothingInside s (getPathForFsitem v (getItemAndPath v dirId cs s.table).1 k)

/-- Path names stay in the volume, and what is renamed or moved has nothing inside that was handed
out. -/
def Guard (v : Volume G N) (s : State G N) : Op G N → Prop
  | .lookup dirId cs => InVolume v dirId cs
  | .lookupDir _ => True
  | .lookupIndex _ _ => True
  | .create dirId cs _ => InVolume v dirId cs
  | .rename dirId cs cs' =>
    InVolume v dirId cs ∧ InVolume v dirId cs' ∧ NothingInsideOf v s dirId cs
  | .catMove dirId cs newDirId cs' =>
    InVolume v dirId cs ∧ InVolume v newDirId cs' ∧ ¬ (newDirId = rootParentId ∧ cs' = []) ∧
      NothingInsideOf v s dirId cs

theorem lookup_inv (h : Inv v s) {dirId : Nat} {cs : List (Component G)} (hvol : InVolume v dirId cs) :
    Inv v (apply v s (.lookup dirId cs)) := by
  have hgrows := (getItemAndPath_grows h.wf hvol).1
  simp only [apply]
  split
  next t ht =>
    rw [ht] at hgrows
    exact h.grow hgrows
  next t k ht =>
    rw [ht] at hgrows
    exact (h.grow hgrows).handOut k

theorem lookupIndex_inv (h : Inv v s) (dirId : Nat) (name : N) :
    Inv v (apply v s (.lookupIndex dirId name)) := by
  simp only [apply]
  split
  next => exact h
  next p hp =>
    split_ifs with hentry
    · simp only [Bool.and_eq_true] at hentry
      obtain ⟨node, hnode⟩ := Option.isSome_iff_exists.mp hentry.1.1
      obtain ⟨hp1, hplen, -⟩ := nodeOf_some h.wf hnode
      exact (h.grow (findFsitem_found h.wf name hp1 hplen).grows).handOut _
    · exact h

theorem create_inv (h : Inv v s) {dirId : Nat} {cs : List (Component G)} (hvol : InVolume v dirId cs)
    (dir : Bool) : Inv v (apply v s (.create dirId cs dir)) := by
  have hgrows := (getItemAndPath_grows h.wf hvol).1
  simp only [apply]
  split
  next t ht =>
    rw [ht] at hgrows
    exact h.grow hgrows
  next t k ht =>
    rw [ht] at hgrows
    have hgrown := h.grow hgrows
    split_ifs with hfree hdir
    · rw [Bool.and_eq_true] at hfree
      exact (hgrown.create dir hfree.2).handOut k
    · rw [Bool.and_eq_true] at hfree
      exact hgrown.create dir hfree.2
    · exact hgrown

theorem rename_inv (h : Inv v s) {dirId : Nat} {cs cs' : List (Component G)}
    (hvol : InVolume v dirId cs) (hvol' : InVolume v dirId cs')
    (hnothing : NothingInsideOf v s dirId cs) : Inv v (apply v s (.rename dirId cs cs')) := by
  obtain ⟨hgrows, hitem⟩ := getItemAndPath_grows h.wf hvol
  simp only [apply]
  split
  next t ht =>
    rw [ht] at hgrows
    exact h.grow hgrows
  next t i ht =>
    have hinside := hnothing i (by rw [ht])
    rw [ht] at hgrows hitem hinside
    obtain ⟨hgrows', hitem'⟩ := getItemAndPath_grows hgrows.wf hvol'
    split
    next t' ht' =>
      rw [ht'] at hgrows'
      exact h.grow (hgrows.trans hgrows')
    next t' j ht' =>
      rw [ht'] at hgrows' hitem'
      have hgrown := h.grow (hgrows.trans hgrows')
      split_ifs with hcan
      · have hi : 1 ≤ i := by
          simp only [State.canRename, Bool.and_eq_true] at hcan
          obtain ⟨node, hnode⟩ := Option.isSome_iff_exists.mp hcan.1.1.1
          exact (nodeOf_some hgrown.wf hnode).1
        have hpath : getPathForFsitem v t i = getPathForFsitem v t' i :=
          (hgrows'.path hgrows.wf hi (hitem rfl).1).symm
        rw [hpath] at hcan hinside ⊢
        exact hgrown.exchange (hitem' rfl).1 hcan hinside
      · exact hgrown

theorem catMove_inv (h : Inv v s) {dirId newDirId : Nat} {cs cs' : List (Component G)}
    (hvol : InVolume v dirId cs) (hvol' : InVolume v newDirId cs')
    (hdir : ¬ (newDirId = rootParentId ∧ cs' = [])) (hnothing : NothingInsideOf v s dirId cs) :
    Inv v (apply v s (.catMove dirId cs newDirId cs')) := by
  obtain ⟨hgrows, hitem⟩ := getItemAndPath_grows h.wf hvol
  simp only [apply]
  split
  next t ht =>
    rw [ht] at hgrows
    exact h.grow hgrows
  next t i ht =>
    have hinside := hnothing i (by rw [ht])
    rw [ht] at hgrows hitem hinside
    obtain ⟨hgrows', hitem'⟩ := getItemAndPath_grows hgrows.wf hvol'
    split
    next t' ht' =>
      rw [ht'] at hgrows'
      exact h.grow (hgrows.trans hgrows')
    next t' d ht' =>
      rw [ht'] at hgrows' hitem'
      have hgrown := h.grow (hgrows.trans hgrows')
      split
      next => exact hgrown
      next it hit =>
        split_ifs with hcan
        · have hi : 1 ≤ i := by
            simp only [State.canRename, Bool.and_eq_true] at hcan
            obtain ⟨node, hnode⟩ := Option.isSome_iff_exists.mp hcan.1.1.1
            exact (nodeOf_some hgrown.wf hnode).1
          have hilen := (hitem rfl).1
          have hd : 1 ≤ d := ((hitem' rfl).2).resolve_right hdir
          have hilen' := hgrows'.length hilen
          have hfound := findFsitem_found hgrows'.wf it.name hd (hitem' rfl).1
          have hpath : getPathForFsitem v t i = getPathForFsitem v t' i :=
            (hgrows'.path hgrows.wf hi hilen).symm
          have hpath' := hfound.grows.path hgrows'.wf hi hilen'
          have hnew := hfound.path
          rw [hfound.grows.path hgrows'.wf hd (hitem' rfl).1] at hnew
          rw [hpath, ← hpath', ← hnew] at hcan ⊢
          rw [hpath, ← hpath'] at hinside
          refine (hgrown.grow hfound.grows).exchange hfound.length ?_ hinside
          simp only [State.canRename, Bool.and_eq_true] at hcan ⊢
          refine ⟨⟨⟨?_, hcan.1.1.2⟩, hcan.1.2⟩, hcan.2⟩
          have hsome := hcan.1.1.1
          simp only [State.nodeOf, hit, hfound.grows.keeps hit, hpath'] at hsome ⊢
          exact hsome
        · exact hgrown

-- ---------------------------------------------------------------------------
-- Runs
-- ---------------------------------------------------------------------------

def step (v : Volume G N) (s : State G N) (op : Op G N) : Option (State G N) :=
  some (apply v s op)

/-- `ExtFSInit` over a host. -/
def State.start (v : Volume G N) (host : Host N) : State G N := ⟨.init v, host, []⟩

/-- Every ID that was handed out leads to the path of its object as long as that exists, and to the
ID of the directory it is in. -/
def Attached (v : Volume G N) (s : State G N) : Prop :=
  ∀ c o path node, (c, o) ∈ s.given → s.host.at_ path = some node → node.obj = o →
    ∃ k it, findFsitemById c s.table = some k ∧ s.table.items[k]? = some it ∧
      getPathForFsitem v s.table k = path ∧
      (path ≠ v.rootPath → ∃ d, findFsitemById it.parentId s.table = some d ∧
        getPathForFsitem v s.table d = path.dropLast)

omit [DecidableEq G] [DecidableEq N] in
theorem start_inv {host : Host N} (h : HostOk host) : Inv v (.start v host) := by
  refine ⟨init_wellFormed v, h, ?_, ?_⟩
  · intro c o hmem
    cases hmem
  · intro c o path node hmem
    cases hmem

theorem step_inv {s' : State G N} {op : Op G N} (h : Inv v s) (hguard : Guard v s op)
    (hstep : step v s op = some s') : Inv v s' := by
  cases hstep
  cases op with
  | lookup dirId cs => exact lookup_inv h hguard
  | lookupDir dirId =>
    simp only [apply]
    split
    · exact h
    · exact h.handOut _
  | lookupIndex dirId name => exact lookupIndex_inv h dirId name
  | create dirId cs dir => exact create_inv h hguard dir
  | rename dirId cs cs' =>
    obtain ⟨hvol, hvol', hnothing⟩ := hguard
    exact rename_inv h hvol hvol' hnothing
  | catMove dirId cs newDirId cs' =>
    obtain ⟨hvol, hvol', hdir, hnothing⟩ := hguard
    exact catMove_inv h hvol hvol' hdir hnothing

omit [DecidableEq G] [DecidableEq N] in
theorem Inv.attached (h : Inv v s) : Attached v s := by
  intro c o path node hmem hnode hobj
  obtain ⟨k, it, hit, hk, hid, rfl⟩ := h.given hmem hnode hobj
  refine ⟨k, it, (findFsitemById_some h.wf).mpr ⟨it, hit, hid⟩, hit, rfl, ?_⟩
  intro hroot
  have hk2 : 2 ≤ k := by
    by_contra hlt
    obtain rfl : k = 1 := by omega
    exact hroot (path_root h.wf)
  obtain ⟨p, hp, -, hplt⟩ := h.wf.child hk2 hit
  have hklen := (List.getElem?_eq_some_iff.mp hit).1
  have hparent := List.getElem?_eq_getElem (hplt.trans hklen)
  refine ⟨p, (findFsitemById_some h.wf).mpr ⟨_, hparent, ?_⟩, ?_⟩
  · exact (h.wf.parentIds hit hp hparent).symm
  · rw [path_child h.wf hk2 hit hp, List.dropLast_concat]

/-- Names are numbers; the root is the directory `0`. -/
def plainVolume : Volume Nat Nat where
  toHost := id
  toGuest := id
  toHost_toGuest _ := rfl
  toGuest_toHost _ := rfl
  rootPath := [0]
  volumeName := 0
  emptyName := 1
  hidden _ := false

def emptyHost : Host Nat where
  at_ path := if path = [] then some ⟨0, true⟩ else if path = [0] then some ⟨1, true⟩ else none
  next := 2

theorem emptyHost_at {p : List Nat} {a : Node} (h : emptyHost.at_ p = some a) :
    p = [] ∧ a = ⟨0, true⟩ ∨ p = [0] ∧ a = ⟨1, true⟩ := by
  simp only [emptyHost] at h
  split_ifs at h with hp hp'
  · exact .inl ⟨hp, (Option.some.inj h).symm⟩
  · exact .inr ⟨hp', (Option.some.inj h).symm⟩

theorem emptyHost_ok : HostOk emptyHost := by
  constructor
  · intro p q a b ha hb hobj
    obtain ⟨rfl, rfl⟩ | ⟨rfl, rfl⟩ := emptyHost_at ha <;>
      obtain ⟨rfl, rfl⟩ | ⟨rfl, rfl⟩ := emptyHost_at hb <;> simp_all
  · intro p n hne
    obtain ⟨a, ha⟩ := Option.ne_none_iff_exists'.mp hne
    obtain ⟨hp, -⟩ | ⟨hp, -⟩ := emptyHost_at ha
    · simp at hp
    · cases p with
      | nil => simp [emptyHost]
      | cons m p => simp at hp
  · intro p a ha
    obtain ⟨-, rfl⟩ | ⟨-, rfl⟩ := emptyHost_at ha <;> decide

/-- A directory and a file are made, and the file is moved into the directory. -/
def moveFile : List (Op Nat Nat) :=
  [.create 2 [.name 5] true, .create 2 [.name 6] false, .lookup 2 [.name 6],
    .catMove 2 [.name 6] 16 []]

/-- A directory is renamed after a file in it was looked up. -/
def renameParent : List (Op Nat Nat) :=
  [.create 2 [.name 5] true, .create 16 [.name 6] false, .lookup 16 [.name 6],
    .rename 2 [.name 5] [.name 7]]

end SheepShear.ExtFs
