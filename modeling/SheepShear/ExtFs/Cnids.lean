import SheepShear.ExtFs.Catalog

/-!
# Catalog IDs and the objects they stand for

The path of an item never changes, and different items have different paths. So
an ID that was handed out stays with its object as long as the item at the path
of the object has the ID: renaming or moving an object keeps this for the object
itself, but not for what is inside of a directory.
-/

namespace SheepShear.ExtFs

variable {G N : Type} {v : Volume G N} {t t' : Table G N}

-- ---------------------------------------------------------------------------
-- Tables
-- ---------------------------------------------------------------------------

structure WellFormed (v : Volume G N) (t : Table G N) : Prop where
  rootParent : ∃ it, t.items[0]? = some it ∧ it.id = rootParentId ∧ it.parent = none
  root : ∃ it, t.items[1]? = some it ∧ it.id = rootId ∧ it.parent = some 0 ∧
    it.guestName = v.volumeName
  child : ∀ {k : Nat} {it : FSItem G N}, 2 ≤ k → t.items[k]? = some it → ∃ p, it.parent = some p ∧ 1 ≤ p ∧ p < k
  ids : ∀ {j k : Nat} {a b : FSItem G N}, t.items[j]? = some a → t.items[k]? = some b → a.id = b.id → j = k
  idLt : ∀ {k : Nat} {it : FSItem G N}, t.items[k]? = some it → it.id < t.nextCnid
  next : fsUsrCnid ≤ t.nextCnid
  unique : ∀ {j k : Nat} {a b : FSItem G N}, t.items[j]? = some a → t.items[k]? = some b → a.parent = b.parent →
    a.name = b.name → j = k
  names : ∀ {k : Nat} {it : FSItem G N}, t.items[k]? = some it → it.name = v.toHost it.guestName
  parentIds : ∀ {k p : Nat} {it q : FSItem G N}, t.items[k]? = some it → it.parent = some p →
    t.items[p]? = some q → it.parentId = q.id

theorem init_wellFormed (v : Volume G N) : WellFormed v (.init v) := by
  have hitem : ∀ {k : Nat} {it : FSItem G N}, (Table.init v).items[k]? = some it →
      k = 0 ∧ it = ⟨rootParentId, 0, none, v.toHost v.emptyName, v.emptyName⟩ ∨
      k = 1 ∧ it = ⟨rootId, rootParentId, some 0, v.toHost v.volumeName, v.volumeName⟩ := by
    intro k it h
    match k, h with
    | 0, h => exact .inl ⟨rfl, (Option.some.inj h).symm⟩
    | 1, h => exact .inr ⟨rfl, (Option.some.inj h).symm⟩
    | k + 2, h => simp [Table.init] at h
  refine ⟨⟨_, rfl, rfl, rfl⟩, ⟨_, rfl, rfl, rfl, rfl⟩, ?_, ?_, ?_, le_rfl, ?_, ?_, ?_⟩
  · intro k it hk h
    obtain ⟨rfl, -⟩ | ⟨rfl, -⟩ := hitem h <;> omega
  · intro j k a b ha hb hid
    obtain ⟨rfl, rfl⟩ | ⟨rfl, rfl⟩ := hitem ha <;> obtain ⟨rfl, rfl⟩ | ⟨rfl, rfl⟩ := hitem hb <;>
      simp_all [rootId, rootParentId]
  · intro k it h
    obtain ⟨-, rfl⟩ | ⟨-, rfl⟩ := hitem h <;> simp [Table.init, rootParentId, rootId, fsUsrCnid]
  · intro j k a b ha hb hparent hname
    obtain ⟨rfl, rfl⟩ | ⟨rfl, rfl⟩ := hitem ha <;> obtain ⟨rfl, rfl⟩ | ⟨rfl, rfl⟩ := hitem hb <;>
      simp_all
  · intro k it h
    obtain ⟨-, rfl⟩ | ⟨-, rfl⟩ := hitem h <;> rfl
  · intro k p it q h hp hq
    obtain ⟨-, rfl⟩ | ⟨-, rfl⟩ := hitem h
    · cases hp
    · cases hp
      cases hq
      rfl

theorem WellFormed.length (h : WellFormed v t) : 2 ≤ t.items.length := by
  obtain ⟨it, hit, -⟩ := h.root
  obtain ⟨hlt, -⟩ := List.getElem?_eq_some_iff.mp hit
  exact hlt

theorem WellFormed.id_ne (h : WellFormed v t) {k : Nat} {it : FSItem G N} (hk : 2 ≤ k)
    (hit : t.items[k]? = some it) : it.id ≠ rootParentId ∧ it.id ≠ rootId := by
  obtain ⟨a, ha, hid, -⟩ := h.rootParent
  obtain ⟨b, hb, hid', -⟩ := h.root
  constructor
  · intro heq
    have := h.ids hit ha (heq.trans hid.symm)
    omega
  · intro heq
    have := h.ids hit hb (heq.trans hid'.symm)
    omega

-- ---------------------------------------------------------------------------
-- Paths
-- ---------------------------------------------------------------------------

theorem pathFrom_stable (h : WellFormed v t) {n m k : Nat} (hn : k < n) (hm : k < m) :
    pathFrom v.rootPath t.items n k = pathFrom v.rootPath t.items m k := by
  induction n generalizing m k with
  | zero => omega
  | succ n ih =>
    obtain ⟨m, rfl⟩ : ∃ m', m = m' + 1 := ⟨m - 1, by omega⟩
    unfold pathFrom
    cases hit : t.items[k]? with
    | none => rfl
    | some it =>
      dsimp only
      split_ifs with h1 h2
      · rfl
      · rfl
      · have hk : 2 ≤ k := by
          by_contra hlt
          obtain ⟨a, ha, hid, -⟩ := h.rootParent
          obtain ⟨b, hb, hid', -⟩ := h.root
          obtain rfl | rfl : k = 0 ∨ k = 1 := by omega
          · rw [ha] at hit
            cases hit
            exact h1 hid
          · rw [hb] at hit
            cases hit
            exact h2 hid'
        obtain ⟨p, hp, -, hlt⟩ := h.child hk hit
        simp only [hp, ih (show p < n by omega) (show p < m by omega)]

theorem path_root (h : WellFormed v t) : getPathForFsitem v t 1 = v.rootPath := by
  obtain ⟨it, hit, hid, -⟩ := h.root
  rw [getPathForFsitem, pathFrom_stable h (m := 2) h.length (by decide)]
  simp [pathFrom, hit, hid, rootId, rootParentId]

theorem path_child (h : WellFormed v t) {k p : Nat} {it : FSItem G N} (hk : 2 ≤ k)
    (hit : t.items[k]? = some it) (hp : it.parent = some p) :
    getPathForFsitem v t k = getPathForFsitem v t p ++ [it.name] := by
  obtain ⟨hlen, -⟩ := List.getElem?_eq_some_iff.mp hit
  obtain ⟨q, hq, -, hlt⟩ := h.child hk hit
  obtain rfl : p = q := Option.some.inj (hp.symm.trans hq)
  obtain ⟨hne, hne'⟩ := h.id_ne hk hit
  rw [getPathForFsitem, pathFrom_stable h (m := k + 1) hlen (by omega), getPathForFsitem,
    pathFrom_stable h (k := p) (m := k) (by omega) hlt]
  simp [pathFrom, hit, hne, hne', hp]

/-- The root is the only item with the path of the root. -/
theorem path_length (h : WellFormed v t) {k : Nat} (hk : 1 ≤ k) (hlen : k < t.items.length) :
    v.rootPath.length ≤ (getPathForFsitem v t k).length ∧
      (k ≠ 1 → v.rootPath.length < (getPathForFsitem v t k).length) := by
  induction k using Nat.strong_induction_on with
  | _ k ih =>
    obtain rfl | hk2 : k = 1 ∨ 2 ≤ k := by omega
    · rw [path_root h]
      exact ⟨le_rfl, fun hne => absurd rfl hne⟩
    · have hit := List.getElem?_eq_getElem hlen
      obtain ⟨p, hp, hp1, hlt⟩ := h.child hk2 hit
      have := (ih p hlt hp1 (by omega)).1
      rw [path_child h hk2 hit hp, List.length_append, List.length_singleton]
      omega

theorem path_injective (h : WellFormed v t) {j k : Nat} (hj : 1 ≤ j) (hjlen : j < t.items.length)
    (hk : 1 ≤ k) (hklen : k < t.items.length)
    (heq : getPathForFsitem v t j = getPathForFsitem v t k) : j = k := by
  induction j using Nat.strong_induction_on generalizing k with
  | _ j ih =>
    have hjp := path_length h hj hjlen
    have hkp := path_length h hk hklen
    obtain rfl | hj2 : j = 1 ∨ 2 ≤ j := by omega
    · by_contra hne
      have := hkp.2 (Ne.symm hne)
      rw [← heq, path_root h] at this
      omega
    · obtain rfl | hk2 : k = 1 ∨ 2 ≤ k := by omega
      · have := hjp.2 (by omega)
        rw [heq, path_root h] at this
        omega
      · have hit := List.getElem?_eq_getElem hjlen
        have hit' := List.getElem?_eq_getElem hklen
        obtain ⟨p, hp, hp1, hplt⟩ := h.child hj2 hit
        obtain ⟨q, hq, hq1, hqlt⟩ := h.child hk2 hit'
        rw [path_child h hj2 hit hp, path_child h hk2 hit' hq] at heq
        obtain ⟨hpath, hname⟩ := List.append_inj' heq rfl
        obtain rfl := ih p hplt hp1 (by omega) hq1 (by omega) hpath
        exact h.unique hit hit' (hp.trans hq.symm) (List.singleton_inj.mp hname)

/-- Paths depend on the parents and names only. -/
theorem path_congr (h : WellFormed v t) (h' : WellFormed v t')
    (hskel : ∀ {k : Nat} {it : FSItem G N}, t.items[k]? = some it →
      ∃ it', t'.items[k]? = some it' ∧ it'.parent = it.parent ∧ it'.name = it.name)
    {k : Nat} (hk : 1 ≤ k) (hlen : k < t.items.length) :
    getPathForFsitem v t' k = getPathForFsitem v t k := by
  induction k using Nat.strong_induction_on with
  | _ k ih =>
    obtain rfl | hk2 : k = 1 ∨ 2 ≤ k := by omega
    · rw [path_root h, path_root h']
    · have hit := List.getElem?_eq_getElem hlen
      obtain ⟨it', hit', hparent, hname⟩ := hskel hit
      obtain ⟨p, hp, hp1, hlt⟩ := h.child hk2 hit
      rw [path_child h hk2 hit hp, path_child h' hk2 hit' (hparent.trans hp), hname,
        ih p hlt hp1 (by omega)]

-- ---------------------------------------------------------------------------
-- Finding and making items
-- ---------------------------------------------------------------------------

/-- A table with more items. -/
structure Grows (v : Volume G N) (t t' : Table G N) : Prop where
  wf : WellFormed v t'
  keeps : ∀ {k : Nat} {it : FSItem G N}, t.items[k]? = some it → t'.items[k]? = some it

theorem Grows.refl (h : WellFormed v t) : Grows v t t := ⟨h, id⟩

theorem Grows.trans {t'' : Table G N} (h : Grows v t t') (h' : Grows v t' t'') : Grows v t t'' :=
  ⟨h'.wf, fun hit => h'.keeps (h.keeps hit)⟩

theorem Grows.path (h : WellFormed v t) (hg : Grows v t t') {k : Nat} (hk : 1 ≤ k)
    (hlen : k < t.items.length) : getPathForFsitem v t' k = getPathForFsitem v t k :=
  path_congr h hg.wf (fun hit => ⟨_, hg.keeps hit, rfl, rfl⟩) hk hlen

theorem Grows.length (hg : Grows v t t') {k : Nat} (hlen : k < t.items.length) :
    k < t'.items.length := by
  have hit := hg.keeps (List.getElem?_eq_getElem hlen)
  exact (List.getElem?_eq_some_iff.mp hit).1

/-- An item below another one is none of the first two. -/
theorem WellFormed.two_le (h : WellFormed v t) {k p : Nat} {it : FSItem G N} (hp : 1 ≤ p)
    (hit : t.items[k]? = some it) (hparent : it.parent = some p) : 2 ≤ k := by
  obtain ⟨a, ha, -, hnone⟩ := h.rootParent
  obtain ⟨b, hb, -, hzero, -⟩ := h.root
  by_contra hlt
  obtain rfl | rfl : k = 0 ∨ k = 1 := by omega
  · rw [ha] at hit
    cases hit
    rw [hnone] at hparent
    cases hparent
  · rw [hb] at hit
    cases hit
    rw [hzero] at hparent
    cases hparent
    omega

/-- The item with this parent and name is in the table at `k`, made if it was not there. -/
structure Found (v : Volume G N) (t : Table G N) (name : N) (p : Nat) (t' : Table G N) (k : Nat) :
    Prop where
  grows : Grows v t t'
  two_le : 2 ≤ k
  item : ∃ it, t'.items[k]? = some it ∧ it.parent = some p ∧ it.name = name

theorem Found.length {name : N} {p k : Nat} (h : Found v t name p t' k) : k < t'.items.length := by
  obtain ⟨it, hit, -⟩ := h.item
  exact (List.getElem?_eq_some_iff.mp hit).1

theorem Found.path {name : N} {p k : Nat} (h : Found v t name p t' k) :
    getPathForFsitem v t' k = getPathForFsitem v t' p ++ [name] := by
  obtain ⟨it, hit, hparent, rfl⟩ := h.item
  exact path_child h.grows.wf h.two_le hit hparent

theorem createFsitem_found (h : WellFormed v t) {name : N} {g : G} {p : Nat} (hp : 1 ≤ p)
    (hplen : p < t.items.length) (hname : name = v.toHost g)
    (hnew : ∀ {k : Nat} {it : FSItem G N}, t.items[k]? = some it → it.parent = some p →
      it.name ≠ name) :
    Found v t name p (createFsitem name g p t).1 (createFsitem name g p t).2 := by
  obtain ⟨q, hq⟩ : ∃ q, t.items[p]? = some q := ⟨_, List.getElem?_eq_getElem hplen⟩
  let new : FSItem G N := ⟨t.nextCnid, q.id, some p, name, g⟩
  have heq : createFsitem name g p t =
      (⟨t.items ++ [new], t.nextCnid + 1⟩, t.items.length) := by
    simp [createFsitem, hq, new]
  have hold : ∀ {k : Nat} {it : FSItem G N}, t.items[k]? = some it →
      (t.items ++ [new])[k]? = some it := by
    intro k it hit
    rw [List.getElem?_append_left (List.getElem?_eq_some_iff.mp hit).1, hit]
  have hcases : ∀ {k : Nat} {it : FSItem G N}, (t.items ++ [new])[k]? = some it →
      t.items[k]? = some it ∨ k = t.items.length ∧ it = new := by
    intro k it hit
    rcases lt_trichotomy k t.items.length with hlt | rfl | hgt
    · rw [List.getElem?_append_left hlt] at hit
      exact .inl hit
    · rw [List.getElem?_concat_length] at hit
      exact .inr ⟨rfl, (Option.some.inj hit).symm⟩
    · rw [List.getElem?_eq_none (by simpa using hgt)] at hit
      cases hit
  have hlen := h.length
  rw [heq]
  refine ⟨⟨?_, hold⟩, hlen, new, by simp, rfl, rfl⟩
  constructor
  case rootParent =>
    obtain ⟨it, hit, hrest⟩ := h.rootParent
    exact ⟨it, hold hit, hrest⟩
  case root =>
    obtain ⟨it, hit, hrest⟩ := h.root
    exact ⟨it, hold hit, hrest⟩
  case child =>
    intro k it hk hit
    obtain hit | ⟨rfl, rfl⟩ := hcases hit
    · exact h.child hk hit
    · exact ⟨p, rfl, hp, hplen⟩
  case ids =>
    intro j k a b ha hb hid
    obtain ha | ⟨rfl, rfl⟩ := hcases ha <;> obtain hb | ⟨rfl, rfl⟩ := hcases hb
    · exact h.ids ha hb hid
    · have := h.idLt ha
      simp only [new] at hid
      omega
    · have := h.idLt hb
      simp only [new] at hid
      omega
    · rfl
  case idLt =>
    intro k it hit
    obtain hit | ⟨rfl, rfl⟩ := hcases hit
    · exact (h.idLt hit).trans (Nat.lt_succ_self _)
    · exact Nat.lt_succ_self _
  case next => exact h.next.trans (Nat.le_succ _)
  case unique =>
    intro j k a b ha hb hparent hname
    obtain ha | ⟨rfl, rfl⟩ := hcases ha <;> obtain hb | ⟨rfl, rfl⟩ := hcases hb
    · exact h.unique ha hb hparent hname
    · exact absurd hname (hnew ha hparent)
    · exact absurd hname.symm (hnew hb hparent.symm)
    · rfl
  case names =>
    intro k it hit
    obtain hit | ⟨rfl, rfl⟩ := hcases hit
    · exact h.names hit
    · exact hname
  case parentIds =>
    intro k p' it q' hit hparent hq'
    obtain hit | ⟨rfl, rfl⟩ := hcases hit
    · have hlt : p' < t.items.length := by
        by_cases hk : 2 ≤ k
        · obtain ⟨r, hr, -, hrlt⟩ := h.child hk hit
          have hklen := (List.getElem?_eq_some_iff.mp hit).1
          obtain rfl : p' = r := Option.some.inj (hparent.symm.trans hr)
          omega
        · obtain ⟨a, ha, -, hnone⟩ := h.rootParent
          obtain ⟨b, hb, -, hzero, -⟩ := h.root
          obtain rfl | rfl : k = 0 ∨ k = 1 := by omega
          · rw [ha] at hit
            cases hit
            rw [hnone] at hparent
            cases hparent
          · rw [hb] at hit
            cases hit
            rw [hzero] at hparent
            cases hparent
            omega
      rw [List.getElem?_append_left hlt] at hq'
      exact h.parentIds hit hparent hq'
    · cases hparent
      rw [hold hq] at hq'
      cases hq'
      rfl

theorem findFsitem_found [DecidableEq N] (h : WellFormed v t) (name : N) {p : Nat} (hp : 1 ≤ p)
    (hplen : p < t.items.length) :
    Found v t name p (findFsitem v name p t).1 (findFsitem v name p t).2 := by
  unfold findFsitem
  split
  next k hk =>
    obtain ⟨hlt, hmatch, -⟩ := List.findIdx?_eq_some_iff_getElem.mp hk
    obtain ⟨hparent, hname⟩ := of_decide_eq_true hmatch
    have hit := List.getElem?_eq_getElem hlt
    exact ⟨.refl h, h.two_le hp hit hparent, _, hit, hparent, hname⟩
  next hnone =>
    refine createFsitem_found h hp hplen (v.toHost_toGuest name).symm ?_
    intro k it hit hparent hname
    have := List.findIdx?_eq_none_iff.mp hnone it (List.mem_of_getElem? hit)
    simp [hparent, hname] at this

theorem findFsitemGuest_found [DecidableEq G] (h : WellFormed v t) (g : G) {p : Nat} (hp : 1 ≤ p)
    (hplen : p < t.items.length) :
    Found v t (v.toHost g) p (findFsitemGuest v g p t).1 (findFsitemGuest v g p t).2 := by
  unfold findFsitemGuest
  split
  next k hk =>
    obtain ⟨hlt, hmatch, -⟩ := List.findIdx?_eq_some_iff_getElem.mp hk
    obtain ⟨hparent, hname⟩ := of_decide_eq_true hmatch
    have hit := List.getElem?_eq_getElem hlt
    exact ⟨.refl h, h.two_le hp hit hparent, _, hit, hparent, by rw [h.names hit, hname]⟩
  next hnone =>
    refine createFsitem_found h hp hplen rfl ?_
    intro k it hit hparent hname
    have := List.findIdx?_eq_none_iff.mp hnone it (List.mem_of_getElem? hit)
    rw [h.names hit] at hname
    have hguest : it.guestName = g := by
      rw [← v.toGuest_toHost it.guestName, hname, v.toGuest_toHost]
    simp [hparent, hguest] at this

theorem findFsitemById_some (h : WellFormed v t) {cnid k : Nat} :
    findFsitemById cnid t = some k ↔ ∃ it, t.items[k]? = some it ∧ it.id = cnid := by
  unfold findFsitemById
  constructor
  · intro hk
    obtain ⟨hlt, hmatch, -⟩ := List.findIdx?_eq_some_iff_getElem.mp hk
    exact ⟨_, List.getElem?_eq_getElem hlt, of_decide_eq_true hmatch⟩
  · rintro ⟨it, hit, hid⟩
    obtain ⟨hlt, hget⟩ := List.getElem?_eq_some_iff.mp hit
    refine List.findIdx?_eq_some_iff_getElem.mpr ⟨hlt, by simp [hget, hid], ?_⟩
    intro j hj hjk
    have := h.ids (List.getElem?_eq_getElem (hj.trans hlt)) hit ((of_decide_eq_true hjk).trans hid.symm)
    omega

-- ---------------------------------------------------------------------------
-- Path names
-- ---------------------------------------------------------------------------

/-- A path name starts in the volume: from the root's parent it goes to the root. -/
def InVolume (v : Volume G N) (dirId : Nat) (cs : List (Component G)) : Prop :=
  dirId ≠ rootParentId ∨ cs = [] ∨ ∃ cs', cs = .name v.volumeName :: cs'

theorem walk_grows [DecidableEq G] (h : WellFormed v t) (cs : List (Component G)) {p : Nat}
    (hp : 1 ≤ p) (hplen : p < t.items.length) :
    Grows v t (walk v cs p t).1 ∧
      ∀ {k}, (walk v cs p t).2 = some k → 1 ≤ k ∧ k < (walk v cs p t).1.items.length := by
  induction cs generalizing p t with
  | nil =>
    refine ⟨.refl h, ?_⟩
    rintro k ⟨⟩
    exact ⟨hp, hplen⟩
  | cons c cs ih =>
    cases c with
    | up =>
      have hit := List.getElem?_eq_getElem hplen
      simp only [walk, hit]
      split_ifs with hid
      · have hp2 : 2 ≤ p := by
          by_contra hlt
          obtain ⟨r, hr, hrid, -⟩ := h.root
          obtain rfl : p = 1 := by omega
          rw [hit] at hr
          cases hr
          exact hid hrid
        obtain ⟨q, hq, hq1, hqlt⟩ := h.child hp2 hit
        simp only [hq]
        exact ih h hq1 (by omega)
      · exact ⟨.refl h, by simp⟩
    | name g =>
      have hfound := findFsitemGuest_found h g hp hplen
      obtain ⟨hgrows, hk⟩ := ih hfound.grows.wf (by have := hfound.two_le; omega) hfound.length
      exact ⟨hfound.grows.trans hgrows, hk⟩

theorem findFsitemGuest_root [DecidableEq G] (h : WellFormed v t) :
    findFsitemGuest v v.volumeName 0 t = (t, 1) := by
  obtain ⟨r, hr, -, hzero, hname⟩ := h.root
  obtain ⟨a, ha, -, hnone⟩ := h.rootParent
  obtain ⟨hlt, hget⟩ := List.getElem?_eq_some_iff.mp hr
  have hidx : (t.items.findIdx? fun it => it.parent = some 0 ∧ it.guestName = v.volumeName) =
      some 1 := by
    refine List.findIdx?_eq_some_iff_getElem.mpr ⟨hlt, by simp [hget, hzero, hname], ?_⟩
    intro j hj
    obtain rfl : j = 0 := by omega
    obtain ⟨_, hget0⟩ := List.getElem?_eq_some_iff.mp ha
    simp [hget0, hnone]
  simp only [findFsitemGuest, hidx]

/-- A path name in the volume leads to an item of the volume, or stays at the root's parent. -/
theorem getItemAndPath_grows [DecidableEq G] (h : WellFormed v t) {dirId : Nat}
    {cs : List (Component G)} (hvol : InVolume v dirId cs) :
    Grows v t (getItemAndPath v dirId cs t).1 ∧
      ∀ {k}, (getItemAndPath v dirId cs t).2 = some k →
        k < (getItemAndPath v dirId cs t).1.items.length ∧
          (1 ≤ k ∨ dirId = rootParentId ∧ cs = []) := by
  unfold getItemAndPath
  cases hdir : findFsitemById dirId t with
  | none => exact ⟨.refl h, by simp⟩
  | some p =>
    obtain ⟨it, hit, hid⟩ := (findFsitemById_some h).mp hdir
    have hplen := (List.getElem?_eq_some_iff.mp hit).1
    obtain rfl | hp : p = 0 ∨ 1 ≤ p := by omega
    · obtain ⟨a, ha, haid, -⟩ := h.rootParent
      rw [ha] at hit
      cases hit
      obtain hne | rfl | ⟨cs', rfl⟩ := hvol
      · exact absurd (hid.symm.trans haid) hne
      · refine ⟨.refl h, ?_⟩
        rintro k ⟨⟩
        exact ⟨hplen, .inr ⟨hid.symm.trans haid, rfl⟩⟩
      · have hroot := walk_grows h cs' le_rfl (show 1 < t.items.length from h.length)
        simp only [walk, findFsitemGuest_root h]
        exact ⟨hroot.1, fun hk => ⟨(hroot.2 hk).2, .inl (hroot.2 hk).1⟩⟩
    · have hwalk := walk_grows h cs hp hplen
      exact ⟨hwalk.1, fun hk => ⟨(hwalk.2 hk).2, .inl (hwalk.2 hk).1⟩⟩

-- ---------------------------------------------------------------------------
-- The host
-- ---------------------------------------------------------------------------

/-- An object is at one path only, in a directory. -/
structure HostOk (h : Host N) : Prop where
  unique : ∀ {p q : List N} {a b : Node}, h.at_ p = some a → h.at_ q = some b → a.obj = b.obj → p = q
  closed : ∀ {p : List N} {n : N}, h.at_ (p ++ [n]) ≠ none → h.at_ p ≠ none
  bound : ∀ {p : List N} {a : Node}, h.at_ p = some a → a.obj < h.next

theorem HostOk.closed_append {h : Host N} (hok : HostOk h) {p : List N} (q : List N)
    (hq : h.at_ (p ++ q) ≠ none) : h.at_ p ≠ none := by
  induction q using List.reverseRecOn with
  | nil => simpa using hq
  | append_singleton q n ih =>
    rw [← List.append_assoc] at hq
    exact ih (hok.closed hq)

theorem Host.hasParent_iff {h : Host N} {path : List N} :
    h.hasParent path = true ↔ path ≠ [] ∧ ∃ node, h.at_ path.dropLast = some node ∧ node.dir = true := by
  simp [Host.hasParent, Option.any_eq_true]

theorem create_ok [DecidableEq N] {h : Host N} (hok : HostOk h) {path : List N} (dir : Bool)
    (hparent : h.hasParent path = true) : HostOk (h.create path dir) := by
  obtain ⟨-, node, hnode, -⟩ := Host.hasParent_iff.mp hparent
  have hat : ∀ {p : List N} {a : Node}, (h.create path dir).at_ p = some a →
      p = path ∧ a.obj = h.next ∨ h.at_ p = some a := by
    intro p a ha
    simp only [Host.create] at ha
    split_ifs at ha with heq
    · cases ha
      exact .inl ⟨heq, rfl⟩
    · exact .inr ha
  constructor
  · intro p q a b ha hb hobj
    obtain ⟨hp, hnew⟩ | ha' := hat ha <;> obtain ⟨hq, hnew'⟩ | hb' := hat hb
    · rw [hp, hq]
    · have := hok.bound hb'
      omega
    · have := hok.bound ha'
      omega
    · exact hok.unique ha' hb' hobj
  · intro p n hne
    simp only [Host.create] at hne ⊢
    split_ifs with hp
    · simp
    · split_ifs at hne with hpn
      · rw [← hpn, List.dropLast_concat] at hnode
        simp [hnode]
      · exact hok.closed hne
  · intro p a ha
    obtain ⟨-, hnew⟩ | ha := hat ha
    · rw [hnew]
      exact Nat.lt_succ_self _
    · exact (hok.bound ha).trans (Nat.lt_succ_self _)

/-- What is where after a rename. -/
theorem rename_at [DecidableEq N] {h : Host N} {old new p : List N} {a : Node}
    (ha : (h.rename old new).at_ p = some a) :
    (∃ q, p = new ++ q ∧ h.at_ (old ++ q) = some a) ∨
      (¬ old <+: p ∧ ¬ new <+: p ∧ h.at_ p = some a) := by
  simp only [Host.rename] at ha
  split_ifs at ha with hold hnew
  · obtain ⟨q, rfl⟩ := hnew
    rw [List.drop_left] at ha
    exact .inl ⟨q, rfl, ha⟩
  · exact .inr ⟨hold, hnew, ha⟩

/-- Two paths with nothing in common stay as they are. -/
theorem rename_of_not [DecidableEq N] {h : Host N} {old new p : List N} (hold : ¬ old <+: p)
    (hnew : ¬ new <+: p) : (h.rename old new).at_ p = h.at_ p := by
  simp [Host.rename, hold, hnew]

theorem rename_ok [DecidableEq N] {h : Host N} (hok : HostOk h) {old new : List N}
    (hfree : h.at_ new = none) (hparent : h.hasParent new = true) (hnot : ¬ old <+: new)
    (hold : h.at_ old ≠ none) : HostOk (h.rename old new) := by
  obtain ⟨hne, node, hnode, -⟩ := Host.hasParent_iff.mp hparent
  have hnot' : ¬ new <+: old := by
    rintro ⟨q, rfl⟩
    exact hok.closed_append q hold hfree
  constructor
  · intro p q a b ha hb hobj
    obtain ⟨p', hp, ha'⟩ | ⟨hp, -, ha'⟩ := rename_at ha <;>
      obtain ⟨q', hq, hb'⟩ | ⟨hq, -, hb'⟩ := rename_at hb
    · rw [hp, hq, List.append_cancel_left (hok.unique ha' hb' hobj)]
    · exact absurd ⟨p', hok.unique ha' hb' hobj⟩ hq
    · exact absurd ⟨q', hok.unique hb' ha' hobj.symm⟩ hp
    · exact hok.unique ha' hb' hobj
  · intro p n hpn
    obtain ⟨a, ha⟩ := Option.ne_none_iff_exists'.mp hpn
    obtain ⟨q, hq, ha'⟩ | ⟨hp, hp', ha'⟩ := rename_at ha
    · rcases List.eq_nil_or_concat q with rfl | ⟨q', m, rfl⟩
      · -- The new path itself: its directory is none of what moves.
        rw [List.append_nil] at hq
        obtain rfl : p = new.dropLast := by rw [← hq, List.dropLast_concat]
        have h₁ : ¬ old <+: new.dropLast := fun h => hnot (h.trans (List.dropLast_prefix new))
        have h₂ : ¬ new <+: new.dropLast := by
          intro h
          have hle := h.length_le
          have hpos := List.length_pos_of_ne_nil hne
          rw [List.length_dropLast] at hle
          omega
        rw [rename_of_not h₁ h₂, hnode]
        simp
      · rw [List.concat_eq_append, ← List.append_assoc] at hq ha'
        obtain ⟨rfl, -⟩ := List.append_inj' hq rfl
        have hold' : ¬ old <+: new ++ q' := by
          intro h
          rcases List.prefix_or_prefix_of_prefix h (List.prefix_append new q') with h | h
          · exact hnot h
          · exact hnot' h
        have hclosed : h.at_ (old ++ q') ≠ none := hok.closed (by rw [ha']; simp)
        simpa [Host.rename, hold'] using hclosed
    · have h₁ : ¬ old <+: p := fun h => hp (h.trans (List.prefix_append _ _))
      have h₂ : ¬ new <+: p := fun h => hp' (h.trans (List.prefix_append _ _))
      rw [rename_of_not h₁ h₂]
      exact hok.closed (by rw [ha']; simp)
  · intro p a ha
    obtain ⟨q, -, ha'⟩ | ⟨-, -, ha'⟩ := rename_at ha
    · exact hok.bound ha'
    · exact hok.bound ha'

-- ---------------------------------------------------------------------------
-- Exchanging IDs
-- ---------------------------------------------------------------------------

theorem swapId_injective {a b x y : Nat} (h : swapId a b x = swapId a b y) : x = y := by
  unfold swapId at h
  split_ifs at h <;> omega

theorem swapId_of_ne {a b x : Nat} (ha : x ≠ a) (hb : x ≠ b) : swapId a b x = x := by
  simp [swapId, ha, hb]

/-- Both the IDs and the parent IDs of all items have been exchanged. -/
theorem swapIds_items (h : WellFormed v t) {i j : Nat} {a b : FSItem G N}
    (hi : t.items[i]? = some a) (hj : t.items[j]? = some b) :
    (swapIds i j t).items = t.items.map fun it =>
      { it with id := swapId a.id b.id it.id, parentId := swapId a.id b.id it.parentId } := by
  refine List.ext_getElem? fun k => ?_
  simp only [swapIds, hi, hj, List.getElem?_modify, List.getElem?_map]
  cases hk : t.items[k]? with
  | none => simp
  | some it =>
    by_cases hkj : j = k
    · subst hkj
      rw [hj] at hk
      cases hk
      by_cases hab : b.id = a.id
      · simp [swapId, hab]
      · simp [swapId, hab]
    · by_cases hki : i = k
      · subst hki
        rw [hi] at hk
        cases hk
        simp [swapId, hkj]
      · have ha : it.id ≠ a.id := fun heq => hki (h.ids hi hk heq.symm)
        have hb : it.id ≠ b.id := fun heq => hkj (h.ids hj hk heq.symm)
        simp [hki, hkj, swapId_of_ne ha hb]

theorem swapIds_get (h : WellFormed v t) {i j k : Nat} {a b it : FSItem G N}
    (hi : t.items[i]? = some a) (hj : t.items[j]? = some b) (hit : t.items[k]? = some it) :
    (swapIds i j t).items[k]? = some
      { it with id := swapId a.id b.id it.id, parentId := swapId a.id b.id it.parentId } := by
  rw [swapIds_items h hi hj, List.getElem?_map, hit]
  rfl

theorem swapIds_wf (h : WellFormed v t) {i j : Nat} (hi2 : 2 ≤ i) (hilen : i < t.items.length)
    (hj2 : 2 ≤ j) (hjlen : j < t.items.length) : WellFormed v (swapIds i j t) := by
  obtain ⟨a, hi⟩ : ∃ a, t.items[i]? = some a := ⟨_, List.getElem?_eq_getElem hilen⟩
  obtain ⟨b, hj⟩ : ∃ b, t.items[j]? = some b := ⟨_, List.getElem?_eq_getElem hjlen⟩
  obtain ⟨ha1, ha2⟩ := h.id_ne hi2 hi
  obtain ⟨hb1, hb2⟩ := h.id_ne hj2 hj
  have hnext : (swapIds i j t).nextCnid = t.nextCnid := by simp [swapIds, hi, hj]
  have hcases : ∀ {k : Nat} {it : FSItem G N}, (swapIds i j t).items[k]? = some it →
      ∃ it₀, t.items[k]? = some it₀ ∧ it =
        { it₀ with id := swapId a.id b.id it₀.id, parentId := swapId a.id b.id it₀.parentId } := by
    intro k it hit
    rw [swapIds_items h hi hj, List.getElem?_map, Option.map_eq_some_iff] at hit
    obtain ⟨it₀, hit₀, rfl⟩ := hit
    exact ⟨it₀, hit₀, rfl⟩
  constructor
  case rootParent =>
    obtain ⟨r, hr, hid, hparent⟩ := h.rootParent
    refine ⟨_, swapIds_get h hi hj hr, ?_, hparent⟩
    rw [hid]
    exact swapId_of_ne ha1.symm hb1.symm
  case root =>
    obtain ⟨r, hr, hid, hrest⟩ := h.root
    refine ⟨_, swapIds_get h hi hj hr, ?_, hrest⟩
    rw [hid]
    exact swapId_of_ne ha2.symm hb2.symm
  case child =>
    intro k it hk hit
    obtain ⟨it₀, hit₀, rfl⟩ := hcases hit
    obtain ⟨p, hp⟩ := h.child hk hit₀
    exact ⟨p, hp⟩
  case ids =>
    intro j k x y hx hy hid
    obtain ⟨x₀, hx₀, rfl⟩ := hcases hx
    obtain ⟨y₀, hy₀, rfl⟩ := hcases hy
    exact h.ids hx₀ hy₀ (swapId_injective hid)
  case idLt =>
    intro k it hit
    obtain ⟨it₀, hit₀, rfl⟩ := hcases hit
    rw [hnext]
    dsimp only [swapId]
    split_ifs
    · exact h.idLt hj
    · exact h.idLt hi
    · exact h.idLt hit₀
  case next =>
    rw [hnext]
    exact h.next
  case unique =>
    intro j k x y hx hy hparent hname
    obtain ⟨x₀, hx₀, rfl⟩ := hcases hx
    obtain ⟨y₀, hy₀, rfl⟩ := hcases hy
    exact h.unique hx₀ hy₀ hparent hname
  case names =>
    intro k it hit
    obtain ⟨it₀, hit₀, rfl⟩ := hcases hit
    have hname := h.names hit₀
    exact hname
  case parentIds =>
    intro k p it q hit hparent hq
    obtain ⟨it₀, hit₀, rfl⟩ := hcases hit
    obtain ⟨q₀, hq₀, rfl⟩ := hcases hq
    dsimp only
    rw [h.parentIds hit₀ hparent hq₀]

theorem swapIds_path (h : WellFormed v t) {i j : Nat} (hi2 : 2 ≤ i) (hilen : i < t.items.length)
    (hj2 : 2 ≤ j) (hjlen : j < t.items.length) {k : Nat} (hk : 1 ≤ k) (hlen : k < t.items.length) :
    getPathForFsitem v (swapIds i j t) k = getPathForFsitem v t k := by
  refine path_congr h (swapIds_wf h hi2 hilen hj2 hjlen) ?_ hk hlen
  intro k it hit
  exact ⟨_, swapIds_get h (List.getElem?_eq_getElem hilen) (List.getElem?_eq_getElem hjlen) hit, rfl,
    rfl⟩

-- ---------------------------------------------------------------------------
-- The invariant
-- ---------------------------------------------------------------------------

/-- An object that was handed out has its ID at the item of its path. -/
structure Inv (v : Volume G N) (s : State G N) : Prop where
  wf : WellFormed v s.table
  host : HostOk s.host
  bound : ∀ {c o : Nat}, (c, o) ∈ s.given → o < s.host.next
  given : ∀ {c o : Nat} {path : List N} {node : Node}, (c, o) ∈ s.given →
    s.host.at_ path = some node → node.obj = o →
    ∃ k it, s.table.items[k]? = some it ∧ 1 ≤ k ∧ it.id = c ∧ getPathForFsitem v s.table k = path

variable {s : State G N}

theorem Inv.grow (h : Inv v s) (hg : Grows v s.table t') : Inv v { s with table := t' } := by
  refine ⟨hg.wf, h.host, h.bound, ?_⟩
  intro c o path node hmem hnode hobj
  obtain ⟨k, it, hit, hk, hid, hpath⟩ := h.given hmem hnode hobj
  refine ⟨k, it, hg.keeps hit, hk, hid, ?_⟩
  rw [hg.path h.wf hk (List.getElem?_eq_some_iff.mp hit).1, hpath]

theorem nodeOf_some {k : Nat} {node : Node} (h : WellFormed v s.table) (hn : s.nodeOf v k = some node) :
    1 ≤ k ∧ k < s.table.items.length ∧ s.host.at_ (getPathForFsitem v s.table k) = some node := by
  unfold State.nodeOf at hn
  split at hn
  next => cases hn
  next it hit =>
    split_ifs at hn with hid
    refine ⟨?_, (List.getElem?_eq_some_iff.mp hit).1, hn⟩
    by_contra hk
    obtain rfl : k = 0 := by omega
    obtain ⟨r, hr, hrid, -⟩ := h.rootParent
    rw [hr] at hit
    cases hit
    exact hid hrid

theorem Inv.handOut (h : Inv v s) (k : Nat) : Inv v (s.handOut v k) := by
  unfold State.handOut
  split
  next node it hn hit =>
    obtain ⟨hk, -, hat⟩ := nodeOf_some h.wf hn
    refine ⟨h.wf, h.host, ?_, ?_⟩
    · rintro c o (_ | ⟨_, hmem⟩)
      · exact h.host.bound hat
      · exact h.bound hmem
    · rintro c o path node' (_ | ⟨_, hmem⟩) hnode hobj
      · exact ⟨k, it, hit, hk, rfl, h.host.unique hat hnode hobj.symm⟩
      · exact h.given hmem hnode hobj
  next => exact h

theorem Inv.create [DecidableEq N] (h : Inv v s) {path : List N} (dir : Bool)
    (hparent : s.host.hasParent path = true) :
    Inv v { s with host := s.host.create path dir } := by
  refine ⟨h.wf, create_ok h.host dir hparent, ?_, ?_⟩
  · intro c o hmem
    exact (h.bound hmem).trans (Nat.lt_succ_self _)
  · intro c o p node hmem hnode hobj
    simp only [Host.create] at hnode
    split_ifs at hnode with hp
    · cases hnode
      have := h.bound hmem
      simp only at hobj
      omega
    · exact h.given hmem hnode hobj

/-- Nothing inside of a directory was handed out. -/
def NothingInside (s : State G N) (path : List N) : Prop :=
  ∀ (c o : Nat) (q : List N) (node : Node), (c, o) ∈ s.given → q ≠ [] →
    s.host.at_ (path ++ q) = some node → node.obj ≠ o

theorem root_prefix_path (h : WellFormed v t) {k : Nat} (hk : 1 ≤ k) (hlen : k < t.items.length) :
    v.rootPath <+: getPathForFsitem v t k := by
  induction k using Nat.strong_induction_on with
  | _ k ih =>
    obtain rfl | hk2 : k = 1 ∨ 2 ≤ k := by omega
    · rw [path_root h]
    · have hit := List.getElem?_eq_getElem hlen
      obtain ⟨p, hp, hp1, hlt⟩ := h.child hk2 hit
      rw [path_child h hk2 hit hp]
      exact (ih p hlt hp1 (by omega)).trans (List.prefix_append _ _)

theorem path_zero (h : WellFormed v t) : getPathForFsitem v t 0 = [] := by
  obtain ⟨r, hr, hid, -⟩ := h.rootParent
  have hlen := h.length
  obtain ⟨n, hn⟩ : ∃ n, t.items.length = n + 1 := ⟨t.items.length - 1, by omega⟩
  rw [getPathForFsitem, hn, pathFrom, hr]
  simp [hid]

theorem Inv.exchange [DecidableEq N] (h : Inv v s) {i j : Nat} (hjlen : j < s.table.items.length)
    (hcan : s.canRename v i (getPathForFsitem v s.table i) (getPathForFsitem v s.table j) = true)
    (hnothing : NothingInside s (getPathForFsitem v s.table i)) :
    Inv v (s.exchange i j (getPathForFsitem v s.table i) (getPathForFsitem v s.table j)) := by
  simp only [State.canRename, Bool.and_eq_true, Bool.not_eq_true', Option.isNone_iff_eq_none] at hcan
  obtain ⟨⟨⟨hsome, hfree⟩, hparent⟩, hlead⟩ := hcan
  have hnot : ¬ getPathForFsitem v s.table i <+: getPathForFsitem v s.table j := by
    rw [← List.isPrefixOf_iff_prefix, hlead]
    simp
  obtain ⟨node, hnode⟩ := Option.isSome_iff_exists.mp hsome
  obtain ⟨hi, hilen, hat⟩ := nodeOf_some h.wf hnode
  have hj : 1 ≤ j := by
    by_contra hlt
    obtain rfl : j = 0 := by omega
    rw [path_zero h.wf] at hparent
    simp [Host.hasParent] at hparent
  have hi2 : 2 ≤ i := by
    by_contra hlt
    obtain rfl : i = 1 := by omega
    rw [path_root h.wf] at hnot
    exact hnot (root_prefix_path h.wf hj hjlen)
  have hj2 : 2 ≤ j := by
    by_contra hlt
    obtain rfl : j = 1 := by omega
    obtain ⟨q, hq⟩ := root_prefix_path h.wf hi hilen
    rw [path_root h.wf] at hfree
    refine h.host.closed_append q ?_ hfree
    rw [hq, hat]
    simp
  have hpath : ∀ {k}, 1 ≤ k → k < s.table.items.length →
      getPathForFsitem v (swapIds i j s.table) k = getPathForFsitem v s.table k :=
    fun hk hlen => swapIds_path h.wf hi2 hilen hj2 hjlen hk hlen
  have hitem : ∀ {k : Nat} {it : FSItem G N}, s.table.items[k]? = some it → _ :=
    fun hit => swapIds_get h.wf (List.getElem?_eq_getElem hilen) (List.getElem?_eq_getElem hjlen) hit
  refine ⟨swapIds_wf h.wf hi2 hilen hj2 hjlen,
    rename_ok h.host hfree hparent hnot (by rw [hat]; simp), h.bound, ?_⟩
  intro c o path node' hmem hnode' hobj
  obtain ⟨q, rfl, hat'⟩ | ⟨hold, hnew, hat'⟩ := rename_at hnode'
  · obtain rfl | hq := eq_or_ne q []
    · -- The object itself: its ID is now that of the item at the new path.
      rw [List.append_nil] at hat' ⊢
      obtain ⟨k, it, hit, hk, hid, hkpath⟩ := h.given hmem hat' hobj
      have hklen := (List.getElem?_eq_some_iff.mp hit).1
      obtain rfl := path_injective h.wf hk hklen hi hilen hkpath
      refine ⟨j, _, hitem (List.getElem?_eq_getElem hjlen), hj, ?_, hpath hj hjlen⟩
      rw [List.getElem?_eq_getElem hilen] at hit
      cases hit
      simp only [swapId, if_true, hid]
      split_ifs with heq
      · exact heq
      · rfl
    · exact absurd hobj (hnothing c o q node' hmem hq hat')
  · obtain ⟨k, it, hit, hk, hid, hkpath⟩ := h.given hmem hat' hobj
    have hklen := (List.getElem?_eq_some_iff.mp hit).1
    have hki : k ≠ i := by
      rintro rfl
      exact hold (by rw [hkpath])
    have hkj : k ≠ j := by
      rintro rfl
      exact hnew (by rw [hkpath])
    refine ⟨k, _, hitem hit, hk, ?_, (hpath hk hklen).trans hkpath⟩
    rw [← hid]
    refine swapId_of_ne ?_ ?_
    · exact fun heq => hki (h.wf.ids hit (List.getElem?_eq_getElem hilen) heq)
    · exact fun heq => hkj (h.wf.ids hit (List.getElem?_eq_getElem hjlen) heq)

end SheepShear.ExtFs
