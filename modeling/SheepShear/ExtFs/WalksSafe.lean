import SheepShear.ExtFs.Walks

/-!
# The table of items in every run

The IDs are distinct and the parents lead to the root's parent, as long as the IDs
have not wrapped around and no empty component is reported at the root's parent.
-/

namespace SheepShear.ExtFs.Walks

open Steps

variable {G N : Type} {v : Volume G N} {t : Table G N} {k p : Nat}

-- ---------------------------------------------------------------------------
-- The invariant
-- ---------------------------------------------------------------------------

/-- The parents of an item lead to the root's parent. -/
inductive ReachesRootParent (t : Table G N) : Nat → Prop where
  | rootParent : ReachesRootParent t 0
  | parent {k q : Nat} {it : FSItem G N} : t.items[k]? = some it → it.parent = some q →
    ReachesRootParent t q → ReachesRootParent t k

structure TableOk (t : Table G N) : Prop where
  distinct : (t.items.map FSItem.id).Nodup
  parents : ∀ k it, t.items[k]? = some it → k ≠ 0 →
    ∃ q parent, it.parent = some q ∧ t.items[q]? = some parent ∧ it.parentId = parent.id
  chains : ∀ k < t.items.length, ReachesRootParent t k

/-- A parent is in front of its children, and as long as the next ID has not wrapped around it is
above those in use. -/
structure Inv (t : Table G N) : Prop where
  first : ∃ it, t.items[0]? = some it ∧ it.id = rootParentId ∧ it.parent = none
  parents : ∀ k it, t.items[k]? = some it → k ≠ 0 →
    ∃ q parent, it.parent = some q ∧ q < k ∧ t.items[q]? = some parent ∧ it.parentId = parent.id
  distinct : (t.items.map FSItem.id).Nodup
  fresh : t.nextCnid ≠ 0 → ∀ it ∈ t.items, it.id < t.nextCnid

theorem Inv.length_pos (h : Inv t) : 0 < t.items.length := by
  obtain ⟨it, hit, -⟩ := h.first
  exact (List.getElem?_eq_some_iff.mp hit).1

theorem Inv.chains (h : Inv t) (hk : k < t.items.length) : ReachesRootParent t k := by
  induction k using Nat.strong_induction_on with
  | _ k ih =>
    by_cases hzero : k = 0
    · exact hzero ▸ .rootParent
    · obtain ⟨q, parent, hparent, hlt, -⟩ := h.parents k _ (List.getElem?_eq_getElem hk) hzero
      exact .parent (List.getElem?_eq_getElem hk) hparent (ih q hlt (hlt.trans hk))

theorem Inv.tableOk (h : Inv t) : TableOk t where
  distinct := h.distinct
  parents k it hit hk := by
    obtain ⟨q, parent, hparent, -, hq, hid⟩ := h.parents k it hit hk
    exact ⟨q, parent, hparent, hq, hid⟩
  chains _ := h.chains

/-- Two items with one ID are one. -/
theorem Inv.id_inj (h : Inv t) {j k : Nat} {a b : FSItem G N} (ha : t.items[j]? = some a)
    (hb : t.items[k]? = some b) (hid : a.id = b.id) : j = k := by
  obtain ⟨hj, rfl⟩ := List.getElem?_eq_some_iff.mp ha
  obtain ⟨hk, rfl⟩ := List.getElem?_eq_some_iff.mp hb
  have hmap := (List.nodup_iff_injective_getElem.mp h.distinct).eq_iff
    (a := ⟨j, by simpa using hj⟩) (b := ⟨k, by simpa using hk⟩)
  simpa [hid] using hmap

theorem init_inv (v : Volume G N) : Inv (Table.init v) where
  first := ⟨_, rfl, rfl, rfl⟩
  parents k it hit hk := by
    match k, hit, hk with
    | 0, _, hk => exact absurd rfl hk
    | 1, hit, _ =>
      obtain rfl := Option.some.inj hit
      exact ⟨0, _, rfl, Nat.zero_lt_one, rfl, rfl⟩
    | k + 2, hit, _ => cases hit
  distinct := (by decide : [rootParentId, rootId].Nodup)
  fresh _ it hit := by
    rcases List.mem_cons.mp hit with rfl | hit
    · exact (by decide : rootParentId < BitVec.ofNat 32 fsUsrCnid)
    · rw [List.mem_singleton.mp hit]
      exact (by decide : rootId < BitVec.ofNat 32 fsUsrCnid)

-- ---------------------------------------------------------------------------
-- Finding and creating
-- ---------------------------------------------------------------------------

/-- What finding an item leaves: the items there were, and the one that was looked for. -/
structure Found (t t' : Table G N) (p q : Nat) : Prop where
  inv : Inv t'
  kept : t.items <+: t'.items
  item : ∃ it, t'.items[q]? = some it ∧ it.parent = some p

theorem Found.lt {t' : Table G N} {q : Nat} (h : Found t t' p q) : q < t'.items.length := by
  obtain ⟨it, hit, -⟩ := h.item
  exact (List.getElem?_eq_some_iff.mp hit).1

theorem getElem?_of_append {t' : Table G N} (hkept : t.items <+: t'.items) {it : FSItem G N}
    (hit : t.items[k]? = some it) : t'.items[k]? = some it := by
  obtain ⟨rest, hrest⟩ := hkept
  rw [← hrest, List.getElem?_append_left (List.getElem?_eq_some_iff.mp hit).1, hit]

theorem createFsitem_found (h : Inv t) (hp : p < t.items.length) (hroom : t.nextCnid ≠ 0) (name : N)
    (guestName : G) :
    Found t (createFsitem name guestName p t).1 p (createFsitem name guestName p t).2 := by
  have hparent : t.items[p]? = some t.items[p] := List.getElem?_eq_getElem hp
  have hkept : t.items <+: (createFsitem name guestName p t).1.items := List.prefix_append ..
  have hnew : (createFsitem name guestName p t).1.items[t.items.length]? =
      some ⟨t.nextCnid, t.items[p].id, some p, name, guestName⟩ := by
    simp [createFsitem, hparent]
  refine ⟨⟨?_, ?_, ?_, ?_⟩, hkept, _, hnew, rfl⟩
  · obtain ⟨it, hit, hid⟩ := h.first
    exact ⟨it, getElem?_of_append hkept hit, hid⟩
  · intro k it hit hk
    rcases Nat.lt_trichotomy k t.items.length with hlt | rfl | hgt
    · have hold : t.items[k]? = some it := by
        rwa [createFsitem, List.getElem?_append_left hlt] at hit
      obtain ⟨q, parent, hq, hless, hitem, hid⟩ := h.parents k it hold hk
      exact ⟨q, parent, hq, hless, getElem?_of_append hkept hitem, hid⟩
    · obtain rfl := Option.some.inj (hnew.symm.trans hit)
      exact ⟨p, _, rfl, hp, getElem?_of_append hkept hparent, rfl⟩
    · have hout := (List.getElem?_eq_some_iff.mp hit).1
      simp only [createFsitem, List.length_append, List.length_singleton] at hout
      omega
  · have hnone : t.nextCnid ∉ t.items.map FSItem.id := by
      intro hmem
      obtain ⟨it, hit, hid⟩ := List.mem_map.mp hmem
      exact absurd (h.fresh hroom it hit) (hid ▸ BitVec.lt_irrefl _)
    simpa [createFsitem] using
      List.Nodup.append h.distinct (List.nodup_singleton _) (List.disjoint_singleton.mpr hnone)
  · intro hnext it hit
    have hsucc : t.nextCnid < t.nextCnid + 1 := by
      have hne : (t.nextCnid + 1).toNat ≠ 0 := fun hzero => hnext (BitVec.eq_of_toNat_eq hzero)
      rw [BitVec.lt_def]
      rw [BitVec.toNat_add] at hne ⊢
      have hone : (1 : BitVec 32).toNat = 1 := rfl
      omega
    rcases List.mem_append.mp hit with hit | hit
    · exact BitVec.lt_trans (h.fresh hroom it hit) hsucc
    · rw [List.mem_singleton.mp hit]
      exact hsucc

/-- The item is there, or the next ID has not wrapped around. -/
def Room (t : Table G N) (wanted : FSItem G N → Bool) : Prop :=
  t.nextCnid = 0 → ∃ it ∈ t.items, wanted it

theorem found_of_findIdx? (h : Inv t) {wanted : FSItem G N → Bool} {create : Table G N × Nat}
    (hwanted : ∀ it, wanted it → it.parent = some p) (hroom : Room t wanted)
    (hcreate : t.nextCnid ≠ 0 → Found t create.1 p create.2) {found : Table G N × Nat}
    (hfound : found = match t.items.findIdx? wanted with | some k => (t, k) | none => create) :
    Found t found.1 p found.2 := by
  subst hfound
  cases hidx : t.items.findIdx? wanted with
  | some k =>
    obtain ⟨hk, hit, -⟩ := List.findIdx?_eq_some_iff_getElem.mp hidx
    exact ⟨h, List.prefix_rfl, _, List.getElem?_eq_getElem hk, hwanted _ hit⟩
  | none =>
    refine hcreate fun hzero => ?_
    obtain ⟨it, hit, hhas⟩ := hroom hzero
    have hnot := List.findIdx?_eq_none_iff.mp hidx it hit
    rw [hhas] at hnot
    cases hnot

def isNamed [DecidableEq N] (p : Nat) (name : N) (it : FSItem G N) : Bool := it.parent = some p ∧ it.name = name

def isGuestNamed [DecidableEq G] (p : Nat) (name : G) (it : FSItem G N) : Bool :=
  it.parent = some p ∧ it.guestName = name

theorem findFsitem_found [DecidableEq N] (h : Inv t) (hp : p < t.items.length) {name : N}
    (hroom : Room t (isNamed p name)) :
    Found t (findFsitem v name p t).1 p (findFsitem v name p t).2 :=
  found_of_findIdx? h (fun _ hit => (of_decide_eq_true hit).1) hroom
    (fun hnext => createFsitem_found h hp hnext name (v.toGuest name)) rfl

theorem findFsitemGuest_found [DecidableEq G] (h : Inv t) (hp : p < t.items.length) {name : G}
    (hroom : Room t (isGuestNamed p name)) :
    Found t (findFsitemGuest v name p t).1 p (findFsitemGuest v name p t).2 :=
  found_of_findIdx? h (fun _ hit => (of_decide_eq_true hit).1) hroom
    (fun hnext => createFsitem_found h hp hnext (v.toHost name) name) rfl

-- ---------------------------------------------------------------------------
-- The exchange of IDs
-- ---------------------------------------------------------------------------

theorem swapId_injective (a b : BitVec 32) : Function.Injective (swapId a b) := by
  intro x y h
  unfold swapId at h
  split_ifs at h <;> simp_all

theorem swapId_of_ne {a b x : BitVec 32} (ha : x ≠ a) (hb : x ≠ b) : swapId a b x = x := by
  simp [swapId, ha, hb]

def FSItem.swap (a b : BitVec 32) (it : FSItem G N) : FSItem G N :=
  { it with id := swapId a b it.id, parentId := swapId a b it.parentId }

/-- The IDs and the parent IDs of all items are exchanged. -/
theorem swapIds_items (h : Inv t) {i j : Nat} {a b : FSItem G N} (hi : t.items[i]? = some a)
    (hj : t.items[j]? = some b) : (swapIds i j t).items = t.items.map (FSItem.swap a.id b.id) := by
  refine List.ext_getElem? fun k => ?_
  simp only [swapIds, hi, hj, List.getElem?_modify, List.getElem?_map]
  cases hk : t.items[k]? with
  | none => simp
  | some it =>
    by_cases hkj : j = k
    · subst hkj
      obtain rfl := Option.some.inj (hj.symm.trans hk)
      by_cases hab : b.id = a.id <;> simp [FSItem.swap, swapId, hab]
    · by_cases hki : i = k
      · subst hki
        obtain rfl := Option.some.inj (hi.symm.trans hk)
        simp [FSItem.swap, swapId, hkj]
      · have ha : it.id ≠ a.id := fun heq => hki (h.id_inj hi hk heq.symm)
        have hb : it.id ≠ b.id := fun heq => hkj (h.id_inj hj hk heq.symm)
        simp [FSItem.swap, hki, hkj, swapId_of_ne ha hb]

theorem Inv.swapIds (h : Inv t) {i j : Nat} (hi : hasPath t i) (hj : hasPath t j) :
    Inv (swapIds i j t) := by
  cases hitem : t.items[i]? with
  | none => simpa [Walks.swapIds, hitem] using h
  | some a =>
    cases hitem' : t.items[j]? with
    | none => simpa [Walks.swapIds, hitem, hitem'] using h
    | some b =>
      have hitems := swapIds_items h hitem hitem'
      have hnext : (Walks.swapIds i j t).nextCnid = t.nextCnid := by
        simp [Walks.swapIds, hitem, hitem']
      have hget {k : Nat} {it : FSItem G N} (hit : (Walks.swapIds i j t).items[k]? = some it) :
          ∃ old, t.items[k]? = some old ∧ it = old.swap a.id b.id := by
        rw [hitems, List.getElem?_map, Option.map_eq_some_iff] at hit
        obtain ⟨old, hold, rfl⟩ := hit
        exact ⟨old, hold, rfl⟩
      refine ⟨?_, ?_, ?_, ?_⟩
      · obtain ⟨it, hit, hid, hparent⟩ := h.first
        simp only [hasPath, hitem, hitem', Option.map_some, bne_iff_ne, ne_eq,
          Option.some.injEq] at hi hj
        refine ⟨it.swap a.id b.id, by rw [hitems, List.getElem?_map, hit]; rfl, ?_, hparent⟩
        rw [FSItem.swap, hid]
        exact swapId_of_ne (Ne.symm hi) (Ne.symm hj)
      · intro k it hit hk
        obtain ⟨old, hold, rfl⟩ := hget hit
        obtain ⟨q, parent, hparent, hlt, hq, hid⟩ := h.parents k old hold hk
        refine ⟨q, parent.swap a.id b.id, hparent, hlt, by rw [hitems, List.getElem?_map, hq]; rfl, ?_⟩
        exact congrArg (swapId a.id b.id) hid
      · have hmap : (Walks.swapIds i j t).items.map FSItem.id =
            (t.items.map FSItem.id).map (swapId a.id b.id) := by
          rw [hitems, List.map_map, List.map_map]
          rfl
        rw [hmap]
        exact h.distinct.map (swapId_injective _ _)
      · intro hroom it hit
        rw [hnext] at hroom ⊢
        rw [hitems] at hit
        obtain ⟨old, hold, rfl⟩ := List.mem_map.mp hit
        have ha := h.fresh hroom a (List.mem_of_getElem? hitem)
        have hb := h.fresh hroom b (List.mem_of_getElem? hitem')
        have hold := h.fresh hroom old hold
        simp only [FSItem.swap, swapId]
        split_ifs <;> assumption

/-- An item that was found is not the root's parent. -/
theorem Found.hasPath {t' : Table G N} {q : Nat} (h : Found t t' p q) : hasPath t' q := by
  obtain ⟨it, hit, hparent⟩ := h.item
  obtain ⟨root, hroot, hid, hnone⟩ := h.inv.first
  simp only [Walks.hasPath, hit, Option.map_some, bne_iff_ne, ne_eq, Option.some.injEq]
  intro hsame
  obtain rfl := h.inv.id_inj hit hroot (hsame.trans hid.symm)
  obtain rfl := Option.some.inj (hit.symm.trans hroot)
  cases hparent.symm.trans hnone

-- ---------------------------------------------------------------------------
-- Walks
-- ---------------------------------------------------------------------------

/-- What a walk leaves. -/
structure Walked (t t' : Table G N) (e : WalkEnd) : Prop where
  inv : Inv t'
  kept : t.items <+: t'.items
  noNull : e ≠ .nullParent
  item : ∀ q, e = .item q → q < t'.items.length

theorem Walked.refl (h : Inv t) (hp : p < t.items.length) : Walked t t (.item p) :=
  ⟨h, List.prefix_rfl, nofun, by rintro q ⟨⟩; exact hp⟩

theorem Walked.failed (h : Inv t) : Walked t t .failed := ⟨h, List.prefix_rfl, nofun, nofun⟩

theorem Walked.of_found {t' : Table G N} {q : Nat} (h : Found t t' p q) : Walked t t' (.item q) :=
  ⟨h.inv, h.kept, nofun, by rintro q ⟨⟩; exact h.lt⟩

theorem Walked.trans {t₁ t₂ : Table G N} {e : WalkEnd} (hkept : t.items <+: t₁.items)
    (h : Walked t₁ t₂ e) : Walked t t₂ e :=
  ⟨h.inv, hkept.trans h.kept, h.noNull, h.item⟩

/-- A condition on what comes after a path name. -/
def AfterOk (walked : Table G N × WalkEnd) (next : Nat → Table G N → Prop) : Prop :=
  ∀ k, walked.2 = .item k → next k walked.1

/-- The invariant of the runs. -/
def Safe (s : State G N) : Prop := Inv s.table ∧ s.nullFollowed = false

theorem safe_afterWalk {walked : Table G N × WalkEnd} (h : Walked t walked.1 walked.2)
    {next : Nat → Table G N → State G N} {ok : Nat → Table G N → Prop} (hok : AfterOk walked ok)
    (hnext : ∀ k t', Inv t' → k < t'.items.length → ok k t' → Safe (next k t')) :
    Safe (afterWalk walked next) := by
  obtain ⟨t', e⟩ := walked
  cases e with
  | item k => exact hnext k t' h.inv (h.item k rfl) (hok k rfl)
  | failed => exact ⟨h.inv, rfl⟩
  | nullParent => exact absurd rfl h.noNull

variable [DecidableEq G]

/-- No empty component is reported at the root's parent, and there is room for what is created. -/
def WalkOk (v : Volume G N) : List (Report G) → Report G → Nat → Table G N → Prop
  | rest, last, p, t =>
    if last.moreName then
      match rest with
      | [] => True
      | r :: rest =>
        r.noErr →
          match r.component with
          | none => ∀ it, t.items[p]? = some it → it.id ≠ rootId →
            it.id ≠ rootParentId ∧ ∀ q, it.parent = some q → WalkOk v rest r q t
          | some g =>
            if r.moreName then
              Room t (isGuestNamed p g) ∧
                WalkOk v rest r (findFsitemGuest v g p t).2 (findFsitemGuest v g p t).1
            else WalkOk v rest r p t
    else
      match last.component with
      | none => True
      | some g => Room t (isGuestNamed p g)

/-- The object behind the last component. -/
theorem walk_end {rest : List (Report G)} {last : Report G} (h : Inv t) (hp : p < t.items.length)
    (hmore : last.moreName = false) (hok : WalkOk v rest last p t) :
    Walked t (walk v rest last p t).1 (walk v rest last p t).2 := by
  unfold WalkOk at hok
  unfold walk
  simp only [hmore, Bool.false_eq_true, if_false] at hok ⊢
  cases hcomponent : last.component with
  | none => exact .refl h hp
  | some g =>
    rw [hcomponent] at hok
    exact .of_found (findFsitemGuest_found h hp hok)

/-- The induction is on the reports. -/
theorem walk_walked (rest : List (Report G)) (last : Report G) (h : Inv t)
    (hp : p < t.items.length) (hok : WalkOk v rest last p t) :
    Walked t (walk v rest last p t).1 (walk v rest last p t).2 := by
  induction rest generalizing last p t with
  | nil =>
    cases hmore : last.moreName with
    | false => exact walk_end h hp hmore hok
    | true =>
      unfold walk
      simp only [hmore, if_true]
      exact .failed h
  | cons r rest ih =>
    cases hmore : last.moreName with
    | false => exact walk_end h hp hmore hok
    | true =>
      unfold WalkOk at hok
      unfold walk
      simp only [hmore, if_true] at hok ⊢
      cases herr : r.noErr with
      | false =>
        simp only [Bool.false_eq_true, if_false]
        exact .failed h
      | true =>
        have hok := hok herr
        simp only [if_true]
        cases hcomponent : r.component with
        | none =>
          rw [hcomponent] at hok
          have hit : t.items[p]? = some t.items[p] := List.getElem?_eq_getElem hp
          simp only [hit]
          by_cases hroot : t.items[p].id ≠ rootId
          · rw [if_pos hroot]
            obtain ⟨hid, hok⟩ := hok _ hit hroot
            have hzero : p ≠ 0 := by
              rintro rfl
              obtain ⟨it, hfirst, hfirstId, -⟩ := h.first
              rw [hit] at hfirst
              exact hid (Option.some.inj hfirst ▸ hfirstId)
            obtain ⟨q, -, hparent, hlt, -⟩ := h.parents p _ hit hzero
            simp only [hparent]
            exact ih r h (hlt.trans hp) (hok q hparent)
          · rw [if_neg hroot]
            exact .failed h
        | some g =>
          rw [hcomponent] at hok
          by_cases hnext : r.moreName
          · simp only [hnext, if_true] at hok ⊢
            have hfound : Found t (findFsitemGuest v g p t).1 p (findFsitemGuest v g p t).2 :=
            findFsitemGuest_found h hp hok.1
            exact .trans hfound.kept (ih r hfound.inv hfound.lt hok.2)
          · simp only [hnext, if_false, Bool.false_eq_true] at hok ⊢
            exact ih r h hp hok

def PathOk (v : Volume G N) (dirId : BitVec 32) (name : Pathname G) (t : Table G N) : Prop :=
  ∀ p, findFsitemById dirId t = some p →
    match name with
    | .parsed first rest => first.noErr → WalkOk v rest first p t
    | .unparsed _ => True

theorem getItemAndPath_walked {dirId : BitVec 32} {name : Pathname G} (h : Inv t)
    (hok : PathOk v dirId name t) :
    Walked t (getItemAndPath v dirId name t).1 (getItemAndPath v dirId name t).2 := by
  unfold getItemAndPath
  cases hdir : findFsitemById dirId t with
  | none => exact .failed h
  | some p =>
    have hp : p < t.items.length := (List.findIdx?_eq_some_iff_getElem.mp hdir).1
    have hok := hok p hdir
    cases name with
    | unparsed isEmpty =>
      cases isEmpty with
      | true => exact .refl h hp
      | false => exact .failed h
    | parsed first rest =>
      simp only
      split
      next herr => exact walk_walked rest first h hp (hok herr)
      next => exact .failed h

-- ---------------------------------------------------------------------------
-- Runs
-- ---------------------------------------------------------------------------

variable [DecidableEq N]

/-- The path names of a call, and the item that a move may create. -/
def CallOk (v : Volume G N) (t : Table G N) : Call G N → Prop
  | .lookup dirId name => PathOk v dirId name t
  | .entry dirId name => ∀ p, findFsitemById dirId t = some p → Room t (isNamed p name)
  | .rename dirId name newName _ =>
    PathOk v dirId name t ∧
      AfterOk (getItemAndPath v dirId name t) fun _ t => PathOk v dirId newName t
  | .catMove dirId name newDirId newName renamed =>
    PathOk v dirId name t ∧
      AfterOk (getItemAndPath v dirId name t) fun i t =>
        PathOk v newDirId newName t ∧
          AfterOk (getItemAndPath v newDirId newName t) fun d t =>
            ∀ it, t.items[i]? = some it → renamed → hasPath t i → Room t (isNamed d it.name)

/-- A step is safe where its call is. -/
def StepOk (v : Volume G N) (s : State G N) (c : Call G N) : Prop := CallOk v s.table c

theorem call_safe (h : Inv t) {c : Call G N} (hok : CallOk v t c) : Safe (call v t c) := by
  cases c with
  | lookup dirId name =>
    have htrivial : AfterOk (getItemAndPath v dirId name t) fun _ _ => True := fun _ _ => trivial
    exact safe_afterWalk (getItemAndPath_walked h hok) htrivial fun _ _ hinv _ _ => ⟨hinv, rfl⟩
  | entry dirId name =>
    simp only [call]
    cases hdir : findFsitemById dirId t with
    | none => exact ⟨h, rfl⟩
    | some p =>
      have hp : p < t.items.length := (List.findIdx?_eq_some_iff_getElem.mp hdir).1
      exact ⟨(findFsitem_found h hp (hok p hdir)).inv, rfl⟩
  | rename dirId name newName renamed =>
    refine safe_afterWalk (getItemAndPath_walked h hok.1) hok.2 fun i t' hinv _ hname => ?_
    have htrivial : AfterOk (getItemAndPath v dirId newName t') fun _ _ => True :=
      fun _ _ => trivial
    refine safe_afterWalk (getItemAndPath_walked hinv hname) htrivial fun j t'' hinv' _ _ => ?_
    split
    next hrenamed =>
      simp only [Bool.and_eq_true] at hrenamed
      exact ⟨hinv'.swapIds hrenamed.1.2 hrenamed.2, rfl⟩
    next => exact ⟨hinv', rfl⟩
  | catMove dirId name newDirId newName renamed =>
    refine safe_afterWalk (getItemAndPath_walked h hok.1) hok.2 fun i t' hinv _ hname => ?_
    refine safe_afterWalk (getItemAndPath_walked hinv hname.1) hname.2 fun d t'' hinv' hd hroom => ?_
    simp only
    cases hit : t''.items[i]? with
    | none => exact ⟨hinv', rfl⟩
    | some it =>
      simp only
      split
      next hrenamed =>
        rw [Bool.and_eq_true] at hrenamed
        have hfound : Found t'' (findFsitem v it.name d t'').1 d (findFsitem v it.name d t'').2 :=
          findFsitem_found hinv' hd (hroom it hit hrenamed.1 hrenamed.2)
        refine ⟨hfound.inv.swapIds ?_ hfound.hasPath, rfl⟩
        have hkept := getElem?_of_append hfound.kept hit
        have hpath := hrenamed.2
        simp only [hasPath, hit, hkept] at hpath ⊢
        exact hpath
      next => exact ⟨hinv', rfl⟩

/-- In every run without an empty component at the root's parent, as long as there are IDs, the
table is sound and no null pointer is followed. -/
theorem runs_safe (v : Volume G N) {s : State G N}
    (h : Reaches (step v) (StepOk v) (State.init v) s) : TableOk s.table ∧ s.nullFollowed = false := by
  have hsafe : Safe s := h.invariant ⟨init_inv v, rfl⟩ fun hsafe hok hstep => by
    rw [step, hsafe.2, if_neg Bool.false_ne_true] at hstep
    exact Option.some.inj hstep ▸ call_safe hsafe.1 hok
  exact ⟨hsafe.1.tableOk, hsafe.2⟩

theorem id_id_apply (n : Nat) : id (id n) = n := rfl

def plainVolume : Volume Nat Nat where
  toHost := id
  toGuest := id
  toHost_toGuest := id_id_apply
  toGuest_toHost := id_id_apply
  rootPath := []
  volumeName := 1
  emptyName := 0
  hidden _ := false

/-- The pathname `::` in the directory with the ID 1. -/
def aboveTop : Call Nat Nat := .lookup 1 (.parsed ⟨true, none, true⟩ [⟨true, none, false⟩])

theorem aboveTop_nullFollowed :
    findFsitemById 1 (Table.init plainVolume) = some 0 ∧
      ∃ s, run (step plainVolume) (State.init plainVolume) [aboveTop] = some s ∧
        s.nullFollowed = true :=
  ⟨rfl, _, rfl, rfl⟩

def findSeven : Call Nat Nat := .lookup 2 (.parsed ⟨true, some 7, false⟩ [])

/-- The pathname `::` in the directory that was found. -/
def parentOfSeven : Call Nat Nat := .lookup 16 (.parsed ⟨true, none, true⟩ [⟨true, none, false⟩])

theorem parentOfSeven_safe :
    ∃ s, run (step plainVolume) (State.init plainVolume) [findSeven, parentOfSeven] = some s ∧
      TableOk s.table ∧ s.nullFollowed = false := by
  refine ⟨_, rfl, runs_safe plainVolume
    (.next (a := parentOfSeven) (.next (a := findSeven) .start ?_ rfl) ?_ rfl)⟩
  · intro p hp _
    obtain rfl : p = 1 := Option.some.inj (hp.symm.trans rfl)
    exact fun hnext => absurd hnext (by decide)
  · intro p hp _
    obtain rfl : p = 2 := Option.some.inj (hp.symm.trans rfl)
    intro _ it hit _
    obtain rfl := Option.some.inj hit
    refine ⟨by decide, fun q _ => ?_⟩
    unfold WalkOk
    trivial

end SheepShear.ExtFs.Walks
