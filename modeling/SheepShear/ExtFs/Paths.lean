import SheepShear.Lib.CString
import SheepShear.Lib.Except

/-!
# Host paths

The buffers of `MAX_PATH_LENGTH` bytes in which `extfs.cpp` and `extfs_unix.cpp` put
paths together. Writing behind a buffer or reading in front of it is a fault.
-/

namespace SheepShear.ExtFs

def maxPathLength : Nat := 1024

inductive PathFault where
  | writeOutside
  | readBefore
deriving DecidableEq, Repr

/-- The string in a buffer, which has its terminator too. -/
structure PathBuffer where
  text : List Byte
  fits : text.length < maxPathLength
deriving DecidableEq

def slash : Byte := 0x2f

/-- A string is written with its terminator. -/
def store (text : List Byte) : Except PathFault PathBuffer :=
  if h : text.length < maxPathLength then .ok ⟨text, h⟩ else .error .writeOutside

/-- `strncpy` with the bound `MAX_PATH_LENGTH - 1`, and a terminator in the last byte. -/
def strncpyPath (s : List Byte) : PathBuffer where
  text := s.take (maxPathLength - 1)
  fits := Nat.lt_of_le_of_lt (List.length_take_le ..) (by decide)

/-- `strncat` with the bound `MAX_PATH_LENGTH - 1`. -/
def PathBuffer.strncat (path : PathBuffer) (s : List Byte) : Except PathFault PathBuffer :=
  store (path.text ++ s.take (maxPathLength - 1))

/-- `path[strlen(path) - 1]`. -/
def PathBuffer.lastByte (path : PathBuffer) : Except PathFault Byte :=
  match path.text.getLast? with
  | some c => .ok c
  | none => .error .readBefore

def addPathComponent (path : PathBuffer) (component : CString) : Except PathFault PathBuffer := do
  if path.text.length < maxPathLength - 1 then
    if (← path.lastByte) ≠ slash then
      (← store (path.text ++ [slash])).strncat component.val
    else path.strncat component.val
  else path.strncat component.val

/-- An item with its parents, as far as `get_path_for_fsitem` follows them. -/
inductive ItemChain where
  | rootParent
  | root
  | child (parent : ItemChain) (name : CString)

def ItemChain.getPathForFsitem (rootPath : CString) : ItemChain → Except PathFault PathBuffer
  | .rootParent => .ok ⟨[], by decide⟩
  | .root => .ok (strncpyPath rootPath.val)
  | .child parent name => do addPathComponent (← parent.getPathForFsitem rootPath) name

/-- A path up to its last component, and the last component. -/
def dirPart (src : List Byte) : List Byte := src.rdropWhile (· ≠ slash)

def lastPart (src : List Byte) : List Byte := src.rtakeWhile (· ≠ slash)

inductive Helper where
  | finf
  | rsrc

/-- The component that is added for a helper file. -/
def Helper.add : Helper → List Byte
  | .finf => ascii ".finf/"
  | .rsrc => ascii ".rsrc/"

def makeHelperPath (src : CString) (helper : Helper) (onlyDir : Bool) :
    Except PathFault PathBuffer := do
  let dest ← store (dirPart src.val)
  let dest ← dest.strncat helper.add
  if onlyDir then return dest else dest.strncat (lastPart src.val)

-- ---------------------------------------------------------------------------
-- What is wanted
-- ---------------------------------------------------------------------------

/-- A component behind a path, with one separator between them. -/
def joinPath (path component : List Byte) : List Byte :=
  (if path.getLast? = some slash then path else path ++ [slash]) ++ component

def ItemChain.fullPath (rootPath : List Byte) : ItemChain → List Byte
  | .rootParent => []
  | .root => rootPath
  | .child parent name => joinPath (parent.fullPath rootPath) name.val

/-- The calls that put a path together, with their arguments. -/
inductive PathCall where
  | getPathForFsitem (rootPath : CString) (chain : ItemChain)
  | addPathComponent (path : PathBuffer) (component : CString)
  | makeHelperPath (src : CString) (helper : Helper) (onlyDir : Bool)

def PathCall.run : PathCall → Except PathFault PathBuffer
  | .getPathForFsitem rootPath chain => chain.getPathForFsitem rootPath
  | .addPathComponent path component => ExtFs.addPathComponent path component
  | .makeHelperPath src helper onlyDir => ExtFs.makeHelperPath src helper onlyDir

def PathCall.wanted : PathCall → List Byte
  | .getPathForFsitem rootPath chain => chain.fullPath rootPath.val
  | .addPathComponent path component => joinPath path.text component.val
  | .makeHelperPath src helper onlyDir =>
    dirPart src.val ++ helper.add ++ if onlyDir then [] else lastPart src.val

/-- The call stays in the buffer, and where the path that is wanted fits, it is the result. -/
def PathCall.Good (c : PathCall) : Prop :=
  ∃ path, c.run = .ok path ∧ (c.wanted.length < maxPathLength → path.text = c.wanted)

/-- The parents end at the root, and it has a path. -/
def ItemChain.HasRoot (rootPath : List Byte) : ItemChain → Prop
  | .rootParent => False
  | .root => rootPath ≠ []
  | .child parent _ => parent.HasRoot rootPath

/-- The path fits up to each component that is not empty, and nothing is below the root's parent
but the root. -/
def ItemChain.Fits (rootPath : List Byte) : ItemChain → Prop
  | .rootParent => True
  | .root => True
  | .child parent name =>
    parent.Fits rootPath ∧ parent.HasRoot rootPath ∧
      (name.val = [] ∨ (joinPath (parent.fullPath rootPath) name.val).length < maxPathLength)

def PathCall.Fits : PathCall → Prop
  | .getPathForFsitem rootPath chain => chain.Fits rootPath.val
  | .addPathComponent path component =>
    path.text ≠ [] ∧
      (component.val = [] ∨ (joinPath path.text component.val).length < maxPathLength)
  | .makeHelperPath src helper onlyDir =>
    (dirPart src.val ++ helper.add ++ if onlyDir then [] else lastPart src.val).length < maxPathLength

-- ---------------------------------------------------------------------------
-- Components
-- ---------------------------------------------------------------------------

theorem store_ok {text : List Byte} (h : text.length < maxPathLength) : store text = .ok ⟨text, h⟩ :=
  dif_pos h

theorem store_error {text : List Byte} (h : ¬text.length < maxPathLength) :
    store text = .error .writeOutside := dif_neg h

/-- The bound of `strncat` does not matter where the result fits, nor behind any text. -/
theorem strncat_eq {path : PathBuffer} {s : List Byte} (h : path.text ≠ [] ∨ s.length < maxPathLength) :
    path.strncat s = store (path.text ++ s) := by
  unfold PathBuffer.strncat
  by_cases hs : s.length < maxPathLength
  · rw [List.take_of_length_le (by unfold maxPathLength at hs ⊢; omega)]
  · have hpos := List.length_pos_iff.mpr (h.resolve_right hs)
    rw [store_error, store_error] <;> rw [List.length_append] <;> try rw [List.length_take]
    all_goals
      unfold maxPathLength at hs ⊢
      omega

theorem addPathComponent_empty {path : PathBuffer} (h : path.text = []) (component : CString) :
    addPathComponent path component = .error .readBefore := by
  simp [addPathComponent, PathBuffer.lastByte, h, maxPathLength]

/-- A component behind a path that is not empty. -/
theorem addPathComponent_eq {path : PathBuffer} (h : path.text ≠ []) (component : CString) :
    addPathComponent path component =
      if path.text.length < maxPathLength - 1 ∨ path.text.getLast? = some slash then
        store (joinPath path.text component.val)
      else store (path.text ++ component.val) := by
  obtain ⟨c, hc⟩ : ∃ c, path.text.getLast? = some c := ⟨_, List.getLast?_eq_some_getLast h⟩
  have hlast : path.lastByte = .ok c := by rw [PathBuffer.lastByte, hc]
  unfold addPathComponent joinPath
  by_cases hroom : path.text.length < maxPathLength - 1
  · rw [if_pos hroom, if_pos (.inl hroom), hlast, hc, Except.ok_bind]
    by_cases hslash : c = slash
    · rw [if_neg (not_not.mpr hslash), if_pos (congrArg some hslash), strncat_eq (.inl h)]
    · have hstore : store (path.text ++ [slash]) = _ :=
        store_ok (by rw [List.length_append, List.length_singleton]; omega)
      rw [if_pos hslash, if_neg (mt Option.some.inj hslash), hstore, Except.ok_bind,
        strncat_eq (.inl (List.append_ne_nil_of_left_ne_nil h _))]
  · rw [if_neg hroom, strncat_eq (.inl h)]
    by_cases hslash : path.text.getLast? = some slash
    · rw [if_pos (.inr hslash), if_pos hslash]
    · rw [if_neg (not_or.mpr ⟨hroom, hslash⟩)]

theorem joinPath_ne_nil {path : List Byte} (h : path ≠ []) (component : List Byte) :
    joinPath path component ≠ [] := by
  unfold joinPath
  split <;> simp [h]

theorem length_joinPath (path component : List Byte) :
    (joinPath path component).length =
      path.length + component.length + if path.getLast? = some slash then 0 else 1 := by
  unfold joinPath
  split
  · simp
  · simp only [List.length_append, List.length_singleton]
    omega

/-- The text of a buffer is the path, or the path has no room and the buffer is full. -/
def Holds (buffer path : List Byte) : Prop :=
  buffer = path ∨ buffer.length = maxPathLength - 1 ∧ maxPathLength ≤ path.length

theorem Holds.eq {buffer path : List Byte} (h : Holds buffer path)
    (hfits : path.length < maxPathLength) : buffer = path :=
  h.resolve_right fun hfull => Nat.not_le.mpr hfits hfull.2

theorem Holds.ne_nil {buffer path : List Byte} (h : Holds buffer path) (hpath : path ≠ []) :
    buffer ≠ [] := by
  rcases h with rfl | ⟨hfull, -⟩
  · exact hpath
  · rintro rfl
    cases hfull

/-- A component that is empty or has room is added, and no other. -/
theorem addPathComponent_spec {buffer : PathBuffer} {path : List Byte} (h : Holds buffer.text path)
    (hpath : path ≠ []) (component : CString) :
    if component.val = [] ∨ (joinPath path component.val).length < maxPathLength then
      ∃ next, addPathComponent buffer component = .ok next ∧
        Holds next.text (joinPath path component.val)
    else ∃ fault, addPathComponent buffer component = .error fault := by
  have hroom := buffer.fits
  rw [addPathComponent_eq (h.ne_nil hpath)]
  by_cases hempty : component.val = []
  · rw [if_pos (.inl hempty), hempty]
    rcases h with hsame | ⟨hfull, hlong⟩
    · rw [hsame] at hroom ⊢
      have hlength := length_joinPath path []
      split
      next hslash =>
        have hfits : (joinPath path []).length < maxPathLength := by
          rw [hlength]
          rcases hslash with hless | hslash
          · simp only [List.length_nil]
            split <;> omega
          · rw [if_pos hslash]
            simpa using hroom
        exact ⟨_, store_ok hfits, .inl rfl⟩
      next hslash =>
        obtain ⟨hless, hslash⟩ := not_or.mp hslash
        have hsame : (path ++ []).length = path.length := by rw [List.append_nil]
        refine ⟨_, store_ok (by omega), .inr ⟨?_, ?_⟩⟩
        · exact hsame.trans (by omega)
        · rw [hlength, if_neg hslash, List.length_nil]
          omega
    · have hlength := length_joinPath path []
      have hbuffer := length_joinPath buffer.text []
      simp only [List.length_nil, Nat.add_zero] at hlength hbuffer
      split
      next hslash =>
        have hslash := hslash.resolve_left (by omega)
        rw [if_pos hslash] at hbuffer
        exact ⟨_, store_ok (by omega), .inr ⟨hbuffer.trans (by omega), by omega⟩⟩
      next =>
        have hsame : (buffer.text ++ []).length = buffer.text.length := by rw [List.append_nil]
        exact ⟨_, store_ok (by omega), .inr ⟨hsame.trans hfull, by omega⟩⟩
  · have hpos := List.length_pos_iff.mpr hempty
    by_cases hfits : (joinPath path component.val).length < maxPathLength
    · rw [if_pos (.inr hfits)]
      have hlength := length_joinPath path component.val
      have hsame := h.eq (by omega)
      rw [hsame]
      have hslash : path.length < maxPathLength - 1 ∨ path.getLast? = some slash := by
        by_contra hnone
        obtain ⟨hless, hslash⟩ := not_or.mp hnone
        rw [if_neg hslash] at hlength
        omega
      rw [if_pos hslash]
      exact ⟨_, store_ok hfits, .inl rfl⟩
    · rw [if_neg (not_or.mpr ⟨hempty, hfits⟩)]
      refine ⟨.writeOutside, ?_⟩
      have hbuffer := length_joinPath buffer.text component.val
      rcases h with hsame | ⟨hfull, -⟩
      · rw [hsame] at hbuffer hroom ⊢
        split
        next => exact store_error hfits
        next hslash =>
          refine store_error ?_
          rw [List.length_append]
          omega
      · split
        next => exact store_error (by omega)
        next =>
          refine store_error ?_
          rw [List.length_append]
          omega

-- ---------------------------------------------------------------------------
-- Whole paths
-- ---------------------------------------------------------------------------

theorem fullPath_ne_nil {rootPath : List Byte} {chain : ItemChain} (h : chain.HasRoot rootPath) :
    chain.fullPath rootPath ≠ [] := by
  induction chain with
  | rootParent => exact absurd h id
  | root => exact h
  | child parent name ih => exact joinPath_ne_nil (ih h) _

theorem fullPath_eq_nil {rootPath : List Byte} {chain : ItemChain} (h : chain.Fits rootPath)
    (hroot : ¬chain.HasRoot rootPath) : chain.fullPath rootPath = [] := by
  cases chain with
  | rootParent => rfl
  | root => exact not_not.mp hroot
  | child parent name => exact absurd h.2.1 hroot

/-- The path of an item whose chain fits, and a fault for every other. -/
theorem getPathForFsitem_spec (rootPath : CString) (chain : ItemChain) :
    (chain.Fits rootPath.val → ∃ path, chain.getPathForFsitem rootPath = .ok path ∧
        Holds path.text (chain.fullPath rootPath.val)) ∧
      (¬chain.Fits rootPath.val → ∃ fault, chain.getPathForFsitem rootPath = .error fault) := by
  induction chain with
  | rootParent => exact ⟨fun _ => ⟨_, rfl, .inl rfl⟩, fun h => absurd trivial h⟩
  | root =>
    refine ⟨fun _ => ⟨_, rfl, ?_⟩, fun h => absurd trivial h⟩
    by_cases hfits : rootPath.val.length < maxPathLength
    · exact .inl (List.take_of_length_le (Nat.le_sub_one_of_lt hfits))
    · refine .inr ⟨?_, Nat.le_of_not_lt hfits⟩
      simp only [strncpyPath, List.length_take]
      omega
  | child parent name ih =>
    by_cases hparent : parent.Fits rootPath.val
    · obtain ⟨path, hpath, hholds⟩ := ih.1 hparent
      have hrun : (parent.child name).getPathForFsitem rootPath = addPathComponent path name := by
        rw [ItemChain.getPathForFsitem, hpath, Except.ok_bind]
      rw [hrun]
      by_cases hroot : parent.HasRoot rootPath.val
      · have hspec := addPathComponent_spec hholds (fullPath_ne_nil hroot) name
        by_cases hname : name.val = [] ∨
            (joinPath (parent.fullPath rootPath.val) name.val).length < maxPathLength
        · rw [if_pos hname] at hspec
          exact ⟨fun _ => hspec, fun h => absurd ⟨hparent, hroot, hname⟩ h⟩
        · rw [if_neg hname] at hspec
          exact ⟨fun h => absurd h.2.2 hname, fun _ => hspec⟩
      · have hnil := hholds.eq (by rw [fullPath_eq_nil hparent hroot]; decide)
        rw [fullPath_eq_nil hparent hroot] at hnil
        exact ⟨fun h => absurd h.2.1 hroot, fun _ => ⟨_, addPathComponent_empty hnil name⟩⟩
    · obtain ⟨fault, hfault⟩ := ih.2 hparent
      refine ⟨fun h => absurd h.1 hparent, fun _ => ⟨fault, ?_⟩⟩
      rw [ItemChain.getPathForFsitem, hfault, Except.error_bind]

theorem store_strncat {text s : List Byte} (h : text ≠ [] ∨ s.length < maxPathLength) :
    (do (← store text).strncat s) = store (text ++ s) := by
  by_cases htext : text.length < maxPathLength
  · rw [store_ok htext, Except.ok_bind, strncat_eq h]
  · rw [store_error htext, Except.error_bind, store_error]
    rw [List.length_append]
    omega

theorem makeHelperPath_spec (src : CString) (helper : Helper) (onlyDir : Bool) :
    makeHelperPath src helper onlyDir =
      store (dirPart src.val ++ helper.add ++ if onlyDir then [] else lastPart src.val) := by
  have hadd : helper.add.length = 6 := by cases helper <;> rfl
  have hdir : (do (← store (dirPart src.val)).strncat helper.add) =
      store (dirPart src.val ++ helper.add) :=
    store_strncat (.inr (by rw [hadd]; decide))
  unfold makeHelperPath
  rw [← bind_assoc, hdir]
  cases onlyDir with
  | true =>
    rw [if_pos rfl, List.append_nil]
    cases store (dirPart src.val ++ helper.add) <;> rfl
  | false =>
    simp only [Bool.false_eq_true, if_false]
    refine store_strncat (.inl fun hnil => ?_)
    rw [List.append_eq_nil_iff] at hnil
    rw [hnil.2] at hadd
    cases hadd

/-- The calls that stay in the buffer and have the path that is wanted. -/
theorem pathCall_good_iff (c : PathCall) : c.Good ↔ c.Fits := by
  cases c with
  | getPathForFsitem rootPath chain =>
    obtain ⟨hfits, hnot⟩ := getPathForFsitem_spec rootPath chain
    constructor
    · rintro ⟨path, hrun, -⟩
      by_contra h
      obtain ⟨fault, hfault⟩ := hnot h
      cases hrun.symm.trans hfault
    · intro h
      obtain ⟨path, hrun, hholds⟩ := hfits h
      exact ⟨path, hrun, hholds.eq⟩
  | addPathComponent path component =>
    by_cases hpath : path.text = []
    · refine iff_of_false ?_ fun h => h.1 hpath
      rintro ⟨next, hrun, -⟩
      cases hrun.symm.trans (addPathComponent_empty hpath component)
    · have hspec := addPathComponent_spec (.inl rfl) hpath component
      constructor
      · rintro ⟨next, hrun, -⟩
        refine ⟨hpath, ?_⟩
        by_contra h
        rw [if_neg h] at hspec
        obtain ⟨fault, hfault⟩ := hspec
        cases hrun.symm.trans hfault
      · rintro ⟨-, h⟩
        rw [if_pos h] at hspec
        obtain ⟨next, hrun, hholds⟩ := hspec
        exact ⟨next, hrun, hholds.eq⟩
  | makeHelperPath src helper onlyDir =>
    have hrun := makeHelperPath_spec src helper onlyDir
    constructor
    · rintro ⟨path, hok, -⟩
      by_contra h
      cases hok.symm.trans (hrun.trans (store_error h))
    · intro h
      exact ⟨_, hrun.trans (store_ok h), fun _ => rfl⟩

/-- A file beside the root. -/
def besideRoot : PathCall :=
  .getPathForFsitem ⟨ascii "/mac", by decide⟩ (.child .rootParent ⟨ascii "x", by decide⟩)

/-- The resource fork of a file below five directories with names of 203 bytes. -/
def longHelper : PathCall :=
  .makeHelperPath
    ⟨(List.replicate 5 (slash :: List.replicate 203 0x61)).flatten ++ ascii "/x", by decide +kernel⟩
    .rsrc false

theorem besideRoot_faults :
    besideRoot.run = .error .readBefore ∧ ¬besideRoot.Good ∧
      longHelper.run = .error .writeOutside ∧ ¬longHelper.Good := by
  have hbeside : besideRoot.run = .error .readBefore := rfl
  have hlong : longHelper.run = .error .writeOutside := by decide +kernel
  refine ⟨hbeside, ?_, hlong, ?_⟩
  · rintro ⟨path, hrun, -⟩
    cases hrun.symm.trans hbeside
  · rintro ⟨path, hrun, -⟩
    cases hrun.symm.trans hlong

end SheepShear.ExtFs
