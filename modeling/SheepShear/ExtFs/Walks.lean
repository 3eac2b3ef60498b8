import SheepShear.ExtFs.Catalog

/-!
# Walks through the table of items

The table of `extfs.cpp` with its 32-bit IDs, and `get_item_and_path` with what the
path parser of the guest reports. A pathname has finitely many reports. The host
decides whether a rename takes place; it does not rename to or from an empty path.
-/

namespace SheepShear.ExtFs.Walks

open Steps

structure FSItem (G N : Type) where
  id : BitVec 32
  parentId : BitVec 32
  parent : Option Nat
  name : N
  guestName : G

structure Table (G N : Type) where
  items : List (FSItem G N)
  nextCnid : BitVec 32

def rootParentId : BitVec 32 := 1
def rootId : BitVec 32 := 2

variable {G N : Type} [DecidableEq G] [DecidableEq N]

/-- The items of `ExtFSInit`. -/
def Table.init (v : Volume G N) : Table G N where
  items :=
    [⟨rootParentId, 0, none, v.toHost v.emptyName, v.emptyName⟩,
      ⟨rootId, rootParentId, some 0, v.toHost v.volumeName, v.volumeName⟩]
  nextCnid := BitVec.ofNat 32 fsUsrCnid

def findFsitemById (cnid : BitVec 32) (t : Table G N) : Option Nat :=
  t.items.findIdx? fun it => it.id = cnid

def createFsitem (name : N) (guestName : G) (parent : Nat) (t : Table G N) : Table G N × Nat :=
  let parentId := (t.items[parent]?.map FSItem.id).getD 0
  ({ items := t.items ++ [⟨t.nextCnid, parentId, some parent, name, guestName⟩],
     nextCnid := t.nextCnid + 1 }, t.items.length)

def findFsitem (v : Volume G N) (name : N) (parent : Nat) (t : Table G N) : Table G N × Nat :=
  match t.items.findIdx? fun it => it.parent = some parent ∧ it.name = name with
  | some k => (t, k)
  | none => createFsitem name (v.toGuest name) parent t

def findFsitemGuest (v : Volume G N) (name : G) (parent : Nat) (t : Table G N) : Table G N × Nat :=
  match t.items.findIdx? fun it => it.parent = some parent ∧ it.guestName = name with
  | some k => (t, k)
  | none => createFsitem (v.toHost name) name parent t

/-- `swap_parent_ids` on one ID. -/
def swapId (a b id : BitVec 32) : BitVec 32 := if id = a then b else if id = b then a else id

/-- The exchange at the end of `fs_rename` and `fs_cat_move`. -/
def swapIds (i j : Nat) (t : Table G N) : Table G N :=
  match t.items[i]?, t.items[j]? with
  | some a, some b =>
    let items := t.items.map fun it => { it with parentId := swapId a.id b.id it.parentId }
    let items := items.modify i fun it => { it with id := b.id }
    { t with items := items.modify j fun it => { it with id := a.id } }
  | _, _ => t

-- ---------------------------------------------------------------------------
-- Path names
-- ---------------------------------------------------------------------------

/-- What a call of `get_path_component_name` has: its result, the component or none if it is empty,
and whether there is more. -/
structure Report (G : Type) where
  noErr : Bool
  component : Option G
  moreName : Bool

/-- What the parser makes of a pathname: the first report and those that follow it, or no pathname
at all. -/
inductive Pathname (G : Type) where
  | parsed (first : Report G) (rest : List (Report G))
  | unparsed (isEmpty : Bool)

inductive WalkEnd where
  | item (p : Nat)
  | failed
  /-- `p->parent` was the null pointer, and was followed. -/
  | nullParent
deriving DecidableEq

/-- The loop of `get_item_and_path` after a report, and the object at its end. -/
def walk (v : Volume G N) : List (Report G) → Report G → Nat → Table G N → Table G N × WalkEnd
  | rest, last, p, t =>
    if last.moreName then
      match rest with
      | [] => (t, .failed)
      | r :: rest =>
        if r.noErr then
          match r.component with
          | none =>
            match t.items[p]? with
            | none => (t, .failed)
            | some it =>
              if it.id ≠ rootId then
                match it.parent with
                | some q => walk v rest r q t
                | none => (t, .nullParent)
              else (t, .failed)
          | some g =>
            if r.moreName then
              let (t, q) := findFsitemGuest v g p t
              walk v rest r q t
            else walk v rest r p t
        else (t, .failed)
    else
      match last.component with
      | none => (t, .item p)
      | some g =>
        let (t, q) := findFsitemGuest v g p t
        (t, .item q)

/-- `get_item_and_path` from a directory ID on. -/
def getItemAndPath (v : Volume G N) (dirId : BitVec 32) (name : Pathname G) (t : Table G N) :
    Table G N × WalkEnd :=
  match findFsitemById dirId t with
  | none => (t, .failed)
  | some p =>
    match name with
    | .parsed first rest => if first.noErr then walk v rest first p t else (t, .failed)
    | .unparsed isEmpty => (t, if isEmpty then .item p else .failed)

-- ---------------------------------------------------------------------------
-- Calls
-- ---------------------------------------------------------------------------

/-- The calls by what they do to the table. -/
inductive Call (G N : Type) where
  | lookup (dirId : BitVec 32) (name : Pathname G)
  | entry (dirId : BitVec 32) (name : N)
  | rename (dirId : BitVec 32) (name newName : Pathname G) (renamed : Bool)
  | catMove (dirId : BitVec 32) (name : Pathname G) (newDirId : BitVec 32) (newName : Pathname G)
    (renamed : Bool)

structure State (G N : Type) where
  table : Table G N
  nullFollowed : Bool

def State.init (v : Volume G N) : State G N := ⟨Table.init v, false⟩

/-- The path of the root's parent is empty. -/
def hasPath (t : Table G N) (k : Nat) : Bool := (t.items[k]?.map FSItem.id) != some rootParentId

/-- A call after its first path name. -/
def afterWalk (walked : Table G N × WalkEnd) (next : Nat → Table G N → State G N) : State G N :=
  match walked with
  | (t, .item k) => next k t
  | (t, .failed) => ⟨t, false⟩
  | (t, .nullParent) => ⟨t, true⟩

def call (v : Volume G N) (t : Table G N) : Call G N → State G N
  | .lookup dirId name => afterWalk (getItemAndPath v dirId name t) fun _ t => ⟨t, false⟩
  | .entry dirId name =>
    match findFsitemById dirId t with
    | none => ⟨t, false⟩
    | some p => ⟨(findFsitem v name p t).1, false⟩
  | .rename dirId name newName renamed =>
    afterWalk (getItemAndPath v dirId name t) fun i t =>
      afterWalk (getItemAndPath v dirId newName t) fun j t =>
        if renamed && hasPath t i && hasPath t j then ⟨swapIds i j t, false⟩ else ⟨t, false⟩
  | .catMove dirId name newDirId newName renamed =>
    afterWalk (getItemAndPath v dirId name t) fun i t =>
      afterWalk (getItemAndPath v newDirId newName t) fun d t =>
        match t.items[i]? with
        | none => ⟨t, false⟩
        | some it =>
          if renamed && hasPath t i then
            let (t, j) := findFsitem v it.name d t
            ⟨swapIds i j t, false⟩
          else ⟨t, false⟩

/-- Nothing is called after a null pointer was followed. -/
def step (v : Volume G N) (s : State G N) (c : Call G N) : Option (State G N) :=
  if s.nullFollowed then none else some (call v s.table c)

end SheepShear.ExtFs.Walks
