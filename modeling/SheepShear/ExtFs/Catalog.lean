import SheepShear.Lib.Steps

/-!
# The catalog of the external file system

`extfs.cpp`: catalog node IDs stand for files and directories of the host. The
table of `FSItem`s only grows; an item has a parent and a name for good, which
make up its path, and operations that rename or move an object exchange the IDs
of two items. IDs are not bounded here: there is one per item.
-/

namespace SheepShear.ExtFs

/-- What a volume is set up with. Names are valid in both encodings and convert without loss. -/
structure Volume (G N : Type) where
  /-- `macroman_to_host_encoding`. -/
  toHost : G → N
  /-- `host_encoding_to_macroman`. -/
  toGuest : N → G
  toHost_toGuest : ∀ n, toHost (toGuest n) = n
  toGuest_toHost : ∀ g, toGuest (toHost g) = g
  rootPath : List N
  volumeName : G
  emptyName : G
  /-- Names that begin with a dot. -/
  hidden : N → Bool

def rootParentId : Nat := 1
def rootId : Nat := 2
def fsUsrCnid : Nat := 16

/-- The parent is the position of an item in the list; only the root's parent has none. -/
structure FSItem (G N : Type) where
  id : Nat
  parentId : Nat
  parent : Option Nat
  name : N
  guestName : G

structure Table (G N : Type) where
  items : List (FSItem G N)
  nextCnid : Nat

variable {G N : Type}

/-- The items of `ExtFSInit`. -/
def Table.init (v : Volume G N) : Table G N where
  items :=
    [⟨rootParentId, 0, none, v.toHost v.emptyName, v.emptyName⟩,
      ⟨rootId, rootParentId, some 0, v.toHost v.volumeName, v.volumeName⟩]
  nextCnid := fsUsrCnid

/-- `find_fsitem_by_id`. -/
def findFsitemById (cnid : Nat) (t : Table G N) : Option Nat :=
  t.items.findIdx? fun it => it.id = cnid

/-- `create_fsitem`. -/
def createFsitem (name : N) (guestName : G) (parent : Nat) (t : Table G N) : Table G N × Nat :=
  let parentId := (t.items[parent]?.map FSItem.id).getD 0
  ({ items := t.items ++ [⟨t.nextCnid, parentId, some parent, name, guestName⟩],
     nextCnid := t.nextCnid + 1 }, t.items.length)

/-- `find_fsitem`. -/
def findFsitem [DecidableEq N] (v : Volume G N) (name : N) (parent : Nat) (t : Table G N) :
    Table G N × Nat :=
  match t.items.findIdx? fun it => it.parent = some parent ∧ it.name = name with
  | some k => (t, k)
  | none => createFsitem name (v.toGuest name) parent t

/-- `find_fsitem_guest`. -/
def findFsitemGuest [DecidableEq G] (v : Volume G N) (name : G) (parent : Nat) (t : Table G N) :
    Table G N × Nat :=
  match t.items.findIdx? fun it => it.parent = some parent ∧ it.guestName = name with
  | some k => (t, k)
  | none => createFsitem (v.toHost name) name parent t

def pathFrom (rootPath : List N) (items : List (FSItem G N)) : (fuel : Nat) → Nat → List N
  | 0, _ => []
  | fuel + 1, k =>
    match items[k]? with
    | none => []
    | some it =>
      if it.id = rootParentId then []
      else if it.id = rootId then rootPath
      else
        match it.parent with
        | none => []
        | some p => pathFrom rootPath items fuel p ++ [it.name]

/-- `get_path_for_fsitem`, as the names on the path; a chain of parents is never longer than the
list. -/
def getPathForFsitem (v : Volume G N) (t : Table G N) (k : Nat) : List N :=
  pathFrom v.rootPath t.items t.items.length k

/-- `swap_parent_ids` on one ID. -/
def swapId (a b id : Nat) : Nat := if id = a then b else if id = b then a else id

/-- The exchange of the IDs of two items, as `fs_rename` and `fs_cat_move` end. -/
def swapIds (i j : Nat) (t : Table G N) : Table G N :=
  match t.items[i]?, t.items[j]? with
  | some a, some b =>
    let items := t.items.map fun it => { it with parentId := swapId a.id b.id it.parentId }
    let items := items.modify i fun it => { it with id := b.id }
    { t with items := items.modify j fun it => { it with id := a.id } }
  | _, _ => t

-- ---------------------------------------------------------------------------
-- Path names
-- ---------------------------------------------------------------------------

/-- A component of a path name: an empty one is the parent directory. -/
inductive Component (G : Type) where
  | up
  | name (g : G)

/-- The loop of `get_item_and_path` over the components. Above the root's parent it would follow a
null pointer. -/
def walk [DecidableEq G] (v : Volume G N) :
    List (Component G) → Nat → Table G N → Table G N × Option Nat
  | [], p, t => (t, some p)
  | .up :: cs, p, t =>
    match t.items[p]? with
    | none => (t, none)
    | some it =>
      if it.id ≠ rootId then
        match it.parent with
        | some q => walk v cs q t
        | none => (t, none)
      else (t, none)
  | .name g :: cs, p, t =>
    let (t', q) := findFsitemGuest v g p t
    walk v cs q t'

/-- `get_item_and_path` from a directory ID on. Items made on the way stay when it fails. -/
def getItemAndPath [DecidableEq G] (v : Volume G N) (dirId : Nat) (cs : List (Component G))
    (t : Table G N) : Table G N × Option Nat :=
  match findFsitemById dirId t with
  | none => (t, none)
  | some p => walk v cs p t

-- ---------------------------------------------------------------------------
-- The host
-- ---------------------------------------------------------------------------

structure Node where
  obj : Nat
  dir : Bool

/-- The files and directories of the host by their paths, and the next object to be made. -/
structure Host (N : Type) where
  at_ : List N → Option Node
  next : Nat

/-- The parent of a path is a directory. -/
def Host.hasParent (h : Host N) (path : List N) : Bool :=
  !path.isEmpty && (h.at_ path.dropLast).any Node.dir

/-- `rename`, which does not move a directory into itself. -/
def Host.rename [DecidableEq N] (h : Host N) (old new : List N) : Host N :=
  { h with at_ := fun path =>
      if old <+: path then none
      else if new <+: path then h.at_ (old ++ path.drop new.length)
      else h.at_ path }

/-- `creat` and `mkdir`. -/
def Host.create [DecidableEq N] (h : Host N) (path : List N) (dir : Bool) : Host N where
  at_ := fun p => if p = path then some ⟨h.next, dir⟩ else h.at_ p
  next := h.next + 1

-- ---------------------------------------------------------------------------
-- Operations
-- ---------------------------------------------------------------------------

/-- The file system. `given` are the IDs that were handed to the guest, with the objects they were
handed out for. -/
structure State (G N : Type) where
  table : Table G N
  host : Host N
  given : List (Nat × Nat)

/-- What an item stands for on the host; the path of the root's parent is empty. -/
def State.nodeOf (v : Volume G N) (s : State G N) (k : Nat) : Option Node :=
  match s.table.items[k]? with
  | none => none
  | some it => if it.id = rootParentId then none else s.host.at_ (getPathForFsitem v s.table k)

/-- The guest is told the ID of an item whose object exists. -/
def State.handOut (v : Volume G N) (s : State G N) (k : Nat) : State G N :=
  match s.nodeOf v k, s.table.items[k]? with
  | some node, some it => { s with given := (it.id, node.obj) :: s.given }
  | _, _ => s

/-- The common end of `fs_rename` and `fs_cat_move`: `i` is the item, and `j` that of its new
path. -/
def State.exchange [DecidableEq N] (s : State G N) (i j : Nat) (old new : List N) : State G N :=
  { s with host := s.host.rename old new, table := swapIds i j s.table }

/-- The host lets an object be renamed to a path that is free. -/
def State.canRename [DecidableEq N] (v : Volume G N) (s : State G N) (i : Nat) (old new : List N) :
    Bool :=
  (s.nodeOf v i).isSome && (s.host.at_ new).isNone && s.host.hasParent new && !old.isPrefixOf new

inductive Op (G N : Type) where
  | lookup (dirId : Nat) (cs : List (Component G))
  | lookupDir (dirId : Nat)
  | lookupIndex (dirId : Nat) (name : N)
  | create (dirId : Nat) (cs : List (Component G)) (dir : Bool)
  | rename (dirId : Nat) (cs cs' : List (Component G))
  | catMove (dirId : Nat) (cs : List (Component G)) (newDirId : Nat) (cs' : List (Component G))

/-- An operation, whether it succeeds or fails. -/
def apply [DecidableEq G] [DecidableEq N] (v : Volume G N) (s : State G N) : Op G N → State G N
  | .lookup dirId cs =>
    match getItemAndPath v dirId cs s.table with
    | (t, none) => { s with table := t }
    | (t, some k) => { s with table := t }.handOut v k
  | .lookupDir dirId =>
    match findFsitemById dirId s.table with
    | none => s
    | some k => s.handOut v k
  | .lookupIndex dirId name =>
    match findFsitemById dirId s.table with
    | none => s
    | some p =>
      -- An entry of the directory that `readdir` returned.
      if (s.nodeOf v p).isSome && !v.hidden name &&
          (s.host.at_ (getPathForFsitem v s.table p ++ [name])).isSome then
        let (t, k) := findFsitem v name p s.table
        { s with table := t }.handOut v k
      else s
  | .create dirId cs dir =>
    match getItemAndPath v dirId cs s.table with
    | (t, none) => { s with table := t }
    | (t, some k) =>
      let s := { s with table := t }
      let path := getPathForFsitem v t k
      if (s.host.at_ path).isNone && s.host.hasParent path then
        let s := { s with host := s.host.create path dir }
        -- Only `fs_dir_create` returns the ID.
        if dir then s.handOut v k else s
      else s
  | .rename dirId cs cs' =>
    match getItemAndPath v dirId cs s.table with
    | (t, none) => { s with table := t }
    | (t, some i) =>
      match getItemAndPath v dirId cs' t with
      | (t', none) => { s with table := t' }
      | (t', some j) =>
        let s := { s with table := t' }
        let old := getPathForFsitem v t i
        let new := getPathForFsitem v t' j
        if s.canRename v i old new then s.exchange i j old new else s
  | .catMove dirId cs newDirId cs' =>
    match getItemAndPath v dirId cs s.table with
    | (t, none) => { s with table := t }
    | (t, some i) =>
      match getItemAndPath v newDirId cs' t with
      | (t', none) => { s with table := t' }
      | (t', some d) =>
        match t'.items[i]? with
        | none => { s with table := t' }
        | some it =>
          let s := { s with table := t' }
          let old := getPathForFsitem v t i
          let new := getPathForFsitem v t' d ++ [it.name]
          if s.canRename v i old new then
            let (t'', j) := findFsitem v it.name d t'
            { s with table := t'' }.exchange i j old new
          else s

end SheepShear.ExtFs
