import SheepShear.Lib.CString

/-!
# Preferences

`prefs.cpp`: the list of preference nodes, access by keyword, type and index,
and the text file the list is saved to and loaded from. The descriptor tables
are those of `prefs_items.cpp` and of the platform back ends.
-/

namespace SheepShear.Prefs

-- ---------------------------------------------------------------------------
-- Descriptors
-- ---------------------------------------------------------------------------

/-- `TYPE_ANY` is `none` where a wildcard is possible; as `TYPE_END` it only
terminates the tables, which are lists here. -/
inductive PrefsType where
  | string
  | boolean
  | int32
deriving DecidableEq, Repr

structure PrefsDesc where
  name : CString
  type : PrefsType
  multiple : Bool
deriving DecidableEq

def item (name : String) (type : PrefsType) (multiple : Bool)
    (h : 0#8 ∉ ascii name := by decide) : PrefsDesc :=
  ⟨⟨ascii name, h⟩, type, multiple⟩

theorem disk_noNul : 0#8 ∉ ascii "disk" := by decide

theorem frameskip_noNul : 0#8 ∉ ascii "frameskip" := by decide

theorem nogui_noNul : 0#8 ∉ ascii "nogui" := by decide

def commonPrefsItems : List PrefsDesc :=
  [ item "disk" .string true,
    item "floppy" .string true,
    item "cdrom" .string true,
    item "extfs" .string false,
    item "scsi0" .string false,
    item "scsi1" .string false,
    item "scsi2" .string false,
    item "scsi3" .string false,
    item "scsi4" .string false,
    item "scsi5" .string false,
    item "scsi6" .string false,
    item "screen" .string false,
    item "windowmodes" .int32 false,
    item "screenmodes" .int32 false,
    item "seriala" .string false,
    item "serialb" .string false,
    item "rom" .string false,
    item "bootdrive" .int32 false,
    item "bootdriver" .int32 false,
    item "ramsize" .int32 false,
    item "frameskip" .int32 false,
    item "gfxaccel" .boolean false,
    item "nocdrom" .boolean false,
    item "nonet" .boolean false,
    item "nosound" .boolean false,
    item "nogui" .boolean false,
    item "noclipconversion" .boolean false,
    item "ignoresegv" .boolean false,
    item "ignoreillegal" .boolean false,
    item "jit" .boolean false,
    item "jit68k" .boolean false,
    item "keyboardtype" .int32 false ]

/-- The builds with a platform table; `skipSegv` is the configuration macro
`HAVE_SIGSEGV_SKIP_INSTRUCTION`. -/
inductive Platform where
  | unix (skipSegv : Bool)
  | windows (skipSegv : Bool)
  | haiku
deriving DecidableEq, Repr

def ignoresegvItem (skipSegv : Bool) : List PrefsDesc :=
  if skipSegv then [item "ignoresegv" .boolean false] else []

def platformPrefsItems : Platform → List PrefsDesc
  | .unix skipSegv =>
    [ item "ether" .string false,
      item "etherconfig" .string false,
      item "keycodes" .boolean false,
      item "keycodefile" .string false,
      item "mousewheelmode" .int32 false,
      item "mousewheellines" .int32 false,
      item "dsp" .string false,
      item "mixer" .string false ] ++
    ignoresegvItem skipSegv ++
    [ item "idlewait" .boolean false ]
  | .windows skipSegv =>
    [ item "ether" .string false,
      item "keycodes" .boolean false,
      item "keycodefile" .string false,
      item "mousewheelmode" .int32 false,
      item "mousewheellines" .int32 false ] ++
    ignoresegvItem skipSegv ++
    [ item "idlewait" .boolean false,
      item "keycodes" .boolean false,
      item "keycodefile" .string false,
      item "mousewheelmode" .int32 false,
      item "mousewheellines" .int32 false,
      item "enableextfs" .boolean false,
      item "debugextfs" .boolean false,
      item "extdrives" .string false,
      item "pollmedia" .boolean false,
      item "etherguid" .string false,
      item "etherpermanentaddress" .boolean false,
      item "ethermulticastmode" .int32 false,
      item "etherfakeaddress" .string false,
      item "routerenabled" .boolean false,
      item "ftp_port_list" .string false,
      item "tcp_port" .string false,
      item "portfile0" .string false,
      item "portfile1" .string false ]
  | .haiku =>
    [ item "bitbang" .boolean false,
      item "idlewait" .boolean false ]

/-- The two tables a build is made with. -/
structure Tables where
  common : List PrefsDesc
  platform : List PrefsDesc

def Platform.tables (p : Platform) : Tables := ⟨commonPrefsItems, platformPrefsItems p⟩

def Tables.all (t : Tables) : List PrefsDesc := t.common ++ t.platform

def findPrefsDescIn (name : CString) (list : List PrefsDesc) : Option PrefsDesc :=
  list.find? (·.name = name)

def findPrefsDesc (t : Tables) (name : CString) : Option PrefsDesc :=
  match findPrefsDescIn name t.common with
  | some d => some d
  | none => findPrefsDescIn name t.platform

-- ---------------------------------------------------------------------------
-- The list of nodes
-- ---------------------------------------------------------------------------

inductive PrefsData where
  | string (s : CString)
  | boolean (b : Bool)
  | int32 (v : Word)
deriving DecidableEq

def PrefsData.type : PrefsData → PrefsType
  | .string _ => .string
  | .boolean _ => .boolean
  | .int32 _ => .int32

structure PrefsNode where
  name : CString
  data : PrefsData
deriving DecidableEq

/-- The list `the_prefs`. -/
abbrev PrefsList := List PrefsNode

def PrefsNode.Matches (p : PrefsNode) (name : CString) (type : Option PrefsType) : Prop :=
  (type = none ∨ type = some p.data.type) ∧ p.name = name

instance : Decidable (PrefsNode.Matches p name type) :=
  inferInstanceAs (Decidable (_ ∧ _))

def addData (l : PrefsList) (name : CString) (data : PrefsData) : PrefsList := l ++ [⟨name, data⟩]

/-- The matching node with the given index, counted from the front. -/
def findNode (name : CString) (type : Option PrefsType) : PrefsList → Int → Option PrefsNode
  | [], _ => none
  | p :: l, index =>
    if p.Matches name type then
      if index = 0 then some p else findNode name type l (index - 1)
    else
      findNode name type l index

/-- The store through the node that `find_node` returned. -/
def setNode (name : CString) (data : PrefsData) : PrefsList → Int → PrefsList
  | [], _ => []
  | p :: l, index =>
    if p.Matches name (some data.type) then
      if index = 0 then ⟨p.name, data⟩ :: l else p :: setNode name data l (index - 1)
    else
      p :: setNode name data l index

/-- The common body of the replacing functions. -/
def replaceData (l : PrefsList) (name : CString) (data : PrefsData) (index : Int) : PrefsList :=
  if (findNode name (some data.type) l index).isSome then setNode name data l index
  else addData l name data

def prefsAddString (l : PrefsList) (name s : CString) : PrefsList := addData l name (.string s)

def prefsReplaceString (l : PrefsList) (name s : CString) (index : Int) : PrefsList :=
  replaceData l name (.string s) index

def prefsReplaceBool (l : PrefsList) (name : CString) (b : Bool) : PrefsList :=
  replaceData l name (.boolean b) 0

def prefsReplaceInt32 (l : PrefsList) (name : CString) (v : Word) : PrefsList :=
  replaceData l name (.int32 v) 0

def prefsFindString (l : PrefsList) (name : CString) (index : Int) : Option CString :=
  match findNode name (some .string) l index with
  | some ⟨_, .string s⟩ => some s
  | _ => none

def prefsFindBool (l : PrefsList) (name : CString) : Bool :=
  match findNode name (some .boolean) l 0 with
  | some ⟨_, .boolean b⟩ => b
  | _ => false

def prefsFindInt32 (l : PrefsList) (name : CString) : Word :=
  match findNode name (some .int32) l 0 with
  | some ⟨_, .int32 v⟩ => v
  | _ => 0

-- ---------------------------------------------------------------------------
-- Saving
-- ---------------------------------------------------------------------------

/-- One `fprintf` of `"%s %s\n"`. -/
def printLine (name : CString) (value : List Byte) : List Byte :=
  name.val ++ space :: value ++ [newline]

theorem findNode_index_lt (h : findNode name type l index = some p) : index < l.length := by
  induction l generalizing index with
  | nil => simp [findNode] at h
  | cons q l ih =>
    simp only [findNode] at h
    simp only [List.length_cons]
    split at h
    · split at h
      · omega
      · have := ih h
        omega
    · have := ih h
      omega

theorem prefsFindString_index_lt (h : prefsFindString l name index = some s) :
    index < l.length := by
  unfold prefsFindString at h
  split at h
  · next hf => exact findNode_index_lt hf
  · simp at h

/-- The `while` loop over the values of a string item. -/
def writeStrings (l : PrefsList) (name : CString) (index : Nat) : List Byte :=
  match _h : prefsFindString l name index with
  | none => []
  | some str => printLine name str.val ++ writeStrings l name (index + 1)
termination_by l.length - index
decreasing_by
  have := prefsFindString_index_lt _h
  omega

def writePrefsItem (l : PrefsList) (d : PrefsDesc) : List Byte :=
  match d.type with
  | .string => writeStrings l d.name 0
  | .boolean => printLine d.name (if prefsFindBool l d.name then ascii "true" else ascii "false")
  | .int32 => printLine d.name (printInt (prefsFindInt32 l d.name).toInt)

def writePrefs (l : PrefsList) (list : List PrefsDesc) : List Byte :=
  list.flatMap (writePrefsItem l)

def savePrefsToStream (t : Tables) (l : PrefsList) : List Byte :=
  writePrefs l t.common ++ writePrefs l t.platform

-- ---------------------------------------------------------------------------
-- Loading
-- ---------------------------------------------------------------------------

/-- The string at a position of a buffer, if it ends inside the buffer. -/
def stringAt (buffer : List Byte) (p : Nat) : Option CString :=
  if 0#8 ∈ buffer.drop p then some (CString.ofBuffer (buffer.drop p)) else none

/-- `fgets` into a buffer: the chunk, a terminator, and what was there before. -/
def storeLine (buffer chunk : List Byte) : List Byte :=
  chunk ++ 0#8 :: buffer.drop (chunk.length + 1)

/-- Add or replace the item of a line. Unknown keywords are reported only. -/
def loadItem (t : Tables) (l : PrefsList) (keyword value : CString) : PrefsList :=
  match findPrefsDesc t keyword with
  | none => l
  | some desc =>
    match desc.type with
    | .string =>
      if desc.multiple then prefsAddString l keyword value
      else prefsReplaceString l keyword value 0
    | .boolean => prefsReplaceBool l keyword (value.val = ascii "true")
    | .int32 => prefsReplaceInt32 l keyword (BitVec.ofInt 32 (atol value.val))

/-- One pass of the loop on the contents of `line[256]`; returns the buffer as
it is left. The scans do not stop at the terminator, so a line without white
space runs into what an earlier line left behind; `none` is a scan that leaves
the buffer. -/
def loadLine (t : Tables) (line : List Byte) (l : PrefsList) : Option (List Byte × PrefsList) := do
  let len := (line.takeWhile (· ≠ 0#8)).length
  if len = 0 then
    return (line, l)
  else
    let line := line.set (len - 1) 0#8
    if line.head? = some 0x23#8 ∨ line.head? = some 0x3b#8 then
      return (line, l)
    else
      let p := (line.takeWhile (!isspace ·)).length
      if p < line.length then
        let line := line.set p 0#8
        let p := p + 1 + ((line.drop (p + 1)).takeWhile isspace).length
        let keyword ← stringAt line 0
        let value ← stringAt line p
        return (line, loadItem t l keyword value)
      else
        none

/-- `line` starts with whatever the stack holds. -/
def loadPrefsFromStream (t : Tables) (line text : List Byte) (l : PrefsList) : Option PrefsList :=
  match text with
  | [] => some l
  | c :: text => do
    let (line, l) ← loadLine t (storeLine line (fgetsChunk 254 (c :: text)).1) l
    loadPrefsFromStream t line (fgetsChunk 254 (c :: text)).2 l
termination_by text.length
decreasing_by exact fgetsChunk_shorter 253 c text

end SheepShear.Prefs
