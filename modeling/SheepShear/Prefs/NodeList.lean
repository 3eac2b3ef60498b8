import SheepShear.Lib.SinglyLinked
import SheepShear.Prefs.Items

/-!
# The list of preference nodes in memory

`the_prefs` and the nodes it leads to, as the functions of `prefs.cpp` follow and
change their links. A pointer is a number, and the null pointer is `none`. Loops
take fuel, as many steps as there are nodes, and give no result without it.
-/

namespace SheepShear.Prefs

open IntrusiveList

abbrev NodePtr := Nat

/-- `new`: an address that no live node has. Memory is not exhausted. -/
structure Allocator where
  fresh : Finset NodePtr → NodePtr
  fresh_not_mem : ∀ live, fresh live ∉ live

structure PrefsMem where
  thePrefs : Option NodePtr
  next : NodePtr → Option NodePtr
  node : NodePtr → PrefsNode
  live : Finset NodePtr

namespace PrefsMem

/-- Before the first item; the contents of the nodes are arbitrary. -/
def empty (node : NodePtr → PrefsNode) : PrefsMem := ⟨none, fun _ => none, node, ∅⟩

def fuel (m : PrefsMem) : Nat := m.live.card

-- ---------------------------------------------------------------------------
-- The loops
-- ---------------------------------------------------------------------------

/-- `while (prev->next) prev = prev->next`. -/
def lastNode (next : NodePtr → Option NodePtr) : Nat → NodePtr → Option NodePtr
  | 0, _ => none
  | fuel + 1, prev =>
    match next prev with
    | none => some prev
    | some p => lastNode next fuel p

/-- The loop of `find_node`; the null pointer is a result. -/
def findNodeFrom (m : PrefsMem) (name : CString) (type : Option PrefsType) (index : Int) :
    Nat → Option NodePtr → Int → Option (Option NodePtr)
  | _, none, _ => some none
  | 0, some _, _ => none
  | fuel + 1, some p, i =>
    if (m.node p).Matches name type then
      if i = index then some (some p) else findNodeFrom m name type index fuel (m.next p) (i + 1)
    else
      findNodeFrom m name type index fuel (m.next p) i

/-- The loop of `PrefsRemoveItem`: the node in front of `p`. -/
def nodeBefore (next : NodePtr → Option NodePtr) (p : NodePtr) :
    Nat → Option NodePtr → Option (Option NodePtr)
  | _, none => some none
  | 0, some _ => none
  | fuel + 1, some q =>
    if next q = some p then some (some q) else nodeBefore next p fuel (next q)

-- ---------------------------------------------------------------------------
-- The functions
-- ---------------------------------------------------------------------------

def addData (a : Allocator) (m : PrefsMem) (name : CString) (data : PrefsData) : Option PrefsMem :=
  let p := a.fresh m.live
  let m : PrefsMem :=
    { m with
      next := Function.update m.next p none
      node := Function.update m.node p ⟨name, data⟩
      live := insert p m.live }
  match m.thePrefs with
  | some prefs => do
    let prev ← lastNode m.next m.fuel prefs
    return { m with next := Function.update m.next prev (some p) }
  | none => some { m with thePrefs := some p }

def findNode (m : PrefsMem) (name : CString) (type : Option PrefsType) (index : Int) :
    Option (Option NodePtr) := m.findNodeFrom name type index m.fuel m.thePrefs 0

/-- The common body of the replacing functions. -/
def replaceData (a : Allocator) (m : PrefsMem) (name : CString) (data : PrefsData) (index : Int) :
    Option PrefsMem := do
  match ← m.findNode name (some data.type) index with
  | some p => return { m with node := Function.update m.node p { m.node p with data := data } }
  | none => addData a m name data

/-- The common body of the functions that find a value. -/
def findData (m : PrefsMem) (name : CString) (type : PrefsType) (index : Int) :
    Option (Option PrefsData) := do
  return (← m.findNode name (some type) index).map fun p => (m.node p).data

def prefsRemoveItem (m : PrefsMem) (name : CString) (index : Int) : Option PrefsMem := do
  match ← m.findNode name none index with
  | none => return m
  | some p =>
    if m.thePrefs = some p then
      return { m with thePrefs := none, live := m.live.erase p }
    else
      match ← nodeBefore m.next p m.fuel m.thePrefs with
      | some q =>
        return { m with next := Function.update m.next q (m.next p), live := m.live.erase p }
      | none => return m

end PrefsMem

-- ---------------------------------------------------------------------------
-- Calls
-- ---------------------------------------------------------------------------

inductive PrefsCall where
  | addString (name s : CString)
  | addBool (name : CString) (b : Bool)
  | addInt32 (name : CString) (val : Word)
  | replaceString (name s : CString) (index : Int)
  | replaceBool (name : CString) (b : Bool)
  | replaceInt32 (name : CString) (val : Word)
  | findString (name : CString) (index : Int)
  | findBool (name : CString)
  | findInt32 (name : CString)
  | removeItem (name : CString) (index : Int)
deriving DecidableEq

inductive PrefsAnswer where
  | done
  | string (s : Option CString)
  | bool (b : Bool)
  | int32 (val : Word)
deriving DecidableEq

/-- What the finding functions make of a value, or of none. -/
def answerString : Option PrefsData → PrefsAnswer
  | some (.string s) => .string (some s)
  | _ => .string none

def answerBool : Option PrefsData → PrefsAnswer
  | some (.boolean b) => .bool b
  | _ => .bool false

def answerInt32 : Option PrefsData → PrefsAnswer
  | some (.int32 val) => .int32 val
  | _ => .int32 0

def PrefsCall.exec (a : Allocator) (m : PrefsMem) : PrefsCall → Option (PrefsMem × PrefsAnswer)
  | .addString name s => (m.addData a name (.string s)).map (·, .done)
  | .addBool name b => (m.addData a name (.boolean b)).map (·, .done)
  | .addInt32 name val => (m.addData a name (.int32 val)).map (·, .done)
  | .replaceString name s index => (m.replaceData a name (.string s) index).map (·, .done)
  | .replaceBool name b => (m.replaceData a name (.boolean b) 0).map (·, .done)
  | .replaceInt32 name val => (m.replaceData a name (.int32 val) 0).map (·, .done)
  | .findString name index => (m.findData name .string index).map fun d => (m, answerString d)
  | .findBool name => (m.findData name .boolean 0).map fun d => (m, answerBool d)
  | .findInt32 name => (m.findData name .int32 0).map fun d => (m, answerInt32 d)
  | .removeItem name index => (m.prefsRemoveItem name index).map (·, .done)

def runCalls (a : Allocator) : List PrefsCall → PrefsMem → Option (PrefsMem × List PrefsAnswer)
  | [], m => some (m, [])
  | call :: calls, m => do
    let (m, answer) ← call.exec a m
    let (m, answers) ← runCalls a calls m
    return (m, answer :: answers)

end SheepShear.Prefs
