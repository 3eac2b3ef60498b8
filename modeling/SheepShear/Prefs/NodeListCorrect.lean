import SheepShear.Prefs.NodeList

/-!
# The preference nodes as a sequence

What the calls mean on a sequence of names and values: add at the end, set or
erase at the place of the item that is asked for. The list in memory follows the
sequence as long as no removal takes the first of several nodes; that one leaves
the list empty.
-/

namespace SheepShear.Prefs

open IntrusiveList

-- ---------------------------------------------------------------------------
-- Sequences
-- ---------------------------------------------------------------------------

/-- The place of an item, by its number among those with the name and the type. -/
def itemIdx (l : PrefsList) (name : CString) (type : Option PrefsType) (index : Int) : Option Nat :=
  nthIdx (fun p => decide (p.Matches name type)) l index

def seqReplace (l : PrefsList) (name : CString) (data : PrefsData) (index : Int) : PrefsList :=
  match itemIdx l name (some data.type) index with
  | some k => l.set k ⟨name, data⟩
  | none => l ++ [⟨name, data⟩]

def seqFind (l : PrefsList) (name : CString) (type : PrefsType) (index : Int) : Option PrefsData :=
  (itemIdx l name (some type) index).bind fun k => (l[k]?).map PrefsNode.data

def seqRemove (l : PrefsList) (name : CString) (index : Int) : PrefsList :=
  match itemIdx l name none index with
  | some k => l.eraseIdx k
  | none => l

def PrefsCall.onSeq (l : PrefsList) : PrefsCall → PrefsList × PrefsAnswer
  | .addString name s => (l ++ [⟨name, .string s⟩], .done)
  | .addBool name b => (l ++ [⟨name, .boolean b⟩], .done)
  | .addInt32 name val => (l ++ [⟨name, .int32 val⟩], .done)
  | .replaceString name s index => (seqReplace l name (.string s) index, .done)
  | .replaceBool name b => (seqReplace l name (.boolean b) 0, .done)
  | .replaceInt32 name val => (seqReplace l name (.int32 val) 0, .done)
  | .findString name index => (l, answerString (seqFind l name .string index))
  | .findBool name => (l, answerBool (seqFind l name .boolean 0))
  | .findInt32 name => (l, answerInt32 (seqFind l name .int32 0))
  | .removeItem name index => (seqRemove l name index, .done)

def runOnSeq : List PrefsCall → PrefsList → PrefsList × List PrefsAnswer
  | [], l => (l, [])
  | call :: calls, l =>
    let r := runOnSeq calls (call.onSeq l).1
    (r.1, (call.onSeq l).2 :: r.2)

-- ---------------------------------------------------------------------------
-- The list functions
-- ---------------------------------------------------------------------------

theorem itemIdx_cons (p : PrefsNode) (l : PrefsList) (name : CString) (type : Option PrefsType)
    (index : Int) : itemIdx (p :: l) name type index =
      if p.Matches name type then
        if index = 0 then some 0 else (itemIdx l name type (index - 1)).map (· + 1)
      else (itemIdx l name type index).map (· + 1) := by
  simp only [itemIdx, nthIdx_cons, decide_eq_true_eq]

/-- The loader's view of the list is this one. -/
theorem findNode_eq (l : PrefsList) (name : CString) (type : Option PrefsType) (index : Int) :
    findNode name type l index = (itemIdx l name type index).bind (l[·]?) := by
  induction l generalizing index with
  | nil => simp [findNode, itemIdx]
  | cons p l ih =>
    rw [findNode, itemIdx_cons, ih, ih]
    split_ifs <;> simp [Option.bind_map]

theorem setNode_eq (l : PrefsList) (name : CString) (data : PrefsData) (index : Int) :
    setNode name data l index =
      match itemIdx l name (some data.type) index with
      | some k => l.set k ⟨name, data⟩
      | none => l := by
  induction l generalizing index with
  | nil => simp [setNode, itemIdx]
  | cons p l ih =>
    rw [setNode, itemIdx_cons, ih, ih]
    split_ifs with hm h0
    · simp [hm.2]
    · cases itemIdx l name (some data.type) (index - 1) <;> rfl
    · cases itemIdx l name (some data.type) index <;> rfl

theorem replaceData_eq (l : PrefsList) (name : CString) (data : PrefsData) (index : Int) :
    replaceData l name data index = seqReplace l name data index := by
  rw [replaceData, findNode_eq, setNode_eq, seqReplace]
  cases h : itemIdx l name (some data.type) index with
  | none => rfl
  | some k =>
    obtain ⟨hlt, -⟩ := nthIdx_spec _ h
    simp [hlt]

-- ---------------------------------------------------------------------------
-- What the memory holds
-- ---------------------------------------------------------------------------

structure Represents (m : PrefsMem) (ptrs : List NodePtr) (l : PrefsList) : Prop where
  walk : Walk m.next m.thePrefs ptrs
  nodes : ptrs.map m.node = l
  live : ∀ p ∈ ptrs, p ∈ m.live

def Holds (m : PrefsMem) (l : PrefsList) : Prop := ∃ ptrs, Represents m ptrs l

theorem holds_empty (node : NodePtr → PrefsNode) : Holds (.empty node) [] :=
  ⟨[], .nil, rfl, nofun⟩

theorem Holds.unique {m : PrefsMem} {l l' : PrefsList} (h : Holds m l) (h' : Holds m l') : l = l' := by
  obtain ⟨ptrs, h⟩ := h
  obtain ⟨ptrs', h'⟩ := h'
  rw [← h.nodes, ← h'.nodes, h.walk.unique h'.walk]

variable {m : PrefsMem} {ptrs : List NodePtr} {l : PrefsList} {a : Allocator}

theorem Represents.fuel (h : Represents m ptrs l) : ptrs.length ≤ m.fuel := by
  rw [← List.toFinset_card_of_nodup h.walk.nodup]
  exact Finset.card_le_card fun p hp => h.live p (List.mem_toFinset.mp hp)

theorem Represents.length (h : Represents m ptrs l) : ptrs.length = l.length := by
  rw [← h.nodes, List.length_map]

-- ---------------------------------------------------------------------------
-- The loops
-- ---------------------------------------------------------------------------

theorem lastNode_eq {next : NodePtr → Option NodePtr} {as : List NodePtr} {p x : NodePtr}
    (h : Walk next (some p) (as ++ [x])) (fuel : Nat) (hfuel : as.length + 1 ≤ fuel) :
    PrefsMem.lastNode next fuel p = some x := by
  induction as generalizing p fuel with
  | nil =>
    obtain ⟨fuel, rfl⟩ := Nat.exists_eq_add_of_le' hfuel
    obtain rfl : p = x := Option.some.inj h.head_eq
    have hnext : next p = none := h.tail.head_eq
    simp [PrefsMem.lastNode, hnext]
  | cons b as ih =>
    obtain ⟨fuel, rfl⟩ := Nat.exists_eq_add_of_le' (Nat.le_trans (Nat.le_add_left 1 _) hfuel)
    obtain rfl : p = b := Option.some.inj h.head_eq
    have htail : Walk next (next p) (as ++ [x]) := h.tail
    obtain ⟨q, hq⟩ : ∃ q, next p = some q := by
      rw [htail.head_eq]
      cases as <;> exact ⟨_, rfl⟩
    rw [hq] at htail
    rw [PrefsMem.lastNode, hq]
    exact ih htail fuel (by simpa using hfuel)

theorem findNodeFrom_eq {p : Option NodePtr} (name : CString) (type : Option PrefsType) (index : Int)
    (h : Walk m.next p ptrs) (fuel : Nat) (hfuel : ptrs.length ≤ fuel) (i : Int) :
    m.findNodeFrom name type index fuel p i =
      some ((itemIdx (ptrs.map m.node) name type (index - i)).bind (ptrs[·]?)) := by
  induction h generalizing fuel i with
  | nil => cases fuel <;> simp [PrefsMem.findNodeFrom, itemIdx]
  | @cons x xs h ih =>
    obtain ⟨fuel, rfl⟩ := Nat.exists_eq_add_of_le' (Nat.le_trans (Nat.le_add_left 1 _) hfuel)
    have hlength : xs.length ≤ fuel := by simpa using hfuel
    have hsub : index - (i + 1) = index - i - 1 := by omega
    have hzero : index - i = 0 ↔ i = index := by omega
    rw [PrefsMem.findNodeFrom, List.map_cons, itemIdx_cons, ih fuel hlength, ih fuel hlength, hsub]
    simp only [hzero]
    split_ifs <;> simp [Option.bind_map]

theorem nodeBefore_eq {next : NodePtr → Option NodePtr} {as bs : List NodePtr} {q : Option NodePtr}
    {x y : NodePtr} (h : Walk next q (as ++ x :: y :: bs)) (fuel : Nat) (hfuel : as.length < fuel) :
    PrefsMem.nodeBefore next y fuel q = some (some x) := by
  induction as generalizing q fuel with
  | nil =>
    obtain ⟨fuel, rfl⟩ := Nat.exists_eq_add_of_le' (Nat.succ_le_of_lt hfuel)
    have hnext : next x = some y := h.tail.head_eq
    rw [h.head_eq]
    simp [PrefsMem.nodeBefore, hnext]
  | cons b as ih =>
    obtain ⟨fuel, rfl⟩ := Nat.exists_eq_add_of_le' (Nat.succ_le_of_lt (Nat.zero_lt_of_lt hfuel))
    have htail : Walk next (next b) (as ++ x :: y :: bs) := h.tail
    have hne : next b ≠ some y := by
      -- `y` comes after `x`, so nothing in front of `x` leads to it
      intro hb
      rw [hb] at htail
      have hhead := htail.head_eq
      cases as with
      | nil =>
        obtain rfl : y = x := Option.some.inj hhead
        exact (List.nodup_cons.mp htail.nodup).1 (List.mem_cons_self ..)
      | cons c as =>
        obtain rfl : y = c := Option.some.inj hhead
        exact (List.nodup_cons.mp htail.nodup).1 (by simp)
    rw [h.head_eq, List.cons_append, List.head?_cons, PrefsMem.nodeBefore, if_neg hne]
    exact ih htail fuel (by simpa using hfuel)

-- ---------------------------------------------------------------------------
-- The functions
-- ---------------------------------------------------------------------------

theorem Represents.findNode_eq (h : Represents m ptrs l) (name : CString) (type : Option PrefsType)
    (index : Int) :
    m.findNode name type index = some ((itemIdx l name type index).bind (ptrs[·]?)) := by
  have hfind := findNodeFrom_eq name type index h.walk m.fuel h.fuel 0
  rwa [h.nodes, Int.sub_zero] at hfind

theorem Represents.addData (h : Represents m ptrs l) (name : CString) (data : PrefsData) :
    ∃ m', m.addData a name data = some m' ∧ Holds m' (l ++ [⟨name, data⟩]) := by
  have hfresh : a.fresh m.live ∉ ptrs := fun hp => a.fresh_not_mem m.live (h.live _ hp)
  have hnodes : (ptrs ++ [a.fresh m.live]).map
      (Function.update m.node (a.fresh m.live) ⟨name, data⟩) = l ++ [⟨name, data⟩] := by
    rw [List.map_append, ← h.nodes, List.map_singleton, Function.update_self]
    congr 1
    exact List.map_congr_left fun p hp => Function.update_of_ne (ne_of_mem_of_not_mem hp hfresh) ..
  have hlive : ∀ p ∈ ptrs ++ [a.fresh m.live], p ∈ insert (a.fresh m.live) m.live := by
    intro p hp
    rcases List.mem_append.mp hp with hp | hp
    · exact Finset.mem_insert_of_mem (h.live p hp)
    · exact Finset.mem_insert.mpr (.inl (List.mem_singleton.mp hp))
  have hhead := h.walk.head_eq
  rcases List.eq_nil_or_concat' ptrs with rfl | ⟨as, x, rfl⟩
  · have hwalk : Walk (Function.update m.next (a.fresh m.live) none) (some (a.fresh m.live))
        [a.fresh m.live] := by
      refine .cons ?_
      rw [Function.update_self]
      exact .nil
    exact ⟨_, by rw [PrefsMem.addData, hhead]; rfl, _, hwalk, hnodes, hlive⟩
  · obtain ⟨prefs, hprefs⟩ : ∃ prefs, m.thePrefs = some prefs := by
      rw [hhead]
      cases as <;> exact ⟨_, rfl⟩
    have hfuel : as.length + 1 ≤ (insert (a.fresh m.live) m.live).card := by
      have hle := h.fuel
      rw [List.length_append, List.length_singleton] at hle
      exact hle.trans (Finset.card_le_card (Finset.subset_insert ..))
    -- the new node is not in the list, so the loop runs over the old one
    have hwalk : Walk (Function.update m.next (a.fresh m.live) none) (some prefs) (as ++ [x]) := by
      rw [← hprefs]
      exact h.walk.congr fun p hp => Function.update_of_ne (ne_of_mem_of_not_mem hp hfresh) ..
    have hlast := lastNode_eq hwalk _ hfuel
    have happend := h.walk.append hfresh
    rw [hprefs] at happend
    refine ⟨⟨some prefs, Function.update (Function.update m.next (a.fresh m.live) none) x
      (some (a.fresh m.live)), _, insert (a.fresh m.live) m.live⟩, ?_, as ++ [x] ++ [a.fresh m.live],
      ?_, hnodes, hlive⟩
    · rw [PrefsMem.addData, hprefs]
      simp only [PrefsMem.fuel, hlast]
      rfl
    · rwa [List.append_assoc]

theorem Represents.replaceData (h : Represents m ptrs l) (name : CString) (data : PrefsData)
    (index : Int) :
    ∃ m', m.replaceData a name data index = some m' ∧ Holds m' (seqReplace l name data index) := by
  rw [PrefsMem.replaceData, h.findNode_eq, seqReplace]
  cases hk : itemIdx l name (some data.type) index with
  | none => exact h.addData name data
  | some k =>
    obtain ⟨hlt, hmatch⟩ := nthIdx_spec _ hk
    have hlt' : k < ptrs.length := h.length ▸ hlt
    have hget : ptrs[k]? = some ptrs[k] := List.getElem?_eq_getElem hlt'
    have hnode : m.node ptrs[k] = l[k] := by
      simp only [← h.nodes, List.getElem_map]
    have hname : l[k].name = name := (of_decide_eq_true hmatch).2
    refine ⟨{ m with node := Function.update m.node ptrs[k] ⟨name, data⟩ }, ?_, ptrs, h.walk, ?_,
      h.live⟩
    · simp [hget, hnode, hname]
    · rw [h.walk.nodup.map_update, if_pos (List.getElem_mem hlt'), h.walk.nodup.idxOf_getElem, h.nodes]

theorem Represents.findData (h : Represents m ptrs l) (name : CString) (type : PrefsType)
    (index : Int) : m.findData name type index = some (seqFind l name type index) := by
  rw [PrefsMem.findData, h.findNode_eq, seqFind, ← h.nodes]
  cases itemIdx (ptrs.map m.node) name (some type) index with
  | none => rfl
  | some k => simp [Function.comp_def]

/-- The removal of a node that another one leads to. -/
theorem Represents.removeItem_after (h : Represents m ptrs l) {name : CString} {index : Int} {k : Nat}
    (hk : itemIdx l name none index = some (k + 1)) :
    ∃ m', m.prefsRemoveItem name index = some m' ∧ Holds m' (l.eraseIdx (k + 1)) := by
  obtain ⟨hlt, -⟩ := nthIdx_spec _ hk
  obtain ⟨as, x, y, bs, rfl, rfl⟩ := List.split_pair (h.length ▸ hlt)
  have hget : (as ++ x :: y :: bs)[as.length + 1]? = some y := by simp
  have hhead : m.thePrefs ≠ some y := by
    intro hy
    have hnodup := h.walk.nodup
    have hfirst := hy.symm.trans h.walk.head_eq
    cases as with
    | nil =>
      obtain rfl : y = x := Option.some.inj hfirst
      exact (List.nodup_cons.mp hnodup).1 (List.mem_cons_self ..)
    | cons b as =>
      obtain rfl : y = b := Option.some.inj hfirst
      exact (List.nodup_cons.mp hnodup).1 (by simp)
  have hfuel : as.length < m.fuel := by
    have hle := h.fuel
    simp only [List.length_append, List.length_cons] at hle
    omega
  have hbefore := nodeBefore_eq h.walk m.fuel hfuel
  have herase : (as ++ x :: y :: bs).eraseIdx (as.length + 1) = as ++ x :: bs := by
    rw [List.eraseIdx_append_of_length_le (by omega), Nat.add_sub_cancel_left]
    rfl
  have hout : y ∉ as ++ x :: bs := by
    have hnodup : (as ++ [x] ++ y :: bs).Nodup := by simpa using h.walk.nodup
    have hy := (List.nodup_middle.mp hnodup)
    simpa using (List.nodup_cons.mp hy).1
  refine ⟨{ m with next := Function.update m.next x (m.next y), live := m.live.erase y }, ?_,
    as ++ x :: bs, h.walk.cut, ?_, fun p hp => Finset.mem_erase.mpr ⟨?_, h.live p ?_⟩⟩
  · rw [PrefsMem.prefsRemoveItem, h.findNode_eq, hk]
    simp [hhead, hbefore]
  · rw [← h.nodes, ← herase, List.eraseIdx_map]
  · exact ne_of_mem_of_not_mem hp hout
  · rw [← herase] at hp
    exact List.mem_of_mem_eraseIdx hp

/-- The removal of the first node forgets the whole list. -/
theorem Represents.removeItem_first (h : Represents m ptrs l) {name : CString} {index : Int}
    (hk : itemIdx l name none index = some 0) :
    ∃ m', m.prefsRemoveItem name index = some m' ∧ Holds m' [] := by
  have hlt : 0 < ptrs.length := h.length ▸ (nthIdx_spec _ hk).1
  have hget : ptrs[0]? = some ptrs[0] := List.getElem?_eq_getElem hlt
  have hhead : m.thePrefs = some ptrs[0] := by
    rw [h.walk.head_eq, List.head?_eq_getElem?, hget]
  rw [PrefsMem.prefsRemoveItem, h.findNode_eq, hk]
  refine ⟨{ m with thePrefs := none, live := m.live.erase ptrs[0] }, ?_, [], .nil, rfl, nofun⟩
  simp [hget, hhead]

-- ---------------------------------------------------------------------------
-- Calls
-- ---------------------------------------------------------------------------

/-- A removal does not take the first of several nodes. -/
def PrefsCall.Ok (l : PrefsList) : PrefsCall → Prop
  | .removeItem name index => itemIdx l name none index = some 0 → l.length = 1
  | _ => True

instance (l : PrefsList) (call : PrefsCall) : Decidable (call.Ok l) := by
  cases call <;> unfold PrefsCall.Ok <;> infer_instance

/-- The call has the answer, and leaves in memory the sequence, that it should. -/
def PrefsCall.Agrees (a : Allocator) (m : PrefsMem) (l : PrefsList) (call : PrefsCall) : Prop :=
  ∃ m', call.exec a m = some (m', (call.onSeq l).2) ∧ Holds m' (call.onSeq l).1

theorem Holds.exec_add (h : Holds m l) (name : CString) (data : PrefsData) :
    ∃ m', (m.addData a name data).map (·, PrefsAnswer.done) = some (m', .done) ∧
      Holds m' (l ++ [⟨name, data⟩]) := by
  obtain ⟨ptrs, h⟩ := h
  obtain ⟨m', hadd, hm'⟩ := h.addData name data (a := a)
  exact ⟨m', by rw [hadd]; rfl, hm'⟩

theorem Holds.exec_replace (h : Holds m l) (name : CString) (data : PrefsData) (index : Int) :
    ∃ m', (m.replaceData a name data index).map (·, PrefsAnswer.done) = some (m', .done) ∧
      Holds m' (seqReplace l name data index) := by
  obtain ⟨ptrs, h⟩ := h
  obtain ⟨m', hreplace, hm'⟩ := h.replaceData name data index (a := a)
  exact ⟨m', by rw [hreplace]; rfl, hm'⟩

theorem Holds.exec_find (h : Holds m l) (name : CString) (type : PrefsType) (index : Int)
    (answer : Option PrefsData → PrefsAnswer) :
    ∃ m', ((m.findData name type index).map fun d => (m, answer d)) =
      some (m', answer (seqFind l name type index)) ∧ Holds m' l := by
  have hm := h
  obtain ⟨ptrs, h⟩ := h
  exact ⟨m, by rw [h.findData]; rfl, hm⟩

theorem Holds.exec_remove (h : Holds m l) (name : CString) (index : Int)
    (hok : itemIdx l name none index = some 0 → l.length = 1) :
    ∃ m', (m.prefsRemoveItem name index).map (·, PrefsAnswer.done) = some (m', .done) ∧
      Holds m' (seqRemove l name index) := by
  have hm := h
  obtain ⟨ptrs, h⟩ := h
  unfold seqRemove
  match hk : itemIdx l name none index with
  | none =>
    refine ⟨m, ?_, hm⟩
    rw [PrefsMem.prefsRemoveItem, h.findNode_eq, hk]
    rfl
  | some 0 =>
    obtain ⟨m', hremove, hm'⟩ := h.removeItem_first hk
    obtain ⟨p, rfl⟩ := List.length_eq_one_iff.mp (hok hk)
    exact ⟨m', by rw [hremove]; rfl, hm'⟩
  | some (k + 1) =>
    obtain ⟨m', hremove, hm'⟩ := h.removeItem_after hk
    exact ⟨m', by rw [hremove]; rfl, hm'⟩

theorem Holds.agrees_of_ok (h : Holds m l) (call : PrefsCall) (hok : call.Ok l) :
    call.Agrees a m l := by
  cases call with
  | addString name s => exact h.exec_add name _
  | addBool name b => exact h.exec_add name _
  | addInt32 name val => exact h.exec_add name _
  | replaceString name s index => exact h.exec_replace name _ index
  | replaceBool name b => exact h.exec_replace name _ 0
  | replaceInt32 name val => exact h.exec_replace name _ 0
  | findString name index => exact h.exec_find name .string index answerString
  | findBool name => exact h.exec_find name .boolean 0 answerBool
  | findInt32 name => exact h.exec_find name .int32 0 answerInt32
  | removeItem name index => exact h.exec_remove name index hok

theorem Holds.ok_of_agrees (h : Holds m l) (call : PrefsCall) (hagrees : call.Agrees a m l) :
    call.Ok l := by
  cases call with
  | removeItem name index =>
    intro hk
    obtain ⟨ptrs, h⟩ := h
    obtain ⟨m', hexec, hm'⟩ := hagrees
    obtain ⟨m'', hremove, hm''⟩ := h.removeItem_first hk
    -- the memory holds nothing, so nothing may be left
    obtain rfl : m'' = m' := by
      simp only [PrefsCall.exec, hremove, Option.map_some, Option.some.injEq, Prod.mk.injEq] at hexec
      exact hexec.1
    have hnil : l.eraseIdx 0 = [] := by
      have hseq := hm'.unique hm''
      simpa only [PrefsCall.onSeq, seqRemove, hk] using hseq
    obtain ⟨hlt, -⟩ := nthIdx_spec _ hk
    have hlength := List.length_eraseIdx_of_lt hlt
    rw [hnil, List.length_nil] at hlength
    omega
  | _ => trivial

-- ---------------------------------------------------------------------------
-- Runs
-- ---------------------------------------------------------------------------

def CallsOk : List PrefsCall → PrefsList → Prop
  | [], _ => True
  | call :: calls, l => call.Ok l ∧ CallsOk calls (call.onSeq l).1

instance : (calls : List PrefsCall) → (l : PrefsList) → Decidable (CallsOk calls l)
  | [], _ => inferInstanceAs (Decidable True)
  | call :: calls, l =>
    have := instDecidableCallsOk calls (call.onSeq l).1
    inferInstanceAs (Decidable (call.Ok l ∧ CallsOk calls (call.onSeq l).1))

/-- After a run the memory holds the sequence that the same calls make, and they have had the same
answers. -/
def RunAgrees (a : Allocator) (m : PrefsMem) (l : PrefsList) (calls : List PrefsCall) : Prop :=
  ∃ m', runCalls a calls m = some (m', (runOnSeq calls l).2) ∧ Holds m' (runOnSeq calls l).1

theorem CallsOk.take {calls : List PrefsCall} (h : CallsOk calls l) (n : Nat) :
    CallsOk (calls.take n) l := by
  induction calls generalizing l n with
  | nil => simpa using h
  | cons call calls ih =>
    cases n with
    | zero => trivial
    | succ n => exact ⟨h.1, ih h.2 n⟩

theorem Holds.runAgrees_of_ok {calls : List PrefsCall} (h : Holds m l) (hok : CallsOk calls l) :
    RunAgrees a m l calls := by
  induction calls generalizing m l with
  | nil => exact ⟨m, rfl, h⟩
  | cons call calls ih =>
    obtain ⟨m₁, hexec, hm₁⟩ := h.agrees_of_ok call hok.1 (a := a)
    obtain ⟨m₂, hrun, hm₂⟩ := ih hm₁ hok.2
    refine ⟨m₂, ?_, hm₂⟩
    simp only [runCalls, hexec, Option.bind_eq_bind, Option.bind_some, hrun]
    rfl

theorem Holds.ok_of_runAgrees {calls : List PrefsCall} (h : Holds m l)
    (hagrees : ∀ n, RunAgrees a m l (calls.take n)) : CallsOk calls l := by
  induction calls generalizing m l with
  | nil => trivial
  | cons call calls ih =>
    have hfirst : call.Agrees a m l := by
      obtain ⟨m', hrun, hm'⟩ := hagrees 1
      cases hexec : call.exec a m with
      | none => simp [runCalls, hexec] at hrun
      | some r =>
        obtain ⟨m₁, answer⟩ := r
        simp only [List.take_succ_cons, List.take_zero, runCalls, hexec, runOnSeq, Option.bind_eq_bind,
          Option.bind_some, Option.pure_def, Option.some.injEq, Prod.mk.injEq, List.cons.injEq,
          and_true] at hrun
        obtain ⟨rfl, rfl⟩ := hrun
        exact ⟨m₁, hexec, hm'⟩
    refine ⟨h.ok_of_agrees call hfirst, ?_⟩
    obtain ⟨m₁, hexec, hm₁⟩ := hfirst
    refine ih hm₁ fun n => ?_
    obtain ⟨m', hrun, hm'⟩ := hagrees (n + 1)
    refine ⟨m', ?_, hm'⟩
    cases hrest : runCalls a (calls.take n) m₁ with
    | none => simp [runCalls, hexec, hrest] at hrun
    | some r =>
      simp only [List.take_succ_cons, runCalls, hexec, hrest, runOnSeq, Option.bind_eq_bind,
        Option.bind_some, Option.pure_def, Option.some.injEq, Prod.mk.injEq, List.cons.injEq,
        true_and] at hrun
      rw [← hrun.1, ← hrun.2]

/-- From any list of nodes, a run agrees with the sequence after every call if and only if none of
its removals takes the first of several nodes. -/
theorem prefs_agree_iff (a : Allocator) (m : PrefsMem) (l : PrefsList) (h : Holds m l)
    (calls : List PrefsCall) : (∀ n, RunAgrees a m l (calls.take n)) ↔ CallsOk calls l :=
  ⟨h.ok_of_runAgrees, fun hok n => h.runAgrees_of_ok (hok.take n)⟩

/-- The address after all others. -/
def Allocator.bump : Allocator where
  fresh live := live.sup id + 1
  fresh_not_mem live h := by
    have hle : id (live.sup id + 1) ≤ live.sup id := Finset.le_sup h
    exact Nat.not_succ_le_self _ hle

def diskName : CString := ⟨ascii "disk", disk_noNul⟩

/-- Two disks are added, one is removed, and the first one is asked for. -/
def removeDisk (index : Int) : List PrefsCall :=
  [.addString diskName ⟨ascii "a", by decide⟩, .addString diskName ⟨ascii "b", by decide⟩,
    .removeItem diskName index, .findString diskName 0]

theorem prefs_agree_second_disk : CallsOk (removeDisk 1) [] ∧
    ∀ n, RunAgrees .bump (.empty fun _ => ⟨diskName, .boolean false⟩) [] ((removeDisk 1).take n) := by
  have hok : CallsOk (removeDisk 1) [] := by decide +kernel
  exact ⟨hok, (prefs_agree_iff .bump _ [] (holds_empty _) (removeDisk 1)).mpr hok⟩

/-- Without the first disk the second one is gone too. -/
theorem remove_first_disk_differs :
    ¬ RunAgrees .bump (.empty fun _ => ⟨diskName, .boolean false⟩) [] (removeDisk 0) := by
  rintro ⟨m', hrun, -⟩
  have hanswers : (runCalls .bump (removeDisk 0) (.empty fun _ => ⟨diskName, .boolean false⟩)).map
      Prod.snd ≠ some (runOnSeq (removeDisk 0) []).2 := by
    decide +kernel
  exact hanswers (by rw [hrun]; rfl)

end SheepShear.Prefs
