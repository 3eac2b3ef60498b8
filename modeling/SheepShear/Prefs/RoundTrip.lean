import SheepShear.Prefs.Items

/-!
# The preferences file round trip

A saved file is a sequence of lines `keyword value`; each is read back as one
line, and the loader's adding and replacing rebuild, for every described
keyword, the values the accessors had seen.
-/

namespace SheepShear.Prefs

def PrefsData.asString : PrefsData → Option CString
  | .string s => some s
  | _ => none

def PrefsData.asBool : PrefsData → Option Bool
  | .boolean b => some b
  | _ => none

def PrefsData.asInt32 : PrefsData → Option Word
  | .int32 v => some v
  | _ => none

-- ---------------------------------------------------------------------------
-- Tables and lists that survive
-- ---------------------------------------------------------------------------

/-- What the round trip needs of the descriptor tables. Repeated keywords are
harmless as long as their entries agree and only replace. -/
structure TableOk (table : List PrefsDesc) : Prop where
  nonempty : ∀ d ∈ table, d.name.val ≠ []
  noComment : ∀ d ∈ table, d.name.val.head? ≠ some 0x23#8 ∧ d.name.val.head? ≠ some 0x3b#8
  noSpace : ∀ d ∈ table, d.name.val.all (!isspace ·) = true
  short : ∀ d ∈ table, d.name.val.length ≤ 240
  agree : ∀ d ∈ table, ∀ e ∈ table, d.name = e.name → d.type = e.type ∧ d.multiple = e.multiple
  multipleOnce : ∀ d ∈ table, d.multiple = true →
    d.type = .string ∧ table.countP (·.name = d.name) = 1

theorem TableOk.sublist (h : TableOk table) (hs : table'.Sublist table) : TableOk table' where
  nonempty d hd := h.nonempty d (hs.subset hd)
  noComment d hd := h.noComment d (hs.subset hd)
  noSpace d hd := h.noSpace d (hs.subset hd)
  short d hd := h.short d (hs.subset hd)
  agree d hd e he := h.agree d (hs.subset hd) e (hs.subset he)
  multipleOnce d hd hm := by
    obtain ⟨htype, hcount⟩ := h.multipleOnce d (hs.subset hd) hm
    have hle : table'.countP (·.name = d.name) ≤ 1 := hcount ▸ hs.countP_le
    have hpos : 0 < table'.countP (·.name = d.name) := List.countP_pos_iff.mpr ⟨d, hd, by simp⟩
    exact ⟨htype, by omega⟩

/-- The items of all platforms; every build's tables are a part of it. -/
def everyItem : List PrefsDesc :=
  commonPrefsItems ++ (platformPrefsItems (.unix true) ++
    (platformPrefsItems (.windows true) ++ platformPrefsItems .haiku))

theorem everyItem_ok : TableOk everyItem := by
  constructor <;> decide +kernel

theorem ignoresegvItem_sublist (b : Bool) : (ignoresegvItem b).Sublist (ignoresegvItem true) := by
  cases b
  · exact List.nil_sublist _
  · exact List.Sublist.refl _

theorem Platform.sublist (p : Platform) : p.tables.all.Sublist everyItem := by
  refine (List.Sublist.refl _).append ?_
  cases p with
  | unix b =>
    have h : (platformPrefsItems (.unix b)).Sublist (platformPrefsItems (.unix true)) :=
      ((List.Sublist.refl _).append (ignoresegvItem_sublist b)).append (List.Sublist.refl _)
    exact h.trans (List.sublist_append_left _ _)
  | windows b =>
    have h : (platformPrefsItems (.windows b)).Sublist (platformPrefsItems (.windows true)) :=
      ((List.Sublist.refl _).append (ignoresegvItem_sublist b)).append (List.Sublist.refl _)
    exact (h.trans (List.sublist_append_left _ _)).trans (List.sublist_append_right _ _)
  | haiku =>
    exact (List.sublist_append_right _ _).trans (List.sublist_append_right _ _)

theorem Platform.tableOk (p : Platform) : TableOk p.tables.all := everyItem_ok.sublist p.sublist

/-- Every non-multiple keyword occurs at most once, with its declared type, and
the strings of described keywords survive as lines of at most 253 characters. -/
structure Saveable (table : List PrefsDesc) (l : PrefsList) : Prop where
  once : ∀ d ∈ table, d.multiple = false → l.countP (·.name = d.name) ≤ 1
  typed : ∀ d ∈ table, d.multiple = false → ∀ p ∈ l, p.name = d.name → p.data.type = d.type
  line : ∀ d ∈ table, ∀ p ∈ l, p.name = d.name → ∀ s ∈ p.data.asString,
    newline ∉ s.val ∧ (∀ c ∈ s.val.head?, isspace c = false) ∧
      d.name.val.length + 1 + s.val.length ≤ 253

-- ---------------------------------------------------------------------------
-- One line
-- ---------------------------------------------------------------------------

/-- A keyword and a value that are told apart again when their line is read. -/
structure Readable (name value : CString) : Prop where
  nonempty : name.val ≠ []
  noComment : name.val.head? ≠ some 0x23#8 ∧ name.val.head? ≠ some 0x3b#8
  noSpace : name.val.all (!isspace ·) = true
  noNewline : newline ∉ value.val
  noLeading : ∀ c ∈ value.val.head?, isspace c = false
  fits : name.val.length + 1 + value.val.length ≤ 253

theorem storeLine_length (hb : buffer.length = 256) (hc : chunk.length ≤ 254) :
    (storeLine buffer chunk).length = 256 := by
  simp only [storeLine, List.length_append, List.length_cons, List.length_drop]
  omega

theorem takeWhile_terminated {bs : List Byte} (h : 0#8 ∉ bs) (rest : List Byte) :
    (bs ++ 0#8 :: rest).takeWhile (· ≠ 0#8) = bs := by
  have := congrArg CString.val (CString.ofBuffer_terminated ⟨bs, h⟩ rest)
  simpa [CString.ofBuffer] using this

theorem set_append_length (xs : List Byte) (x y : Byte) (ys : List Byte) :
    (xs ++ x :: ys).set xs.length y = xs ++ y :: ys := by
  rw [List.set_append_right _ _ (Nat.le_refl _)]
  simp

theorem stringAt_terminated (xs : List Byte) (s : CString) (rest : List Byte) :
    stringAt (xs ++ (s.val ++ 0#8 :: rest)) xs.length = some s := by
  simp only [stringAt, List.drop_left']
  rw [if_pos (by simp)]
  exact congrArg some (s.ofBuffer_terminated rest)

/-- The buffer after a saved line was read into it and cut. -/
theorem storeLine_cut (name value : CString) (buffer : List Byte) :
    ∃ tail, let line := storeLine buffer (printLine name value.val)
      (line.takeWhile (· ≠ 0#8)).length = name.val.length + value.val.length + 2 ∧
      line.set (name.val.length + value.val.length + 1) 0#8 =
        name.val ++ space :: (value.val ++ 0#8 :: tail) := by
  refine ⟨0#8 :: buffer.drop ((printLine name value.val).length + 1), ?_⟩
  have hline : storeLine buffer (printLine name value.val) =
      printLine name value.val ++ 0#8 :: buffer.drop ((printLine name value.val).length + 1) := rfl
  have hz : 0#8 ∉ printLine name value.val := by
    have := name.noNul
    have := value.noNul
    simp_all [printLine, space, newline]
  refine ⟨?_, ?_⟩
  · simp only [hline, takeWhile_terminated hz]
    simp only [printLine, List.length_append, List.length_cons, List.length_nil]
    omega
  · have hset := set_append_length (name.val ++ space :: value.val) newline 0#8
      (0#8 :: buffer.drop ((printLine name value.val).length + 1))
    simp only [List.length_append, List.length_cons, ← Nat.add_assoc] at hset
    simp only [hline]
    simpa [printLine] using hset

/-- A saved line is read as the item it was written for, whatever the buffer
held before. -/
theorem loadLine_printLine {name value : CString} (hr : Readable name value)
    (hb : buffer.length = 256) :
    ∃ buffer', buffer'.length = 256 ∧
      loadLine t (storeLine buffer (printLine name value.val)) l =
        some (buffer', loadItem t l name value) := by
  have hlen : (printLine name value.val).length ≤ 254 := by
    have := hr.fits
    simp only [printLine, List.length_append, List.length_cons, List.length_nil]
    omega
  have hsize := storeLine_length hb hlen
  obtain ⟨tail, hstrlen, hcut⟩ := storeLine_cut name value buffer
  -- the keyword ends at the separator, and no white space follows it
  have hkey : ((name.val ++ space :: (value.val ++ 0#8 :: tail)).takeWhile (!isspace ·)) =
      name.val := by
    rw [List.takeWhile_append_of_pos (List.all_eq_true.mp hr.noSpace)]
    simp [isspace, space]
  have hvalue : (value.val ++ 0#8 :: tail).takeWhile isspace = [] := by
    cases hv : value.val with
    | nil => rfl
    | cons c cs =>
      have := hr.noLeading c (by simp [hv])
      simp [this]
  have hhead : (name.val ++ space :: (value.val ++ 0#8 :: tail)).head? = name.val.head? := by
    obtain ⟨c, cs, hcs⟩ := List.exists_cons_of_ne_nil hr.nonempty
    simp [hcs]
  refine ⟨name.val ++ 0#8 :: (value.val ++ 0#8 :: tail), ?_, ?_⟩
  · have := congrArg List.length hcut
    rw [List.length_set, hsize] at this
    simpa using this.symm
  · unfold loadLine
    have hsep : (name.val ++ space :: (value.val ++ 0#8 :: tail)).set name.val.length 0#8 =
        name.val ++ 0#8 :: (value.val ++ 0#8 :: tail) := set_append_length _ _ _ _
    have hkeyword : stringAt (name.val ++ 0#8 :: (value.val ++ 0#8 :: tail)) 0 = some name :=
      stringAt_terminated [] name _
    have hval : stringAt (name.val ++ 0#8 :: (value.val ++ 0#8 :: tail)) (name.val.length + 1) =
        some value := by
      have := stringAt_terminated (name.val ++ [0#8]) value tail
      simpa using this
    have hdrop : (name.val ++ 0#8 :: (value.val ++ 0#8 :: tail)).drop (name.val.length + 1) =
        value.val ++ 0#8 :: tail := by
      simp [← List.drop_drop]
    simp only [hstrlen, Nat.add_eq_zero_iff, OfNat.ofNat_ne_zero, and_false, if_false,
      Nat.add_one_sub_one, hcut, hhead, hr.noComment, or_self, hkey, hsep, hdrop, hvalue,
      List.length_nil, Nat.add_zero, hkeyword, hval]
    rw [if_pos (by simp)]
    rfl

-- ---------------------------------------------------------------------------
-- The whole file
-- ---------------------------------------------------------------------------

theorem loadPrefsFromStream_cons (t : Tables) (buffer : List Byte) (c : Byte) (text : List Byte)
    (l : PrefsList) :
    loadPrefsFromStream t buffer (c :: text) l =
      (loadLine t (storeLine buffer (fgetsChunk 254 (c :: text)).1) l).bind fun s =>
        loadPrefsFromStream t s.1 (fgetsChunk 254 (c :: text)).2 s.2 := by
  rw [loadPrefsFromStream]
  rfl

theorem loadPrefsFromStream_printLine {name value : CString} (hr : Readable name value)
    (hb : buffer.length = 256) (rest : List Byte) (l : PrefsList) :
    ∃ buffer', buffer'.length = 256 ∧
      loadPrefsFromStream t buffer (printLine name value.val ++ rest) l =
        loadPrefsFromStream t buffer' rest (loadItem t l name value) := by
  have hnl : newline ∉ name.val ++ space :: value.val := by
    have hname : newline ∉ name.val := fun h => by
      simpa [isspace, newline] using List.all_eq_true.mp hr.noSpace _ h
    simpa [space, newline] using ⟨hname, hr.noNewline⟩
  have hlt : (name.val ++ space :: value.val).length < 254 := by
    have := hr.fits
    simp only [List.length_append, List.length_cons]
    omega
  have hchunk : fgetsChunk 254 (printLine name value.val ++ rest) =
      (printLine name value.val, rest) := by
    simpa [printLine] using fgetsChunk_line _ rest hnl hlt
  obtain ⟨c, text, hcs⟩ : ∃ c text, printLine name value.val ++ rest = c :: text :=
    List.exists_cons_of_ne_nil (by simp [printLine])
  obtain ⟨buffer', hb', hline⟩ := loadLine_printLine hr hb
  refine ⟨buffer', hb', ?_⟩
  rw [hcs, loadPrefsFromStream_cons, ← hcs, hchunk, hline]
  rfl

/-- Loading saved lines runs their items in order. -/
theorem loadPrefsFromStream_lines {lines : List (CString × CString)}
    (hr : ∀ kv ∈ lines, Readable kv.1 kv.2) (hb : buffer.length = 256) (l : PrefsList) :
    loadPrefsFromStream t buffer (lines.flatMap fun kv => printLine kv.1 kv.2.val) l =
      some (lines.foldl (fun l kv => loadItem t l kv.1 kv.2) l) := by
  induction lines generalizing buffer l with
  | nil => simp [loadPrefsFromStream]
  | cons kv lines ih =>
    obtain ⟨buffer', hb', hload⟩ := loadPrefsFromStream_printLine (hr kv (List.mem_cons_self ..)) hb
      (lines.flatMap fun kv => printLine kv.1 kv.2.val) l
    rw [List.flatMap_cons, hload, ih (fun kv h => hr kv (List.mem_cons_of_mem _ h)) hb']
    rfl

-- ---------------------------------------------------------------------------
-- The values of a key
-- ---------------------------------------------------------------------------

/-- The data of the nodes with a keyword and type, in order: what the accessors
can see. -/
def valuesOf (l : PrefsList) (name : CString) (type : PrefsType) : List PrefsData :=
  (l.filter fun p => p.Matches name (some type)).map PrefsNode.data

theorem valuesOf_type (h : x ∈ valuesOf l name type) : x.type = type := by
  obtain ⟨p, hp, rfl⟩ := List.mem_map.mp h
  have := (List.mem_filter.mp hp).2
  simp_all [PrefsNode.Matches]

theorem findNode_data (l : PrefsList) (index : Int) :
    (findNode name (some type) l index).map PrefsNode.data =
      if 0 ≤ index then (valuesOf l name type)[index.toNat]? else none := by
  induction l generalizing index with
  | nil => simp [findNode, valuesOf]
  | cons p l ih =>
    by_cases hp : p.Matches name (some type)
    · by_cases h0 : index = 0
      · simp [findNode, valuesOf, hp, h0]
      · by_cases hneg : 0 ≤ index
        · obtain ⟨n, hn⟩ : ∃ n : Nat, index = n + 1 := ⟨index.toNat - 1, by omega⟩
          have := ih (n : Int)
          simp_all [findNode, valuesOf]
        · have := ih (index - 1)
          rw [if_neg (by omega)] at this
          simp [findNode, hp, h0, hneg, this]
    · have := ih index
      simp_all [findNode, valuesOf]

theorem prefsFindString_eq (l : PrefsList) (name : CString) (index : Int) :
    prefsFindString l name index =
      if 0 ≤ index then (valuesOf l name .string)[index.toNat]?.bind PrefsData.asString else none := by
  have h : prefsFindString l name index =
      ((findNode name (some .string) l index).map PrefsNode.data).bind PrefsData.asString := by
    unfold prefsFindString
    rcases findNode name (some .string) l index with _ | ⟨_, _ | _ | _⟩ <;> rfl
  rw [h, findNode_data]
  split <;> rfl

theorem prefsFindBool_eq (l : PrefsList) (name : CString) :
    prefsFindBool l name = ((valuesOf l name .boolean).head?.bind PrefsData.asBool).getD false := by
  have h : prefsFindBool l name =
      (((findNode name (some .boolean) l 0).map PrefsNode.data).bind PrefsData.asBool).getD false := by
    unfold prefsFindBool
    rcases findNode name (some .boolean) l 0 with _ | ⟨_, _ | _ | _⟩ <;> rfl
  rw [h, findNode_data]
  simp [List.head?_eq_getElem?]

theorem prefsFindInt32_eq (l : PrefsList) (name : CString) :
    prefsFindInt32 l name = ((valuesOf l name .int32).head?.bind PrefsData.asInt32).getD 0 := by
  have h : prefsFindInt32 l name =
      (((findNode name (some .int32) l 0).map PrefsNode.data).bind PrefsData.asInt32).getD 0 := by
    unfold prefsFindInt32
    rcases findNode name (some .int32) l 0 with _ | ⟨_, _ | _ | _⟩ <;> rfl
  rw [h, findNode_data]
  simp [List.head?_eq_getElem?]

theorem matches_iff : PrefsNode.Matches ⟨name, x⟩ key (some type) ↔ name = key ∧ x.type = type := by
  simp only [PrefsNode.Matches, Option.some.injEq, reduceCtorEq, false_or]
  exact ⟨fun h => ⟨h.2, h.1.symm⟩, fun h => ⟨h.2.symm, h.1⟩⟩

theorem valuesOf_cons (p : PrefsNode) (l : PrefsList) :
    valuesOf (p :: l) key type =
      (if p.name = key ∧ p.data.type = type then [p.data] else []) ++ valuesOf l key type := by
  unfold valuesOf
  by_cases h : p.name = key ∧ p.data.type = type
  · rw [List.filter_cons_of_pos (by simpa using matches_iff.mpr h), if_pos h]
    rfl
  · rw [List.filter_cons_of_neg (by simpa using fun hm => h (matches_iff.mp hm)), if_neg h]
    rfl

theorem valuesOf_addData (l : PrefsList) (name : CString) (x : PrefsData) :
    valuesOf (addData l name x) key type =
      valuesOf l key type ++ if name = key ∧ x.type = type then [x] else [] := by
  have happend : valuesOf (addData l name x) key type =
      valuesOf l key type ++ valuesOf [⟨name, x⟩] key type := by
    simp [valuesOf, addData]
  rw [happend, valuesOf_cons]
  simp [valuesOf]

/-- Storing through the first matching node changes the first value of its key. -/
theorem valuesOf_setNode (l : PrefsList) (name : CString) (x : PrefsData)
    (h : valuesOf l name x.type ≠ []) :
    valuesOf (setNode name x l 0) key type =
      if name = key ∧ x.type = type then x :: (valuesOf l key type).tail
      else valuesOf l key type := by
  induction l with
  | nil => exact absurd rfl h
  | cons p l ih =>
    obtain ⟨pname, pdata⟩ := p
    simp only [setNode, matches_iff]
    by_cases hp : pname = name ∧ pdata.type = x.type
    · obtain ⟨rfl, hx⟩ := hp
      by_cases hk : pname = key ∧ x.type = type <;> simp [valuesOf_cons, hx, hk]
    · rw [valuesOf_cons, if_neg hp, List.nil_append] at h
      rw [if_neg hp, valuesOf_cons, valuesOf_cons, ih h]
      by_cases hk : name = key ∧ x.type = type
      · obtain ⟨rfl, rfl⟩ := hk
        simp [hp]
      · simp [hk]

theorem findNode_isSome (l : PrefsList) :
    (findNode name (some type) l 0).isSome ↔ valuesOf l name type ≠ [] := by
  have h := congrArg Option.isSome (@findNode_data name type l 0)
  simp only [Option.isSome_map, Int.le_refl, if_true, Int.toNat_zero] at h
  rw [h]
  simp [List.length_pos_iff]

theorem valuesOf_replaceData (l : PrefsList) (name : CString) (x : PrefsData) :
    valuesOf (replaceData l name x 0) key type =
      if name = key ∧ x.type = type then x :: (valuesOf l key type).tail
      else valuesOf l key type := by
  unfold replaceData
  by_cases h : valuesOf l name x.type = []
  · rw [if_neg (by rw [findNode_isSome]; simpa using h), valuesOf_addData]
    by_cases hk : name = key ∧ x.type = type
    · obtain ⟨rfl, rfl⟩ := hk
      simp [h]
    · simp [hk]
  · rw [if_pos (findNode_isSome l |>.mpr h), valuesOf_setNode _ _ _ h]

-- ---------------------------------------------------------------------------
-- What is written
-- ---------------------------------------------------------------------------

def stringsOf (l : PrefsList) (name : CString) : List CString :=
  (valuesOf l name .string).filterMap PrefsData.asString

theorem valuesOf_string (l : PrefsList) (name : CString) :
    valuesOf l name .string = (stringsOf l name).map PrefsData.string := by
  have h : ∀ xs : List PrefsData, (∀ x ∈ xs, x.type = .string) →
      xs = (xs.filterMap PrefsData.asString).map PrefsData.string := by
    intro xs hxs
    induction xs with
    | nil => rfl
    | cons x xs ih =>
      have hx := hxs x (List.mem_cons_self ..)
      cases x with
      | string s =>
        simpa [PrefsData.asString] using ih fun y hy => hxs y (List.mem_cons_of_mem _ hy)
      | boolean b => simp [PrefsData.type] at hx
      | int32 v => simp [PrefsData.type] at hx
  exact h _ fun x hx => valuesOf_type hx

theorem prefsFindString_stringsOf (l : PrefsList) (name : CString) (index : Nat) :
    prefsFindString l name index = (stringsOf l name)[index]? := by
  rw [prefsFindString_eq, if_pos (by omega), valuesOf_string]
  simp only [Int.toNat_natCast, List.getElem?_map]
  cases (stringsOf l name)[index]? <;> rfl

theorem writeStrings_eq (l : PrefsList) (name : CString) (index : Nat) :
    writeStrings l name index =
      ((stringsOf l name).drop index).flatMap fun s => printLine name s.val := by
  fun_induction writeStrings l name index with
  | case1 index h =>
    rw [prefsFindString_stringsOf, List.getElem?_eq_none_iff] at h
    rw [List.drop_of_length_le h]
    rfl
  | case2 index str h ih =>
    rw [prefsFindString_stringsOf] at h
    obtain ⟨hlt, hget⟩ := List.getElem?_eq_some_iff.mp h
    rw [ih, List.drop_eq_getElem_cons hlt, hget, List.flatMap_cons]

/-- Every character of a printed number is a digit or the sign. -/
theorem printInt_noNul (v : Int) : 0#8 ∉ printInt v := by
  have hnat : 0#8 ∉ printNat v.natAbs := fun h => (isdigit_not_special (printNat_digit h)).2.2.2.1 rfl
  unfold printInt
  split <;> simp [hnat]

/-- The values written for an item, as the loader will read them. -/
def writtenValues (l : PrefsList) (d : PrefsDesc) : List CString :=
  match d.type with
  | .string => stringsOf l d.name
  | .boolean => [if prefsFindBool l d.name then ⟨ascii "true", by decide⟩ else ⟨ascii "false", by decide⟩]
  | .int32 => [⟨printInt (prefsFindInt32 l d.name).toInt, printInt_noNul _⟩]

theorem writePrefsItem_eq (l : PrefsList) (d : PrefsDesc) :
    writePrefsItem l d = (writtenValues l d).flatMap fun s => printLine d.name s.val := by
  unfold writePrefsItem writtenValues
  cases d.type with
  | string => exact writeStrings_eq l d.name 0
  | boolean => cases prefsFindBool l d.name <;> simp
  | int32 => simp

def writtenLines (table : List PrefsDesc) (l : PrefsList) : List (CString × CString) :=
  table.flatMap fun d => (writtenValues l d).map (d.name, ·)

theorem savePrefsToStream_eq (t : Tables) (l : PrefsList) :
    savePrefsToStream t l = (writtenLines t.all l).flatMap fun kv => printLine kv.1 kv.2.val := by
  have hitem : writePrefsItem l =
      fun d => (writtenValues l d).flatMap fun s => printLine d.name s.val :=
    funext (writePrefsItem_eq l)
  simp only [savePrefsToStream, writePrefs, ← List.flatMap_append, writtenLines, List.flatMap_assoc,
    List.flatMap_map, hitem, Tables.all]

theorem length_printNat_le (h : n < 10 ^ 10) : (printNat n).length ≤ 10 := by
  unfold printNat
  split
  · simp
  · simpa using (Nat.digits_length_le_iff (by norm_num) n).mpr h

theorem printInt_readable {name : CString} (v : Word) (hn : name.val.length ≤ 240) :
    newline ∉ printInt v.toInt ∧ (∀ c ∈ (printInt v.toInt).head?, isspace c = false) ∧
      name.val.length + 1 + (printInt v.toInt).length ≤ 253 := by
  have hnl : newline ∉ printNat v.toInt.natAbs :=
    fun h => (isdigit_not_special (printNat_digit h)).2.2.2.2 rfl
  have hlen : (printNat v.toInt.natAbs).length ≤ 10 := by
    have hlo := BitVec.le_toInt v
    have hhi := BitVec.toInt_lt (x := v)
    exact length_printNat_le (by omega)
  obtain ⟨c, cs, hcs, hc⟩ := printNat_cons v.toInt.natAbs
  have hspace := (isdigit_not_special hc).1
  rw [hcs] at hnl hlen
  unfold printInt
  split
  · refine ⟨?_, ?_, ?_⟩
    · rw [hcs]
      simpa [newline] using hnl
    · simp [isspace]
    · simp only [List.length_cons, hcs] at hlen ⊢
      omega
  · refine ⟨by rwa [hcs], by simp [hcs, hspace], ?_⟩
    rw [hcs]
    omega

theorem mem_of_mem_stringsOf (h : s ∈ stringsOf l name) : ⟨name, .string s⟩ ∈ l := by
  obtain ⟨x, hx, hs⟩ := List.mem_filterMap.mp h
  obtain ⟨p, hp, rfl⟩ := List.mem_map.mp hx
  obtain ⟨hmem, hmatch⟩ := List.mem_filter.mp hp
  obtain ⟨pname, pdata⟩ := p
  have hname : pname = name := (matches_iff.mp (by simpa using hmatch)).1
  cases pdata with
  | string s' =>
    cases hs
    rwa [← hname]
  | boolean b => cases hs
  | int32 v => cases hs

theorem writtenLines_readable (ht : TableOk table) (hl : Saveable table l) :
    ∀ kv ∈ writtenLines table l, Readable kv.1 kv.2 := by
  intro kv hkv
  obtain ⟨d, hd, hkv⟩ := List.mem_flatMap.mp hkv
  obtain ⟨value, hvalue, rfl⟩ := List.mem_map.mp hkv
  have hshort := ht.short d hd
  have hline : newline ∉ value.val ∧ (∀ c ∈ value.val.head?, isspace c = false) ∧
      d.name.val.length + 1 + value.val.length ≤ 253 := by
    unfold writtenValues at hvalue
    split at hvalue
    · exact hl.line d hd _ (mem_of_mem_stringsOf hvalue) rfl value rfl
    · split at hvalue <;> rw [List.mem_singleton] at hvalue <;> subst hvalue
      · refine ⟨by decide, by decide, ?_⟩
        have : (ascii "true").length = 4 := by decide
        simp only
        omega
      · refine ⟨by decide, by decide, ?_⟩
        have : (ascii "false").length = 5 := by decide
        simp only
        omega
    · rw [List.mem_singleton] at hvalue
      subst hvalue
      exact printInt_readable _ hshort
  exact ⟨ht.nonempty d hd, ht.noComment d hd, ht.noSpace d hd, hline.1, hline.2.1, hline.2.2⟩

-- ---------------------------------------------------------------------------
-- What is rebuilt
-- ---------------------------------------------------------------------------

/-- The data the loader makes of a value. -/
def PrefsDesc.decode (d : PrefsDesc) (value : CString) : PrefsData :=
  match d.type with
  | .string => .string value
  | .boolean => .boolean (value.val = ascii "true")
  | .int32 => .int32 (BitVec.ofInt 32 (atol value.val))

theorem decode_type (d : PrefsDesc) (value : CString) : (d.decode value).type = d.type := by
  unfold PrefsDesc.decode
  cases d.type <;> rfl

theorem findPrefsDesc_spec {t : Tables} (hd : d ∈ t.all) :
    ∃ e ∈ t.all, findPrefsDesc t d.name = some e ∧ e.name = d.name := by
  have hfind : findPrefsDesc t d.name = t.all.find? (·.name = d.name) := by
    simp only [findPrefsDesc, findPrefsDescIn, Tables.all, List.find?_append]
    cases t.common.find? _ <;> rfl
  have hsome : (t.all.find? (·.name = d.name)).isSome := by
    simpa using ⟨d, hd, rfl⟩
  obtain ⟨e, he⟩ := Option.isSome_iff_exists.mp hsome
  exact ⟨e, List.mem_of_find?_eq_some he, hfind.trans he, by simpa using List.find?_some he⟩

theorem loadItem_eq (ht : TableOk t.all) (hd : d ∈ t.all) (l : PrefsList) (value : CString) :
    loadItem t l d.name value =
      if d.multiple then addData l d.name (d.decode value)
      else replaceData l d.name (d.decode value) 0 := by
  obtain ⟨e, he, hfind, hname⟩ := findPrefsDesc_spec hd
  obtain ⟨htype, hmult⟩ := ht.agree e he d hd hname
  simp only [loadItem, hfind, htype, hmult, PrefsDesc.decode]
  cases hm : d.multiple with
  | true => simp [(ht.multipleOnce d hd hm).1, prefsAddString]
  | false => cases d.type <;> rfl

/-- The values of a key after loading lines, from the lines of its keyword. -/
theorem valuesOf_foldl_loadItem (ht : TableOk t.all) (hd : d ∈ t.all)
    {lines : List (CString × CString)} (hl : ∀ kv ∈ lines, ∃ e ∈ t.all, kv.1 = e.name)
    (l : PrefsList) :
    valuesOf (lines.foldl (fun l kv => loadItem t l kv.1 kv.2) l) d.name type =
      ((lines.filter (·.1 = d.name)).map (d.decode ·.2)).foldl (fun xs x =>
        if x.type = type then (if d.multiple then xs ++ [x] else x :: xs.tail) else xs)
        (valuesOf l d.name type) := by
  induction lines generalizing l with
  | nil => rfl
  | cons kv lines ih =>
    obtain ⟨e, he, hkv⟩ := hl kv (List.mem_cons_self ..)
    obtain ⟨key, value⟩ := kv
    simp only at hkv
    subst hkv
    rw [List.foldl_cons, ih (fun kv h => hl kv (List.mem_cons_of_mem _ h)), loadItem_eq ht he]
    by_cases hname : e.name = d.name
    · obtain ⟨htype, hmult⟩ := ht.agree e he d hd hname
      have hdecode : e.decode value = d.decode value := by simp [PrefsDesc.decode, htype]
      rw [List.filter_cons_of_pos (by simpa using hname), List.map_cons, List.foldl_cons, hmult,
        hdecode, hname]
      congr 1
      cases d.multiple with
      | true => by_cases hx : (d.decode value).type = type <;> simp [valuesOf_addData, hx]
      | false => simp [valuesOf_replaceData]
    · rw [List.filter_cons_of_neg (by simpa using hname)]
      congr 1
      cases e.multiple <;> simp [valuesOf_addData, valuesOf_replaceData, hname]

theorem writtenLines_of_name (ht : TableOk table) (hd : d ∈ table) (l : PrefsList) :
    ((writtenLines table l).filter (·.1 = d.name)).map (d.decode ·.2) =
      (table.filter (·.name = d.name)).flatMap fun _ => (writtenValues l d).map d.decode := by
  have h : ∀ es : List PrefsDesc, (∀ e ∈ es, e ∈ table) →
      ((writtenLines es l).filter (·.1 = d.name)).map (d.decode ·.2) =
        (es.filter (·.name = d.name)).flatMap fun _ => (writtenValues l d).map d.decode := by
    intro es hes
    induction es with
    | nil => rfl
    | cons e es ih =>
      have ih' := ih fun e he => hes e (List.mem_cons_of_mem _ he)
      have hcons : writtenLines (e :: es) l =
          (writtenValues l e).map (e.name, ·) ++ writtenLines es l := rfl
      rw [hcons, List.filter_append, List.map_append, ih']
      by_cases hname : e.name = d.name
      · have htype := (ht.agree e (hes e (List.mem_cons_self ..)) d hd hname).1
        have hvalues : writtenValues l e = writtenValues l d := by
          simp only [writtenValues, htype, hname]
        rw [List.filter_cons_of_pos (by simpa using hname), List.flatMap_cons, hvalues]
        congr 1
        simp [List.filter_map, hname, Function.comp_def]
      · rw [List.filter_cons_of_neg (by simpa using hname)]
        simp [List.filter_map, hname, Function.comp_def]
  exact h table fun _ h => h

theorem decode_writtenValues (l : PrefsList) (d : PrefsDesc) :
    (writtenValues l d).map d.decode =
      match d.type with
      | .string => valuesOf l d.name .string
      | .boolean => [.boolean (prefsFindBool l d.name)]
      | .int32 => [.int32 (prefsFindInt32 l d.name)] := by
  unfold writtenValues PrefsDesc.decode
  cases d.type with
  | string => exact (valuesOf_string l d.name).symm
  | boolean =>
    cases prefsFindBool l d.name with
    | true => rfl
    | false => simp only [List.map_cons, List.map_nil]; decide
  | int32 =>
    have hlo := BitVec.le_toInt (prefsFindInt32 l d.name)
    have hhi := BitVec.toInt_lt (x := prefsFindInt32 l d.name)
    simp only [List.map_cons, List.map_nil]
    rw [atol_printInt (by omega) (by omega), BitVec.ofInt_toInt]

theorem length_writtenValues_le (hl : Saveable table l) (hd : d ∈ table)
    (hm : d.multiple = false) : (writtenValues l d).length ≤ 1 := by
  have hstrings : (stringsOf l d.name).length ≤ 1 := by
    have hlen := congrArg List.length (valuesOf_string l d.name)
    rw [List.length_map, valuesOf, List.length_map, ← List.countP_eq_length_filter] at hlen
    rw [← hlen]
    refine (List.countP_mono_left fun p _ h => ?_).trans (hl.once d hd hm)
    simpa using (matches_iff.mp (by simpa using h)).1
  unfold writtenValues
  cases d.type with
  | string => exact hstrings
  | boolean => simp
  | int32 => simp

/-- Replacing the only value of a key by itself, once or more often. -/
theorem foldl_replace_same (xs : List PrefsData) (h : xs.length ≤ 1) (es : List α) (hes : es ≠ []) :
    (es.flatMap fun _ => xs).foldl (fun ys y => y :: ys.tail) [] = xs := by
  rcases xs with _ | ⟨x, _ | ⟨y, xs⟩⟩
  · rw [List.flatMap_eq_nil_iff.mpr fun _ _ => rfl]
    rfl
  · have hrun : ∀ (es : List α) (ys : List PrefsData), ys.tail = [] → es ≠ [] →
        (es.flatMap fun _ => [x]).foldl (fun ys y => y :: ys.tail) ys = [x] := by
      intro es
      induction es with
      | nil => exact fun _ _ h => absurd rfl h
      | cons e es ih =>
        intro ys hys _
        cases es with
        | nil => simp [hys]
        | cons e' es =>
          simp only [List.flatMap_cons, List.foldl_append, List.foldl_cons, List.foldl_nil, hys]
          exact ih [x] rfl (by simp)
    exact hrun es [] rfl hes
  · simp at h

/-- The list a saved file is loaded to. -/
def reloaded (t : Tables) (l : PrefsList) : PrefsList :=
  (writtenLines t.all l).foldl (fun l kv => loadItem t l kv.1 kv.2) []

theorem valuesOf_reloaded {t : Tables} (ht : TableOk t.all) (hl : Saveable t.all l)
    (hd : d ∈ t.all) :
    valuesOf (reloaded t l) d.name type =
      if type = d.type then (writtenValues l d).map d.decode else [] := by
  have hnames : ∀ kv ∈ writtenLines t.all l, ∃ e ∈ t.all, kv.1 = e.name := by
    intro kv hkv
    obtain ⟨e, he, hkv⟩ := List.mem_flatMap.mp hkv
    obtain ⟨value, -, rfl⟩ := List.mem_map.mp hkv
    exact ⟨e, he, rfl⟩
  rw [reloaded, valuesOf_foldl_loadItem ht hd hnames, writtenLines_of_name ht hd]
  have hne : t.all.filter (·.name = d.name) ≠ [] :=
    List.ne_nil_of_mem (List.mem_filter.mpr ⟨hd, by simp⟩)
  have htype : ∀ x ∈ (t.all.filter (·.name = d.name)).flatMap
      (fun _ => (writtenValues l d).map d.decode), x.type = d.type := by
    intro x hx
    obtain ⟨_, -, hx⟩ := List.mem_flatMap.mp hx
    obtain ⟨value, -, rfl⟩ := List.mem_map.mp hx
    exact decode_type d value
  by_cases h : type = d.type
  · subst h
    rw [if_pos rfl]
    cases hm : d.multiple with
    | true =>
      -- one entry of the table, and every value is appended
      have hone : (t.all.filter (·.name = d.name)).length = 1 := by
        rw [← List.countP_eq_length_filter]
        exact (ht.multipleOnce d hd hm).2
      obtain ⟨e, he⟩ := List.length_eq_one_iff.mp hone
      rw [List.foldl_ext _ (fun xs x => xs ++ [x]) _ fun xs x hx => by simp [htype x hx], he]
      have happend : ∀ ys xs : List PrefsData, ys.foldl (fun xs x => xs ++ [x]) xs = xs ++ ys := by
        intro ys
        induction ys with
        | nil => simp
        | cons y ys ih => simp [ih]
      simp [valuesOf, happend]
    | false =>
      rw [List.foldl_ext _ (fun xs x => x :: xs.tail) _ fun xs x hx => by simp [htype x hx]]
      exact foldl_replace_same _ (by simpa using length_writtenValues_le hl hd hm) _ hne
  · rw [if_neg h, List.foldl_ext _ (fun xs _ => xs) _ fun xs x hx => by
      simp [htype x hx, Ne.symm h]]
    simp [valuesOf]

-- ---------------------------------------------------------------------------
-- The round trip
-- ---------------------------------------------------------------------------

theorem valuesOf_eq_nil (h : ∀ p ∈ l, p.name = name → p.data.type = type') (hne : type ≠ type') :
    valuesOf l name type = [] := by
  unfold valuesOf
  rw [List.filter_eq_nil_iff.mpr, List.map_nil]
  intro p hp hmatch
  have hm := matches_iff.mp (by simpa using hmatch)
  exact hne (hm.2.symm.trans (h p hp hm.1))

section
variable {t : Tables} {l : PrefsList} {d : PrefsDesc} (ht : TableOk t.all) (hl : Saveable t.all l)
  (hd : d ∈ t.all)
include ht hl hd

theorem prefsFindString_reloaded (index : Int) :
    prefsFindString (reloaded t l) d.name index = prefsFindString l d.name index := by
  rw [prefsFindString_eq, prefsFindString_eq, valuesOf_reloaded ht hl hd, decode_writtenValues]
  by_cases hs : d.type = .string
  · simp [hs]
  · have hm : d.multiple = false := by
      by_contra hm
      exact hs (ht.multipleOnce d hd (by simpa using hm)).1
    rw [if_neg (Ne.symm hs), valuesOf_eq_nil (hl.typed d hd hm) (Ne.symm hs)]

theorem prefsFindBool_reloaded (htyped : ∀ p ∈ l, p.name = d.name → p.data.type = d.type) :
    prefsFindBool (reloaded t l) d.name = prefsFindBool l d.name := by
  rw [prefsFindBool_eq, valuesOf_reloaded ht hl hd, decode_writtenValues]
  by_cases hs : d.type = .boolean
  · simp [hs, PrefsData.asBool]
  · rw [if_neg (Ne.symm hs), prefsFindBool_eq, valuesOf_eq_nil htyped (Ne.symm hs)]

theorem prefsFindInt32_reloaded (htyped : ∀ p ∈ l, p.name = d.name → p.data.type = d.type) :
    prefsFindInt32 (reloaded t l) d.name = prefsFindInt32 l d.name := by
  rw [prefsFindInt32_eq, valuesOf_reloaded ht hl hd, decode_writtenValues]
  by_cases hs : d.type = .int32
  · simp [hs, PrefsData.asInt32]
  · rw [if_neg (Ne.symm hs), prefsFindInt32_eq, valuesOf_eq_nil htyped (Ne.symm hs)]

end

/-- Loading a saved file into an empty list gives every described keyword the
values it had. A keyword that may occur several times is a string item; only
its strings are saved, so the other accessors agree where it has nothing else. -/
theorem loadPrefs_savePrefs (platform : Platform) (l : PrefsList) (line : List Byte)
    (hline : line.length = 256) (hl : Saveable platform.tables.all l) :
    ∃ l', loadPrefsFromStream platform.tables line (savePrefsToStream platform.tables l) [] =
        some l' ∧
      ∀ d ∈ platform.tables.all,
        (∀ index, prefsFindString l' d.name index = prefsFindString l d.name index) ∧
        ((d.multiple = true → ∀ p ∈ l, p.name = d.name → p.data.type = d.type) →
          prefsFindBool l' d.name = prefsFindBool l d.name ∧
          prefsFindInt32 l' d.name = prefsFindInt32 l d.name) := by
  have ht := platform.tableOk
  refine ⟨reloaded platform.tables l, ?_, fun d hd => ?_⟩
  · rw [savePrefsToStream_eq]
    exact loadPrefsFromStream_lines (writtenLines_readable ht hl) hline []
  · refine ⟨prefsFindString_reloaded ht hl hd, fun hmult => ?_⟩
    have htyped : ∀ p ∈ l, p.name = d.name → p.data.type = d.type := by
      cases hm : d.multiple with
      | true => exact hmult hm
      | false => exact hl.typed d hd hm
    exact ⟨prefsFindBool_reloaded ht hl hd htyped, prefsFindInt32_reloaded ht hl hd htyped⟩

/-- Two disks, one of them with an empty name, a negative number and a flag. -/
def samplePrefs : PrefsList :=
  [ ⟨⟨ascii "disk", disk_noNul⟩, .string ⟨ascii "/dev/hda 1", by decide⟩⟩,
    ⟨⟨ascii "frameskip", frameskip_noNul⟩, .int32 (BitVec.ofInt 32 (-8))⟩,
    ⟨⟨ascii "disk", disk_noNul⟩, .string ⟨[], by decide⟩⟩,
    ⟨⟨ascii "nogui", nogui_noNul⟩, .boolean true⟩ ]

theorem samplePrefs_saveable : Saveable (Platform.unix true).tables.all samplePrefs := by
  constructor <;> decide +kernel

theorem samplePrefs_reloaded :
    Saveable (Platform.unix true).tables.all samplePrefs ∧
    ∃ l', loadPrefsFromStream (Platform.unix true).tables (List.replicate 256 0xff#8)
        (savePrefsToStream (Platform.unix true).tables samplePrefs) [] = some l' ∧
      prefsFindString l' (item "disk" .string true).name 1 = some ⟨[], by simp⟩ := by
  obtain ⟨l', hload, hsame⟩ := loadPrefs_savePrefs (.unix true) samplePrefs
    (List.replicate 256 0xff#8) List.length_replicate samplePrefs_saveable
  refine ⟨samplePrefs_saveable, l', hload, ?_⟩
  rw [(hsame (item "disk" .string true) (by decide +kernel)).1 1]
  decide +kernel

end SheepShear.Prefs
