import SheepShear.Prefs.RoundTrip

/-!
# What the loader makes of a line

The loader sees the file in chunks of at most 254 bytes, cuts off the last byte
of each and looks for white space. The scan stays in the chunk, and the item is
the one of the line, where the chunk is a whole line with its newline and has
white space in it.
-/

namespace SheepShear.Prefs

-- ---------------------------------------------------------------------------
-- Chunks and lines
-- ---------------------------------------------------------------------------

/-- What the calls of `fgets` return. -/
def chunks : List Byte → List (List Byte)
  | [] => []
  | c :: text => (fgetsChunk 254 (c :: text)).1 :: chunks (fgetsChunk 254 (c :: text)).2
termination_by text => text.length
decreasing_by exact fgetsChunk_shorter 253 c text

/-- The lines of a file, each with its newline; the last one may have none. -/
def fileLines : List Byte → List (List Byte)
  | [] => []
  | c :: text =>
    (fgetsChunk (text.length + 1) (c :: text)).1 :: fileLines (fgetsChunk (text.length + 1) (c :: text)).2
termination_by text => text.length
decreasing_by exact fgetsChunk_shorter text.length c text

theorem fgetsChunk_append (n : Nat) (text : List Byte) :
    (fgetsChunk n text).1 ++ (fgetsChunk n text).2 = text := by
  fun_induction fgetsChunk n text with
  | case1 => rfl
  | case2 => rfl
  | case3 => rfl
  | case4 n c text hc chunk rest hchunk ih =>
    rw [hchunk] at ih
    exact congrArg (c :: ·) ih

/-- A line ends with its only newline, unless it is the last one. -/
structure IsLine (line rest : List Byte) : Prop where
  once : newline ∉ line.dropLast
  ends : rest = [] ∨ line.getLast? = some newline

theorem fgetsChunk_isLine (n : Nat) (text : List Byte) (hn : text.length ≤ n) :
    IsLine (fgetsChunk n text).1 (fgetsChunk n text).2 := by
  fun_induction fgetsChunk n text with
  | case1 text => exact ⟨List.not_mem_nil, .inl (List.length_eq_zero_iff.mp (Nat.le_zero.mp hn))⟩
  | case2 => exact ⟨List.not_mem_nil, .inl rfl⟩
  | case3 n text => exact ⟨List.not_mem_nil, .inr rfl⟩
  | case4 n c text hc chunk rest hchunk ih =>
    rw [hchunk] at ih
    obtain ⟨honce, hends⟩ := ih (by simpa using hn)
    cases chunk with
    | nil =>
      refine ⟨List.not_mem_nil, hends.imp_right fun h => ?_⟩
      simp at h
    | cons b chunk =>
      refine ⟨?_, hends.imp_right fun h => ?_⟩
      · rw [List.dropLast_cons_cons, List.mem_cons]
        exact not_or.mpr ⟨Ne.symm hc, honce⟩
      · rwa [List.getLast?_cons_cons]

theorem IsLine.of_cons {b c : Byte} {line rest : List Byte} (h : IsLine (c :: b :: line) rest) :
    IsLine (b :: line) rest where
  once hmem := h.once (List.mem_cons_of_mem c hmem)
  ends := h.ends.imp_right fun hlast => by rwa [List.getLast?_cons_cons] at hlast

/-- A line is read as if nothing followed it. -/
theorem fgetsChunk_line_append {line rest : List Byte} (h : IsLine line rest) (n : Nat) :
    fgetsChunk n (line ++ rest) = ((fgetsChunk n line).1, (fgetsChunk n line).2 ++ rest) := by
  induction line generalizing n with
  | nil =>
    obtain rfl : rest = [] := h.ends.resolve_right nofun
    simp
  | cons c line ih =>
    cases n with
    | zero => rfl
    | succ n =>
      cases line with
      | nil =>
        rcases h.ends with rfl | hlast
        · simp
        · obtain rfl : c = newline := Option.some.inj hlast
          simp [fgetsChunk]
      | cons b line =>
        have hc : c ≠ newline := by
          rintro rfl
          exact h.once (by simp)
        have htail := ih h.of_cons n
        simp only [List.cons_append, fgetsChunk, if_neg hc] at htail ⊢
        rw [htail]

/-- What is left of a line after a chunk is a line. -/
theorem IsLine.rest {line rest : List Byte} (h : IsLine line rest) (n : Nat) :
    IsLine (fgetsChunk n line).2 rest ∨ (fgetsChunk n line).2 = [] := by
  induction line generalizing n with
  | nil => exact .inr (by cases n <;> rfl)
  | cons c line ih =>
    cases n with
    | zero => exact .inl h
    | succ n =>
      by_cases hc : c = newline
      · cases line with
        | nil => exact .inr (by simp [fgetsChunk, hc])
        | cons b line => exact absurd (by simp [hc]) h.once
      · rw [fgetsChunk, if_neg hc]
        cases line with
        | nil => exact .inr (by cases n <;> rfl)
        | cons b line => exact ih h.of_cons n

theorem chunks_append {line rest : List Byte} (h : IsLine line rest) :
    chunks (line ++ rest) = chunks line ++ chunks rest := by
  induction hlength : line.length using Nat.strong_induction_on generalizing line with
  | _ n ih =>
    cases line with
    | nil => simp [chunks]
    | cons c line =>
      have happend := fgetsChunk_line_append h 254
      rw [List.cons_append] at happend
      rw [List.cons_append, chunks, happend, chunks, List.cons_append]
      refine congrArg ((fgetsChunk 254 (c :: line)).1 :: ·) ?_
      rcases h.rest 254 with hrest | hnil
      · exact ih _ (hlength ▸ fgetsChunk_shorter 253 c line) hrest rfl
      · rw [hnil]
        simp [chunks]

theorem chunks_eq (text : List Byte) : chunks text = (fileLines text).flatMap chunks := by
  fun_induction fileLines text with
  | case1 => simp [chunks]
  | case2 c text ih =>
    have hline := fgetsChunk_isLine (text.length + 1) (c :: text) le_rfl
    rw [List.flatMap_cons, ← ih, ← chunks_append hline, fgetsChunk_append]

/-- Every line of a file is a line in front of something. -/
theorem fileLines_isLine {text line : List Byte} (h : line ∈ fileLines text) :
    ∃ rest, IsLine line rest := by
  fun_induction fileLines text with
  | case1 => cases h
  | case2 c text ih =>
    rcases List.mem_cons.mp h with rfl | h
    · exact ⟨_, fgetsChunk_isLine (text.length + 1) (c :: text) le_rfl⟩
    · exact ih h

-- ---------------------------------------------------------------------------
-- One pass
-- ---------------------------------------------------------------------------

def IsComment (line : List Byte) : Prop := line.head? = some 0x23#8 ∨ line.head? = some 0x3b#8

instance (line : List Byte) : Decidable (IsComment line) := inferInstanceAs (Decidable (_ ∨ _))

/-- The line that a pass works on: the last byte is gone, whatever it was. -/
def cutLast (line : List Byte) : List Byte := line.set ((line.takeWhile (· ≠ 0#8)).length - 1) 0#8

/-- Where the pointer into the line is after both loops. -/
def scanEnd (line : List Byte) : Nat :=
  let p := (line.takeWhile (!isspace ·)).length
  p + 1 + ((line.drop (p + 1)).takeWhile isspace).length

/-- The pass on a chunk of `n` bytes does not go past the terminator that `fgets` has stored. -/
def ScansWithin (line : List Byte) (n : Nat) : Prop :=
  line.takeWhile (· ≠ 0#8) = [] ∨ IsComment (cutLast line) ∨ scanEnd (cutLast line) ≤ n

/-- A pass up to the look-up: the keyword and the value, if it gets there. -/
def readItem (line : List Byte) : Option (List Byte × Option (CString × CString)) := do
  if (line.takeWhile (· ≠ 0#8)).length = 0 then
    return (line, none)
  else
    let line := cutLast line
    if IsComment line then
      return (line, none)
    else
      let p := (line.takeWhile (!isspace ·)).length
      if p < line.length then
        let line := line.set p 0#8
        let p := p + 1 + ((line.drop (p + 1)).takeWhile isspace).length
        let keyword ← stringAt line 0
        let value ← stringAt line p
        return (line, some (keyword, value))
      else
        none

def loadItems (t : Tables) (l : PrefsList) (items : List (CString × CString)) : PrefsList :=
  items.foldl (fun l kv => loadItem t l kv.1 kv.2) l

theorem loadLine_eq (t : Tables) (line : List Byte) (l : PrefsList) :
    loadLine t line l = (readItem line).map fun r => (r.1, loadItems t l r.2.toList) := by
  unfold loadLine readItem
  by_cases h0 : (line.takeWhile (· ≠ 0#8)).length = 0
  · simp only [if_pos h0]
    rfl
  · have hcomment : (cutLast line).head? = some 0x23#8 ∨ (cutLast line).head? = some 0x3b#8 ↔
        IsComment (cutLast line) := Iff.rfl
    have hcut : line.set ((line.takeWhile (· ≠ 0#8)).length - 1) 0#8 = cutLast line := rfl
    simp only [if_neg h0, hcut, hcomment]
    split_ifs with hc hp
    · rfl
    · cases stringAt ((cutLast line).set _ 0#8) 0 with
      | none => rfl
      | some keyword => cases stringAt ((cutLast line).set _ 0#8) _ <;> rfl
    · rfl

-- ---------------------------------------------------------------------------
-- One chunk
-- ---------------------------------------------------------------------------

/-- A chunk that the pass has an end for: an empty string, a comment, or one with white space in
front of its last byte. -/
def ChunkOk (chunk : List Byte) : Prop :=
  chunk.takeWhile (· ≠ 0#8) = [] ∨ IsComment (cutLast chunk) ∨ (cutLast chunk).any isspace

instance (chunk : List Byte) : Decidable (ChunkOk chunk) := inferInstanceAs (Decidable (_ ∨ _))

def chunkItem (chunk : List Byte) : Option (CString × CString) :=
  if chunk.takeWhile (· ≠ 0#8) = [] ∨ IsComment (cutLast chunk) then none
  else
    let p := ((cutLast chunk).takeWhile (!isspace ·)).length
    some (.ofBuffer ((cutLast chunk).take p), .ofBuffer (((cutLast chunk).drop (p + 1)).dropWhile isspace))

theorem takeWhile_stop {α : Type} (P : α → Bool) (xs ys : List α) {y : α} (h : P y = false) :
    (xs ++ y :: ys).takeWhile P = xs.takeWhile P := by
  rw [List.takeWhile_append, List.takeWhile_cons_of_neg (by simp [h]), List.append_nil]
  split_ifs with hall
  · exact (List.takeWhile_prefix P).eq_of_length hall |>.symm
  · rfl

theorem ofBuffer_stop (xs ys : List Byte) : CString.ofBuffer (xs ++ 0#8 :: ys) = .ofBuffer xs :=
  CString.ext (takeWhile_stop _ xs ys rfl)

theorem cutLast_append {chunk : List Byte} (h : chunk.takeWhile (· ≠ 0#8) ≠ []) (rest : List Byte) :
    cutLast (chunk ++ 0#8 :: rest) = cutLast chunk ++ 0#8 :: rest := by
  have hpos := List.length_pos_iff.mpr h
  have hle := (List.takeWhile_prefix (l := chunk) (· ≠ 0#8)).length_le
  have hidx := Nat.lt_of_lt_of_le (Nat.sub_lt hpos Nat.one_pos) hle
  rw [cutLast, takeWhile_stop _ chunk rest rfl, List.set_append_left _ _ hidx]
  rfl

theorem cutLast_length (line : List Byte) : (cutLast line).length = line.length := List.length_set

theorem isComment_append {xs : List Byte} (h : xs ≠ []) (ys : List Byte) :
    IsComment (xs ++ ys) ↔ IsComment xs := by
  obtain ⟨x, xs, rfl⟩ := List.exists_cons_of_ne_nil h
  exact Iff.rfl

/-- The scan for white space in a chunk that has some. -/
theorem takeWhile_of_any {xs : List Byte} (h : xs.any isspace) (ys : List Byte) :
    (xs ++ ys).takeWhile (!isspace ·) = xs.takeWhile (!isspace ·) ∧
      (xs.takeWhile (!isspace ·)).length < xs.length := by
  have hlt : (xs.takeWhile (!isspace ·)).length < xs.length := by
    refine Nat.lt_of_le_of_ne (List.takeWhile_prefix _).length_le fun heq => ?_
    obtain ⟨c, hc, hspace⟩ := List.any_eq_true.mp h
    have hall : xs.takeWhile (!isspace ·) = xs := (List.takeWhile_prefix _).eq_of_length heq
    have hmem : c ∈ xs.takeWhile (!isspace ·) := by rwa [hall]
    simpa [hspace] using List.mem_takeWhile_imp hmem
  refine ⟨?_, hlt⟩
  rw [List.takeWhile_append, if_neg (Nat.ne_of_lt hlt)]

theorem takeWhile_of_not_any {xs : List Byte} (h : ¬ xs.any isspace) (ys : List Byte) :
    xs.length < ((xs ++ 0#8 :: ys).takeWhile (!isspace ·)).length := by
  have hall : ∀ c ∈ xs, (!isspace c) = true := by simpa using h
  have hzero : isspace 0#8 = false := rfl
  rw [List.takeWhile_append_of_pos hall, List.takeWhile_cons_of_pos (by simp [hzero])]
  simp

theorem drop_takeWhile_length {α : Type} (P : α → Bool) (xs : List α) :
    xs.drop (xs.takeWhile P).length = xs.dropWhile P := by
  have hdrop : (xs.takeWhile P ++ xs.dropWhile P).drop (xs.takeWhile P).length = xs.dropWhile P :=
    List.drop_left
  rwa [List.takeWhile_append_dropWhile] at hdrop

/-- Both loops stop in front of the terminator, and what they find is in the chunk. -/
theorem scanEnd_chunk {cut : List Byte} (h : cut.any isspace) (rest : List Byte) :
    let p := (cut.takeWhile (!isspace ·)).length
    ((cut ++ 0#8 :: rest).takeWhile (!isspace ·)).length = p ∧ p < cut.length ∧
      (((cut ++ 0#8 :: rest).drop (p + 1)).takeWhile isspace) = (cut.drop (p + 1)).takeWhile isspace ∧
      scanEnd (cut ++ 0#8 :: rest) ≤ cut.length := by
  intro p
  obtain ⟨htake, hlt⟩ := takeWhile_of_any h (0#8 :: rest)
  have hdrop : (cut ++ 0#8 :: rest).drop (p + 1) = cut.drop (p + 1) ++ 0#8 :: rest :=
    List.drop_append_of_le_length hlt
  have hspaces : ((cut ++ 0#8 :: rest).drop (p + 1)).takeWhile isspace =
      (cut.drop (p + 1)).takeWhile isspace := by
    rw [hdrop, takeWhile_stop _ _ _ rfl]
  refine ⟨congrArg List.length htake, hlt, hspaces, ?_⟩
  have hle := (List.takeWhile_prefix (l := cut.drop (p + 1)) isspace).length_le
  rw [List.length_drop] at hle
  simp only [scanEnd, htake]
  rw [hspaces]
  omega

theorem stringAt_stop (xs ys : List Byte) (line : List Byte) (p : Nat)
    (h : line.drop p = xs ++ 0#8 :: ys) : stringAt line p = some (.ofBuffer xs) := by
  rw [stringAt, h, if_pos (by simp), ofBuffer_stop]

/-- The two strings that the buffer holds after the keyword has been ended. -/
theorem strings_chunk {cut : List Byte} {p : Nat} (hp : p < cut.length) (rest : List Byte) :
    stringAt ((cut ++ 0#8 :: rest).set p 0#8) 0 = some (.ofBuffer (cut.take p)) ∧
      stringAt ((cut ++ 0#8 :: rest).set p 0#8) (p + 1 + ((cut.drop (p + 1)).takeWhile isspace).length) =
        some (.ofBuffer ((cut.drop (p + 1)).dropWhile isspace)) := by
  have hset : (cut ++ 0#8 :: rest).set p 0#8 =
      cut.take p ++ 0#8 :: (cut.drop (p + 1) ++ 0#8 :: rest) := by
    rw [List.set_append_left _ _ hp, List.set_eq_take_append_cons_drop, if_pos hp, List.append_assoc,
      List.cons_append]
  refine ⟨stringAt_stop _ _ _ _ hset, stringAt_stop _ rest _ _ ?_⟩
  have hlength : (cut.take p).length = p := List.length_take_of_le hp.le
  have hdrop : (cut.take p ++ 0#8 :: (cut.drop (p + 1) ++ 0#8 :: rest)).drop (p + 1) =
      cut.drop (p + 1) ++ 0#8 :: rest := by
    rw [← List.drop_drop, List.drop_left' hlength]
    rfl
  have hle := (List.takeWhile_prefix (l := cut.drop (p + 1)) isspace).length_le
  rw [hset, ← List.drop_drop, hdrop, List.drop_append_of_le_length hle, drop_takeWhile_length]

/-- On a chunk that is all right, whatever the buffer held before. -/
theorem readItem_chunk {chunk : List Byte} (h : ChunkOk chunk) (rest : List Byte) :
    ScansWithin (chunk ++ 0#8 :: rest) chunk.length ∧
      ∃ line, line.length = (chunk ++ 0#8 :: rest).length ∧
        readItem (chunk ++ 0#8 :: rest) = some (line, chunkItem chunk) := by
  have hstrlen : (chunk ++ 0#8 :: rest).takeWhile (· ≠ 0#8) = chunk.takeWhile (· ≠ 0#8) :=
    takeWhile_stop _ chunk rest rfl
  by_cases h0 : chunk.takeWhile (· ≠ 0#8) = []
  · refine ⟨.inl (hstrlen.trans h0), _, rfl, ?_⟩
    simp only [readItem, hstrlen, h0, List.length_nil, if_true, chunkItem, true_or]
    rfl
  have hcut := cutLast_append h0 rest
  have hne : cutLast chunk ≠ [] := by
    rintro hnil
    have hlength := cutLast_length chunk
    rw [hnil, List.length_nil] at hlength
    obtain rfl := List.length_eq_zero_iff.mp hlength.symm
    exact h0 rfl
  have hlength : (chunk.takeWhile (· ≠ 0#8)).length ≠ 0 := mt List.length_eq_zero_iff.mp h0
  by_cases hcomment : IsComment (cutLast chunk)
  · have hcomment' : IsComment (cutLast (chunk ++ 0#8 :: rest)) := by
      rwa [hcut, isComment_append hne]
    refine ⟨.inr (.inl hcomment'), cutLast (chunk ++ 0#8 :: rest), cutLast_length _, ?_⟩
    simp only [readItem, hstrlen, if_neg hlength, if_pos hcomment', chunkItem, hcomment, or_true, if_true]
    rfl
  have hcomment' : ¬ IsComment (cutLast (chunk ++ 0#8 :: rest)) := by
    rwa [hcut, isComment_append hne]
  obtain ⟨htake, hlt, hspaces, hend⟩ := scanEnd_chunk ((h.resolve_left h0).resolve_left hcomment) rest
  rw [cutLast_length] at hend
  have hp : ((cutLast chunk).takeWhile (!isspace ·)).length < (cutLast chunk ++ 0#8 :: rest).length := by
    rw [List.length_append]
    omega
  obtain ⟨hkeyword, hvalue⟩ := strings_chunk hlt rest
  have hdrop := List.drop_set_of_lt (a := 0#8) (l := cutLast chunk ++ 0#8 :: rest)
    (Nat.lt_succ_self ((cutLast chunk).takeWhile (!isspace ·)).length)
  refine ⟨.inr (.inr (by rwa [hcut])), (cutLast chunk ++ 0#8 :: rest).set
    ((cutLast chunk).takeWhile (!isspace ·)).length 0#8, ?_, ?_⟩
  · rw [List.length_set, List.length_append, cutLast_length, List.length_append]
  · rw [hcut] at hcomment'
    simp only [readItem, hstrlen, if_neg hlength, hcut, if_neg hcomment', htake, if_pos hp, hdrop, hspaces,
      hkeyword, hvalue, chunkItem, h0, hcomment, or_self, if_false]
    rfl

theorem not_scansWithin {chunk : List Byte} (h : ¬ ChunkOk chunk) (rest : List Byte) :
    ¬ ScansWithin (chunk ++ 0#8 :: rest) chunk.length := by
  obtain ⟨h0, h⟩ := not_or.mp h
  obtain ⟨hcomment, hspace⟩ := not_or.mp h
  have hne : cutLast chunk ≠ [] := by
    rintro hnil
    have hlength := cutLast_length chunk
    rw [hnil, List.length_nil] at hlength
    obtain rfl := List.length_eq_zero_iff.mp hlength.symm
    exact h0 rfl
  have hlong := takeWhile_of_not_any hspace rest
  rw [cutLast_length] at hlong
  rw [ScansWithin, takeWhile_stop _ chunk rest rfl, cutLast_append h0, isComment_append hne, scanEnd]
  rintro (h | h | h)
  · exact h0 h
  · exact hcomment h
  · omega

-- ---------------------------------------------------------------------------
-- Runs
-- ---------------------------------------------------------------------------

def readChunks : List (List Byte) → List Byte → Option (List Byte × List (CString × CString))
  | [], buffer => some (buffer, [])
  | chunk :: rest, buffer => do
    let (buffer, item) ← readItem (storeLine buffer chunk)
    let (buffer, items) ← readChunks rest buffer
    return (buffer, item.toList ++ items)

/-- The items that are looked up, line by line. -/
def readLines : List (List Byte) → List Byte → Option (List (List (CString × CString)))
  | [], _ => some []
  | line :: lines, buffer => do
    let (buffer, items) ← readChunks (chunks line) buffer
    let rest ← readLines lines buffer
    return items :: rest

def AllScansWithin : List (List Byte) → List Byte → Prop
  | [], _ => True
  | chunk :: rest, buffer =>
    ScansWithin (storeLine buffer chunk) chunk.length ∧
      ∀ r ∈ readItem (storeLine buffer chunk), AllScansWithin rest r.1

theorem readChunks_append (xs ys : List (List Byte)) (buffer : List Byte) :
    readChunks (xs ++ ys) buffer =
      (readChunks xs buffer).bind fun r => (readChunks ys r.1).map fun r' => (r'.1, r.2 ++ r'.2) := by
  induction xs generalizing buffer with
  | nil => simp [readChunks]
  | cons chunk xs ih =>
    simp only [List.cons_append, readChunks, ih]
    cases readItem (storeLine buffer chunk) with
    | none => rfl
    | some r =>
      cases h : readChunks xs r.1 with
      | none => simp [h]
      | some r' => cases h' : readChunks ys r'.1 <;> simp [h, h']

theorem readLines_flatten (lines : List (List Byte)) (buffer : List Byte) :
    (readLines lines buffer).map List.flatten =
      (readChunks (lines.flatMap chunks) buffer).map Prod.snd := by
  induction lines generalizing buffer with
  | nil => rfl
  | cons line lines ih =>
    rw [List.flatMap_cons, readChunks_append, readLines]
    cases readChunks (chunks line) buffer with
    | none => rfl
    | some r =>
      have htail := ih r.1
      cases h : readLines lines r.1 <;> cases h' : readChunks (lines.flatMap chunks) r.1 <;> simp_all

/-- Loading is reading the items and setting them in order. -/
theorem loadPrefsFromStream_chunks (t : Tables) (buffer text : List Byte) (l : PrefsList) :
    loadPrefsFromStream t buffer text l =
      (readChunks (chunks text) buffer).map fun r => loadItems t l r.2 := by
  fun_induction chunks text generalizing buffer l with
  | case1 => simp [loadPrefsFromStream, readChunks, loadItems]
  | case2 c text ih =>
    rw [loadPrefsFromStream_cons, readChunks, loadLine_eq]
    cases readItem (storeLine buffer (fgetsChunk 254 (c :: text)).1) with
    | none => rfl
    | some r =>
      simp only [Option.map_some, Option.bind_some, Option.bind_eq_bind, ih]
      cases readChunks (chunks (fgetsChunk 254 (c :: text)).2) r.1 with
      | none => rfl
      | some r' => simp [loadItems]

theorem loadPrefsFromStream_items (t : Tables) (buffer text : List Byte) (l : PrefsList) :
    loadPrefsFromStream t buffer text l =
      (readLines (fileLines text) buffer).map fun items => loadItems t l items.flatten := by
  have hflatten := congrArg (Option.map (loadItems t l)) (readLines_flatten (fileLines text) buffer)
  rw [Option.map_map, Option.map_map, ← chunks_eq] at hflatten
  rw [loadPrefsFromStream_chunks]
  exact hflatten.symm

theorem fgetsChunk_length_le (n : Nat) (text : List Byte) : (fgetsChunk n text).1.length ≤ n := by
  fun_induction fgetsChunk n text with
  | case1 => exact le_rfl
  | case2 => exact Nat.zero_le _
  | case3 => simp
  | case4 n c text hc chunk rest hchunk ih =>
    rw [hchunk] at ih
    exact Nat.succ_le_succ ih

theorem chunks_length {text chunk : List Byte} (h : chunk ∈ chunks text) : chunk.length ≤ 254 := by
  fun_induction chunks text with
  | case1 => cases h
  | case2 c text ih =>
    rcases List.mem_cons.mp h with rfl | h
    · exact fgetsChunk_length_le _ _
    · exact ih h

theorem readItem_storeLine {buffer chunk : List Byte} (hbuffer : buffer.length = 256)
    (hchunk : chunk.length ≤ 254) (h : ChunkOk chunk) :
    ScansWithin (storeLine buffer chunk) chunk.length ∧
      ∃ line, line.length = 256 ∧ readItem (storeLine buffer chunk) = some (line, chunkItem chunk) := by
  obtain ⟨hwithin, line, hlength, hread⟩ := readItem_chunk h (buffer.drop (chunk.length + 1))
  exact ⟨hwithin, line, hlength.trans (storeLine_length hbuffer hchunk), hread⟩

theorem readChunks_ok {cs : List (List Byte)} (hcs : ∀ chunk ∈ cs, chunk.length ≤ 254 ∧ ChunkOk chunk)
    {buffer : List Byte} (hbuffer : buffer.length = 256) :
    AllScansWithin cs buffer ∧
      ∃ buffer', buffer'.length = 256 ∧
        readChunks cs buffer = some (buffer', cs.filterMap chunkItem) := by
  induction cs generalizing buffer with
  | nil => exact ⟨trivial, buffer, hbuffer, rfl⟩
  | cons chunk cs ih =>
    obtain ⟨hlength, hok⟩ := hcs chunk (List.mem_cons_self ..)
    obtain ⟨hwithin, line, hline, hread⟩ := readItem_storeLine hbuffer hlength hok
    obtain ⟨hrest, buffer', hbuffer', hrun⟩ := ih (fun c hc => hcs c (List.mem_cons_of_mem _ hc)) hline
    refine ⟨⟨hwithin, fun r hr => ?_⟩, buffer', hbuffer', ?_⟩
    · obtain rfl : r = (line, chunkItem chunk) := Option.some.inj (hr.symm.trans hread)
      exact hrest
    · simp only [readChunks, hread, Option.bind_eq_bind, Option.bind_some, hrun]
      cases h : chunkItem chunk <;> simp [h]

theorem chunksOk_of_within {cs : List (List Byte)} (hcs : ∀ chunk ∈ cs, chunk.length ≤ 254)
    {buffer : List Byte} (hbuffer : buffer.length = 256) (h : AllScansWithin cs buffer) :
    ∀ chunk ∈ cs, ChunkOk chunk := by
  induction cs generalizing buffer with
  | nil => nofun
  | cons chunk cs ih =>
    obtain ⟨hwithin, hrest⟩ := h
    have hok : ChunkOk chunk := by
      by_contra hbad
      exact not_scansWithin hbad _ hwithin
    obtain ⟨-, line, hline, hread⟩ := readItem_storeLine hbuffer (hcs chunk (List.mem_cons_self ..)) hok
    intro c hc
    rcases List.mem_cons.mp hc with rfl | hc
    · exact hok
    · exact ih (fun c hc => hcs c (List.mem_cons_of_mem _ hc)) hline (hrest _ hread) c hc

def lineItems (line : List Byte) : List (CString × CString) := (chunks line).filterMap chunkItem

theorem readLines_ok {lines : List (List Byte)} (h : ∀ line ∈ lines, ∀ chunk ∈ chunks line, ChunkOk chunk)
    {buffer : List Byte} (hbuffer : buffer.length = 256) :
    readLines lines buffer = some (lines.map lineItems) := by
  induction lines generalizing buffer with
  | nil => rfl
  | cons line lines ih =>
    have hcs : ∀ chunk ∈ chunks line, chunk.length ≤ 254 ∧ ChunkOk chunk := fun chunk hc =>
      ⟨chunks_length hc, h line (List.mem_cons_self ..) chunk hc⟩
    obtain ⟨-, buffer', hbuffer', hrun⟩ := readChunks_ok hcs hbuffer
    have hrest := ih (fun l hl => h l (List.mem_cons_of_mem _ hl)) hbuffer'
    simp only [readLines, hrun, Option.bind_eq_bind, Option.bind_some, hrest]
    rfl

-- ---------------------------------------------------------------------------
-- Well-formed lines
-- ---------------------------------------------------------------------------

/-- A keyword, white space and a value. -/
structure Separated (keyword : CString) (sep : List Byte) (value : CString) : Prop where
  nonempty : keyword.val ≠ []
  noComment : ¬ IsComment keyword.val
  noSpace : keyword.val.all (!isspace ·)
  sepNonempty : sep ≠ []
  sepSpace : sep.all isspace
  valueNonempty : value.val ≠ []
  noLeading : ∀ c ∈ value.val.head?, isspace c = false
  oneLine : newline ∉ sep ++ value.val

/-- A line `keyword value`; the last one of a file may have no newline. -/
def WellFormed (line : List Byte) (keyword value : CString) : Prop :=
  ∃ sep, Separated keyword sep value ∧
    (line = keyword.val ++ (sep ++ value.val) ∨ line = keyword.val ++ (sep ++ value.val) ++ [newline])

variable {keyword value : CString} {sep : List Byte}

theorem Separated.noNul (h : Separated keyword sep value) : 0#8 ∉ keyword.val ++ (sep ++ value.val) := by
  have hsep : 0#8 ∉ sep := fun hz => by
    have hspace := List.all_eq_true.mp h.sepSpace _ hz
    cases hspace
  simp [keyword.noNul, value.noNul, hsep]

theorem Separated.noNewline (h : Separated keyword sep value) :
    newline ∉ keyword.val ++ (sep ++ value.val) := by
  have hkeyword : newline ∉ keyword.val := fun hz => by
    have hspace := List.all_eq_true.mp h.noSpace _ hz
    cases hspace
  exact fun hmem => (List.mem_append.mp hmem).elim hkeyword h.oneLine

/-- A chunk of a well-formed line: the first `m` bytes, and one that is cut off. -/
theorem Separated.cutLast_eq (h : Separated keyword sep value) (m : Nat) {c : Byte} (hc : c ≠ 0#8) :
    ((keyword.val ++ (sep ++ value.val)).take m ++ [c]).takeWhile (· ≠ 0#8) ≠ [] ∧
      cutLast ((keyword.val ++ (sep ++ value.val)).take m ++ [c]) =
        (keyword.val ++ (sep ++ value.val)).take m ++ [0#8] := by
  have hall : ∀ b ∈ (keyword.val ++ (sep ++ value.val)).take m ++ [c], decide (b ≠ 0#8) = true := by
    intro b hb
    rw [decide_eq_true_eq]
    rintro rfl
    rcases List.mem_append.mp hb with hb | hb
    · exact h.noNul (List.mem_of_mem_take hb)
    · exact hc (List.mem_singleton.mp hb).symm
  have hself := List.takeWhile_eq_self_iff.mpr hall
  refine ⟨by rw [hself]; simp, ?_⟩
  rw [cutLast, hself, List.length_append, List.length_singleton, Nat.add_sub_cancel]
  exact set_append_length _ c 0#8 []

theorem Separated.not_comment (h : Separated keyword sep value) (m : Nat) :
    ¬ IsComment ((keyword.val ++ (sep ++ value.val)).take m ++ [0#8]) := by
  obtain ⟨k, ks, hk⟩ := List.exists_cons_of_ne_nil h.nonempty
  have hcomment := h.noComment
  cases m with
  | zero => exact show ¬ IsComment [0#8] by decide
  | succ m => rwa [hk] at hcomment ⊢

/-- A chunk that ends in the keyword has no white space to stop at. -/
theorem Separated.not_chunkOk (h : Separated keyword sep value) {m : Nat} (hm : m ≤ keyword.val.length)
    {c : Byte} (hc : c ≠ 0#8) : ¬ ChunkOk ((keyword.val ++ (sep ++ value.val)).take m ++ [c]) := by
  obtain ⟨hne, hcut⟩ := h.cutLast_eq m hc
  have hspace : ¬ ((keyword.val ++ (sep ++ value.val)).take m ++ [0#8]).any isspace := by
    rw [List.take_append_of_le_length hm, List.any_append, Bool.or_eq_true]
    rintro (hany | hany)
    · obtain ⟨b, hb, hspace⟩ := List.any_eq_true.mp hany
      have hkey := List.all_eq_true.mp h.noSpace _ (List.mem_of_mem_take hb)
      simp [hspace] at hkey
    · cases hany
  rintro (h0 | hcomment | hany)
  · exact hne h0
  · exact h.not_comment m (hcut ▸ hcomment)
  · exact hspace (hcut ▸ hany)

theorem Separated.dropWhile_value (h : Separated keyword sep value) (b : Nat) :
    (value.val.take b ++ [0#8]).dropWhile isspace = value.val.take b ++ [0#8] := by
  cases b with
  | zero => rfl
  | succ b =>
    obtain ⟨v, vs, hv⟩ := List.exists_cons_of_ne_nil h.valueNonempty
    have hspace := h.noLeading v (by rw [hv]; rfl)
    rw [hv]
    exact List.dropWhile_cons_of_neg (by simp [hspace])

/-- A chunk that goes on after the keyword has an item: its value is what is left of the value. -/
theorem Separated.chunkItem_eq (h : Separated keyword sep value) {m : Nat} (hm : keyword.val.length < m)
    {c : Byte} (hc : c ≠ 0#8) :
    ChunkOk ((keyword.val ++ (sep ++ value.val)).take m ++ [c]) ∧
      chunkItem ((keyword.val ++ (sep ++ value.val)).take m ++ [c]) =
        some (keyword, .ofBuffer (value.val.take (m - keyword.val.length - sep.length))) := by
  obtain ⟨hne, hcut⟩ := h.cutLast_eq m hc
  obtain ⟨s, ss, hs⟩ := List.exists_cons_of_ne_nil h.sepNonempty
  obtain ⟨a, ha⟩ : ∃ a, m - keyword.val.length = a + 1 := ⟨m - keyword.val.length - 1, by omega⟩
  have hspaces : ∀ b ∈ s :: ss, isspace b = true := hs ▸ List.all_eq_true.mp h.sepSpace
  have hbytes : (keyword.val ++ (sep ++ value.val)).take m ++ [0#8] =
      keyword.val ++ s :: (ss.take a ++ (value.val.take (a + 1 - sep.length) ++ [0#8])) := by
    rw [List.take_append, List.take_of_length_le hm.le, ha, List.take_append, hs, List.take_succ_cons]
    simp
  have hkey : (keyword.val ++ s :: (ss.take a ++ (value.val.take (a + 1 - sep.length) ++ [0#8]))).takeWhile
      (!isspace ·) = keyword.val := by
    rw [List.takeWhile_append_of_pos (List.all_eq_true.mp h.noSpace),
      List.takeWhile_cons_of_neg (by simp [hspaces s (List.mem_cons_self ..)]), List.append_nil]
  have hcomment := h.not_comment m
  rw [hbytes] at hcut hcomment
  refine ⟨.inr (.inr ?_), ?_⟩
  · rw [hcut, List.any_append, List.any_cons, hspaces s (List.mem_cons_self ..)]
    simp
  · have hdrop : (keyword.val ++ s :: (ss.take a ++ (value.val.take (a + 1 - sep.length) ++ [0#8]))).drop
        (keyword.val.length + 1) = ss.take a ++ (value.val.take (a + 1 - sep.length) ++ [0#8]) := by
      rw [← List.drop_drop, List.drop_left]
      rfl
    have hvalue : (ss.take a ++ (value.val.take (a + 1 - sep.length) ++ [0#8])).dropWhile isspace =
        value.val.take (a + 1 - sep.length) ++ [0#8] := by
      rw [List.dropWhile_append_of_pos fun b hb =>
        hspaces b (List.mem_cons_of_mem s (List.mem_of_mem_take hb)), h.dropWhile_value]
    rw [chunkItem, hcut, if_neg (not_or.mpr ⟨hne, hcomment⟩), hkey]
    simp only [List.take_left, hdrop, hvalue, CString.ofBuffer_bytes, ofBuffer_stop, ha]

-- ---------------------------------------------------------------------------
-- Main result
-- ---------------------------------------------------------------------------

/-- What the loader needs of a line: each chunk has an end for the pass, and a well-formed line has
its newline, and both fit into one chunk. -/
def LineOk (line : List Byte) : Prop :=
  (∀ chunk ∈ chunks line, ChunkOk chunk) ∧
    ((∃ keyword value, WellFormed line keyword value) → newline ∈ line ∧ line.length ≤ 254)

/-- No pass leaves its chunk, the items are set in their order, and a well-formed line has just the
one item that it says. -/
structure LoadsExactly (buffer text : List Byte) : Prop where
  within : AllScansWithin (chunks text) buffer
  exact : ∃ items, readLines (fileLines text) buffer = some items ∧
    (∀ t l, loadPrefsFromStream t buffer text l = some (loadItems t l items.flatten)) ∧
    List.Forall₂ (fun line its => ∀ keyword value, WellFormed line keyword value →
      its = [(keyword, value)]) (fileLines text) items

theorem chunks_of_ne {line : List Byte} (h : line ≠ []) :
    chunks line = (fgetsChunk 254 line).1 :: chunks (fgetsChunk 254 line).2 := by
  obtain ⟨c, text, rfl⟩ := List.exists_cons_of_ne_nil h
  rw [chunks]

theorem fgetsChunk_take {n : Nat} {text : List Byte} (h : newline ∉ text.take n) :
    fgetsChunk n text = (text.take n, text.drop n) := by
  induction text generalizing n with
  | nil => cases n <;> rfl
  | cons c text ih =>
    cases n with
    | zero => rfl
    | succ n =>
      rw [List.take_succ_cons, List.mem_cons, not_or] at h
      rw [fgetsChunk, if_neg (Ne.symm h.1), ih h.2]
      rfl

theorem WellFormed.lineItems_eq {line : List Byte} (h : WellFormed line keyword value)
    (hnewline : newline ∈ line) (hlength : line.length ≤ 254) : lineItems line = [(keyword, value)] := by
  obtain ⟨sep, hsep, rfl | rfl⟩ := h
  · exact absurd hnewline hsep.noNewline
  · have hlt : (keyword.val ++ (sep ++ value.val)).length < 254 := by
      rw [List.length_append, List.length_singleton] at hlength
      omega
    have hchunk := fgetsChunk_line _ [] hsep.noNewline hlt
    have hpos := List.length_pos_iff.mpr hsep.sepNonempty
    have hm : keyword.val.length < (keyword.val ++ (sep ++ value.val)).length := by
      simp only [List.length_append]
      omega
    obtain ⟨-, hitem⟩ := hsep.chunkItem_eq hm (c := newline) (by decide)
    have hvalue : (keyword.val ++ (sep ++ value.val)).length - keyword.val.length - sep.length =
        value.val.length := by
      simp only [List.length_append]
      omega
    rw [List.take_length, hvalue, List.take_length, CString.ofBuffer_bytes] at hitem
    rw [lineItems, chunks_of_ne (by simp), hchunk, chunks, List.filterMap_cons, hitem]
    rfl

/-- The first chunk of a well-formed line that is too long or has no newline. -/
theorem Separated.first_chunk (h : Separated keyword sep value) {line : List Byte}
    (hline : line = keyword.val ++ (sep ++ value.val) ∨
      line = keyword.val ++ (sep ++ value.val) ++ [newline])
    (hbad : ¬ (newline ∈ line ∧ line.length ≤ 254)) :
    ∃ m c rest, m < (keyword.val ++ (sep ++ value.val)).length ∧ c ≠ 0#8 ∧
      chunks line = ((keyword.val ++ (sep ++ value.val)).take m ++ [c]) :: rest := by
  have hkey := List.length_pos_iff.mpr h.nonempty
  have hpos : 0 < (keyword.val ++ (sep ++ value.val)).length := by
    rw [List.length_append]
    omega
  have htake : line.take 254 = (keyword.val ++ (sep ++ value.val)).take 254 := by
    rcases hline with rfl | rfl
    · rfl
    · have hlong : 254 ≤ (keyword.val ++ (sep ++ value.val)).length := by
        by_contra hshort
        refine hbad ⟨by simp, ?_⟩
        rw [List.length_append, List.length_singleton]
        omega
      exact List.take_append_of_le_length hlong
  have hne : line ≠ [] := by
    rintro rfl
    rcases hline with hnil | hnil
    · rw [← hnil] at hpos
      exact Nat.lt_irrefl 0 hpos
    · simp at hnil
  have hnewline : newline ∉ line.take 254 := by
    rw [htake]
    exact fun hmem => h.noNewline (List.mem_of_mem_take hmem)
  -- its last byte is one of the line's own
  generalize hbody : keyword.val ++ (sep ++ value.val) = body at *
  obtain ⟨m, hm⟩ : ∃ m, min 254 body.length = m + 1 := ⟨min 254 body.length - 1, by omega⟩
  have hlast : m < body.length := by omega
  have hfirst : body.take 254 = body.take m ++ [body[m]] := by
    rw [List.take_eq_take_min, hm, List.take_succ_eq_append_getElem hlast]
  refine ⟨m, body[m], chunks (line.drop 254), hlast, ?_, ?_⟩
  · intro hzero
    exact h.noNul (hbody ▸ hzero ▸ List.getElem_mem hlast)
  · rw [chunks_of_ne hne, fgetsChunk_take hnewline, htake, hfirst]

theorem WellFormed.lineItems_ne {line : List Byte} (h : WellFormed line keyword value)
    (hok : ∀ chunk ∈ chunks line, ChunkOk chunk) (hbad : ¬ (newline ∈ line ∧ line.length ≤ 254)) :
    lineItems line ≠ [(keyword, value)] := by
  obtain ⟨sep, hsep, hline⟩ := h
  obtain ⟨m, c, rest, hm, hc, hchunks⟩ := hsep.first_chunk hline hbad
  rw [hchunks] at hok
  have hgt : keyword.val.length < m := by
    by_contra hle
    exact hsep.not_chunkOk (by omega) hc (hok _ (List.mem_cons_self ..))
  obtain ⟨-, hitem⟩ := hsep.chunkItem_eq hgt hc
  have hpos := List.length_pos_iff.mpr hsep.valueNonempty
  rw [lineItems, hchunks, List.filterMap_cons, hitem]
  intro heq
  -- the value has lost at least one byte
  have hvalue : CString.ofBuffer (value.val.take (m - keyword.val.length - sep.length)) = value := by
    simpa using (List.cons.inj heq).1
  have hle := (List.takeWhile_prefix (l := value.val.take (m - keyword.val.length - sep.length))
    (· ≠ 0#8)).length_le
  have hlength : (value.val.take (m - keyword.val.length - sep.length)).length < value.val.length := by
    simp only [List.length_append] at hm
    rw [List.length_take]
    omega
  have hval := congrArg (fun v => v.val.length) hvalue
  simp only [CString.ofBuffer] at hval
  omega

theorem loadsExactly_of_ok {buffer text : List Byte} (hbuffer : buffer.length = 256)
    (h : ∀ line ∈ fileLines text, LineOk line) : LoadsExactly buffer text := by
  have hchunks : ∀ chunk ∈ chunks text, chunk.length ≤ 254 ∧ ChunkOk chunk := by
    intro chunk hc
    have hmem := hc
    rw [chunks_eq] at hc
    obtain ⟨line, hline, hc⟩ := List.mem_flatMap.mp hc
    exact ⟨chunks_length hmem, (h line hline).1 chunk hc⟩
  have hread := readLines_ok (fun line hline => (h line hline).1) hbuffer
  refine ⟨(readChunks_ok hchunks hbuffer).1, _, hread, fun t l => ?_, ?_⟩
  · rw [loadPrefsFromStream_items, hread]
    rfl
  · rw [List.forall₂_map_right_iff, List.forall₂_same]
    intro line hline keyword value hwf
    obtain ⟨hnewline, hlength⟩ := (h line hline).2 ⟨keyword, value, hwf⟩
    exact hwf.lineItems_eq hnewline hlength

theorem ok_of_loadsExactly {buffer text : List Byte} (hbuffer : buffer.length = 256)
    (h : LoadsExactly buffer text) : ∀ line ∈ fileLines text, LineOk line := by
  have hok := chunksOk_of_within (fun chunk hc => chunks_length hc) hbuffer h.within
  have hchunks : ∀ line ∈ fileLines text, ∀ chunk ∈ chunks line, ChunkOk chunk := by
    intro line hline chunk hc
    refine hok chunk ?_
    rw [chunks_eq]
    exact List.mem_flatMap.mpr ⟨line, hline, hc⟩
  obtain ⟨items, hread, -, hitems⟩ := h.exact
  obtain rfl : (fileLines text).map lineItems = items :=
    Option.some.inj ((readLines_ok hchunks hbuffer).symm.trans hread)
  rw [List.forall₂_map_right_iff, List.forall₂_same] at hitems
  refine fun line hline => ⟨hchunks line hline, ?_⟩
  rintro ⟨keyword, value, hwf⟩
  by_contra hbad
  exact hwf.lineItems_ne (hchunks line hline) hbad (hitems line hline keyword value hwf)

end SheepShear.Prefs
