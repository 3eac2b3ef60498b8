import SheepShear.ExtFs.Charset

/-!
# Escaped names

The loops go from the end of a name to its start, with the part behind their
position done and nothing in front of it touched. So an escape is never read
together with a character that came out of another one.
-/

namespace SheepShear.ExtFs.Charset

-- ---------------------------------------------------------------------------
-- Escapes
-- ---------------------------------------------------------------------------

/-- A character of the escaped name. -/
def encodeChar (c : Byte) : List Byte := if converts c then escape c else [c]

/-- The escaped name. -/
def encode (s : List Byte) : List Byte := s.flatMap encodeChar

def isUpperXdigit (c : Byte) : Bool := isdigit c || (0x41#8 ≤ c && c ≤ 0x46#8)

theorem escape_digits : ∀ c : Byte, converts c = true →
    isUpperXdigit (upperDigit (c >>> 4)) = true ∧ isUpperXdigit (upperDigit (c &&& 0x0f)) = true ∧
      xdigitValue (upperDigit (c >>> 4)) <<< 4 ||| xdigitValue (upperDigit (c &&& 0x0f)) = c := by
  decide +kernel

theorem upperXdigit_cases : ∀ c : Byte, isUpperXdigit c = true →
    isxdigit c = true ∧ c ≠ 0#8 ∧ c ≠ percent ∧ converts c = false := by
  decide +kernel

theorem converts_percent : converts percent = true := by decide

theorem encode_concat (s : List Byte) (c : Byte) : encode (s ++ [c]) = encode s ++ encodeChar c := by
  simp [encode]

theorem noNul_escape {c : Byte} (h : converts c = true) : 0#8 ∉ escape c := by
  obtain ⟨hhigh, hlow, -⟩ := escape_digits c h
  have hh := (upperXdigit_cases _ hhigh).2.1
  have hl := (upperXdigit_cases _ hlow).2.1
  simp only [escape, List.mem_cons, List.not_mem_nil, or_false, not_or]
  exact ⟨by decide, hh.symm, hl.symm⟩

theorem noNul_encodeChar {c : Byte} (h : c ≠ 0#8) : 0#8 ∉ encodeChar c := by
  rw [encodeChar]
  split_ifs with hc
  · exact noNul_escape hc
  · simpa using h.symm

theorem noNul_encode {s : List Byte} (h : 0#8 ∉ s) : 0#8 ∉ encode s := by
  intro hmem
  obtain ⟨c, hc, hmem⟩ := List.mem_flatMap.mp hmem
  exact noNul_encodeChar (fun heq : c = 0#8 => h (heq ▸ hc)) hmem

/-- The room that the escapes of a name need. -/
def growth (s : List Byte) : Nat := 2 * s.countP converts

theorem length_encode (s : List Byte) : (encode s).length = s.length + growth s := by
  induction s with
  | nil => rfl
  | cons c s ih =>
    have hcons : encode (c :: s) = encodeChar c ++ encode s := rfl
    rw [hcons, List.length_append, ih, growth, growth, List.countP_cons, encodeChar, List.length_cons]
    split_ifs with hc
    · show 3 + _ = _
      omega
    · show 1 + _ = _
      omega

-- ---------------------------------------------------------------------------
-- A string in its buffer
-- ---------------------------------------------------------------------------

theorem byteAt_append (pre : List Byte) (c : Byte) (tail : List Byte) :
    byteAt (pre ++ c :: tail) pre.length = .ok c := by
  simp [byteAt, Buffer.get]

theorem strlen_append (pre : List Byte) {s : List Byte} (hs : 0#8 ∉ s) (rest : List Byte) :
    strlen (pre ++ (s ++ 0#8 :: rest)) pre.length = .ok s.length := by
  have htake : (s ++ 0#8 :: rest).takeWhile (· ≠ 0#8) = s := by
    have hall : ∀ c ∈ s, decide (c ≠ 0#8) = true := fun c hc => by
      simpa using fun heq : c = 0#8 => hs (heq ▸ hc)
    rw [List.takeWhile_append_of_pos hall]
    simp
  simp only [strlen, List.drop_left, htake]
  rw [if_pos (by simp)]

theorem memmove_eq {buf bytes : List Byte} {dst src n : Nat}
    (hread : Buffer.read Fault.overrun buf src n = .ok bytes)
    (hfits : dst + bytes.length ≤ buf.length) :
    memmove buf dst src n = .ok (Buffer.overwrite buf dst bytes) := by
  rw [memmove, hread, Except.ok_bind, Buffer.write_ok hfits]

theorem read_append (pre bytes tail : List Byte) :
    Buffer.read Fault.overrun (pre ++ (bytes ++ tail)) pre.length bytes.length = .ok bytes := by
  rw [Buffer.read_ok (by simp), List.drop_left, List.take_left]

-- ---------------------------------------------------------------------------
-- Escaping
-- ---------------------------------------------------------------------------

/-- One escape takes the room of two more bytes. -/
theorem insertEscape_eq (pre : List Byte) {c : Byte} {s rest : List Byte} (hs : 0#8 ∉ c :: s)
    (hroom : 2 ≤ rest.length) :
    insertEscape (pre ++ (c :: s ++ 0#8 :: rest)) pre.length c =
      .ok (pre ++ (escape c ++ (s ++ 0#8 :: rest.drop 2))) := by
  have hstring : c :: s ++ 0#8 :: rest = (c :: s ++ [0#8]) ++ rest := by simp
  have hread : Buffer.read Fault.overrun (pre ++ (c :: s ++ 0#8 :: rest)) pre.length
      ((c :: s).length + 1) = .ok (c :: s ++ [0#8]) := by
    rw [hstring, ← read_append pre (c :: s ++ [0#8]) rest, List.length_append]
    rfl
  have hmove := @memmove_eq _ _ (pre.length + 2) _ _ hread (by simp; omega)
  rw [insertEscape, strlen_append pre hs, Except.ok_bind, hmove, Except.ok_bind, Buffer.overwrite_append,
    Buffer.write_ok (by simp [Buffer.overwrite, escape]; omega), Buffer.overwrite_length]
  -- The three bytes cover the two that were left behind and the character itself.
  have hleft : ((c :: s ++ 0#8 :: rest).take 2).length = 2 := by
    simp
    omega
  have hpast : (c :: s ++ 0#8 :: rest).drop (2 + (c :: s ++ [0#8]).length) = rest.drop 2 := by
    rw [hstring, Nat.add_comm, List.drop_length_add_append]
  have htail : (Buffer.overwrite (c :: s ++ 0#8 :: rest) 2 (c :: s ++ [0#8])).drop 3 =
      s ++ 0#8 :: rest.drop 2 := by
    rw [Buffer.overwrite, hpast, List.append_assoc, List.drop_append, hleft,
      List.drop_of_length_le (by omega)]
    simp
  rw [show (escape c).length = 3 from rfl, htail, List.append_assoc]

/-- The loop escapes what is in front of its position. -/
theorem charsetMac2HostLoop_eq {s : List Byte} (hs : 0#8 ∉ s) {done rest : List Byte}
    (hdone : 0#8 ∉ done) (hroom : growth s ≤ rest.length) :
    charsetMac2HostLoop s.length (s ++ (done ++ 0#8 :: rest)) =
      .ok (encode s ++ (done ++ 0#8 :: rest.drop (growth s))) := by
  induction s using List.reverseRecOn generalizing done rest with
  | nil => rfl
  | append_singleton s c ih =>
    have hs' : 0#8 ∉ s := fun h => hs (List.mem_append_left _ h)
    have hc : c ≠ 0#8 := fun h => hs (by simp [h])
    have hbyte : byteAt (s ++ [c] ++ (done ++ 0#8 :: rest)) s.length = .ok c := by
      rw [List.append_assoc]
      exact byteAt_append s c _
    rw [List.length_append, List.length_singleton, charsetMac2HostLoop, hbyte, Except.ok_bind,
      encode_concat, encodeChar]
    by_cases hconverts : converts c = true
    · have hgrowth : growth (s ++ [c]) = growth s + 2 := by simp [growth, hconverts, mul_add]
      have hinsert := @insertEscape_eq s c done rest (by simp [hdone, hc.symm]) (by omega)
      have hloop := @ih hs' (escape c ++ done) (rest.drop 2)
        (by simp [hdone, noNul_escape hconverts]) (by rw [List.length_drop]; omega)
      rw [if_pos hconverts, if_pos hconverts, List.append_assoc, List.singleton_append,
        ← List.cons_append, hinsert, Except.ok_bind, ← List.append_assoc (escape c), hloop,
        List.drop_drop, hgrowth, Nat.add_comm 2, List.append_assoc, List.append_assoc]
    · have hgrowth : growth (s ++ [c]) = growth s := by simp [growth, hconverts]
      rw [if_neg hconverts, if_neg hconverts, List.append_assoc, List.append_assoc, hgrowth]
      exact @ih hs' (c :: done) rest (by simp [hdone, hc.symm]) (by omega)

-- ---------------------------------------------------------------------------
-- Reading escapes
-- ---------------------------------------------------------------------------

theorem isEscape_of_ne {buf : List Byte} {i : Nat} {c : Byte} (hbyte : byteAt buf i = .ok c)
    (hc : c ≠ percent) : isEscape buf i = .ok false := by
  rw [isEscape, hbyte, Except.ok_bind, if_pos hc]
  rfl

theorem charsetHost2MacLoop_skip {buf : List Byte} {i : Nat} (h : isEscape buf i = .ok false) :
    charsetHost2MacLoop (i + 1) buf = charsetHost2MacLoop i buf := by
  rw [charsetHost2MacLoop, h]
  rfl

/-- There is no escape that ends behind the string. -/
theorem isEscape_end (s rest : List Byte) {i : Nat} (hi : i < s.length) (hend : s.length ≤ i + 2) :
    isEscape (s ++ 0#8 :: rest) i = .ok false := by
  have hin {j : Nat} (hj : j < s.length) : byteAt (s ++ 0#8 :: rest) j = .ok s[j] := by
    rw [byteAt, Buffer.get, List.getElem?_append_left hj, List.getElem?_eq_getElem hj]
  have hnul : byteAt (s ++ 0#8 :: rest) s.length = .ok 0#8 := byteAt_append s 0#8 rest
  by_cases hc : s[i] = percent
  · rw [isEscape, hin hi, Except.ok_bind, if_neg (not_not.mpr hc)]
    rcases Nat.lt_or_ge (i + 1) s.length with hone | hone
    · have htwo : i + 2 = s.length := by omega
      rw [hin hone, Except.ok_bind, htwo, hnul]
      cases isxdigit s[i + 1] <;> rfl
    · have hone : i + 1 = s.length := by omega
      rw [hone, hnul]
      rfl
  · exact isEscape_of_ne (hin hi) hc

theorem charsetHost2MacLoop_end (s rest : List Byte) :
    charsetHost2MacLoop (s.length - 2) (s ++ 0#8 :: rest) =
      charsetHost2MacLoop s.length (s ++ 0#8 :: rest) := by
  rcases hlen : s.length with _ | _ | n
  · rfl
  · rw [charsetHost2MacLoop_skip (isEscape_end s rest (by omega) (by omega))]
  · rw [charsetHost2MacLoop_skip (isEscape_end s rest (by omega) (by omega)),
      charsetHost2MacLoop_skip (isEscape_end s rest (by omega) (by omega))]
    rfl

/-- An escape gives its character back and leaves two bytes more behind the string. -/
theorem removeEscape_eq (pre : List Byte) {c : Byte} (hc : converts c = true) {s : List Byte}
    (hs : 0#8 ∉ s) (rest : List Byte) :
    ∃ rest', rest'.length = rest.length + 2 ∧
      removeEscape (pre ++ (escape c ++ (s ++ 0#8 :: rest))) pre.length =
        .ok (pre ++ (c :: s ++ 0#8 :: rest')) := by
  obtain ⟨-, hlow, hvalue⟩ := escape_digits c hc
  set high := upperDigit (c >>> 4) with hhigh
  set low := upperDigit (c &&& 0x0f) with hlowdef
  have hbuf : pre ++ (escape c ++ (s ++ 0#8 :: rest)) =
      pre ++ [percent, high] ++ (low :: s ++ 0#8 :: rest) := by simp [escape, hhigh, hlowdef]
  have hplen : (pre ++ [percent, high]).length = pre.length + 2 := by simp
  have hfirst : byteAt (pre ++ [percent, high] ++ (low :: s ++ 0#8 :: rest)) (pre.length + 1) =
      .ok high := by
    have hsplit := byteAt_append (pre ++ [percent]) high (low :: s ++ 0#8 :: rest)
    simpa using hsplit
  have hsecond : byteAt (pre ++ [percent, high] ++ (low :: s ++ 0#8 :: rest)) (pre.length + 2) =
      .ok low := hplen ▸ byteAt_append (pre ++ [percent, high]) low (s ++ 0#8 :: rest)
  have hlen : strlen (pre ++ [percent, high] ++ (low :: s ++ 0#8 :: rest)) (pre.length + 2) =
      .ok (low :: s).length :=
    hplen ▸ strlen_append (pre ++ [percent, high])
      (by simp [hs, ((upperXdigit_cases low hlow).2.1).symm]) rest
  have hread : Buffer.read Fault.overrun (pre ++ [percent, high] ++ (low :: s ++ 0#8 :: rest))
      (pre.length + 2) ((low :: s).length + 1) = .ok (low :: s ++ [0#8]) := by
    have hpart := read_append (pre ++ [percent, high]) (low :: s ++ [0#8]) rest
    rw [hplen] at hpart
    simpa using hpart
  have hmove := @memmove_eq _ _ pre.length _ _ hread (by simp; omega)
  rw [hbuf, removeEscape, hfirst, Except.ok_bind, hsecond, Except.ok_bind, hvalue, hlen, Except.ok_bind,
    hmove, Except.ok_bind, List.append_assoc, Buffer.overwrite_length, List.append_assoc,
    Buffer.write_ok (by simp), Buffer.overwrite_length]
  exact ⟨([percent, high] ++ (low :: s ++ 0#8 :: rest)).drop (low :: s ++ [0#8]).length,
    by simp; omega, by simp⟩

/-- Only the first byte of an escape starts one. -/
theorem isEscape_escape (pre : List Byte) {c : Byte} (hc : converts c = true) (tail : List Byte) :
    isEscape (pre ++ (escape c ++ tail)) pre.length = .ok true ∧
      isEscape (pre ++ (escape c ++ tail)) (pre.length + 1) = .ok false ∧
      isEscape (pre ++ (escape c ++ tail)) (pre.length + 2) = .ok false := by
  obtain ⟨hhigh, hlow, -⟩ := escape_digits c hc
  have hfirst : byteAt (pre ++ (escape c ++ tail)) pre.length = .ok percent := byteAt_append pre _ _
  have hsecond : byteAt (pre ++ (escape c ++ tail)) (pre.length + 1) = .ok (upperDigit (c >>> 4)) := by
    have hsplit := byteAt_append (pre ++ [percent]) (upperDigit (c >>> 4))
      (upperDigit (c &&& 0x0f) :: tail)
    simpa [escape] using hsplit
  have hthird : byteAt (pre ++ (escape c ++ tail)) (pre.length + 2) =
      .ok (upperDigit (c &&& 0x0f)) := by
    have hsplit := byteAt_append (pre ++ [percent, upperDigit (c >>> 4)]) (upperDigit (c &&& 0x0f)) tail
    simpa [escape] using hsplit
  refine ⟨?_, isEscape_of_ne hsecond (upperXdigit_cases _ hhigh).2.2.1,
    isEscape_of_ne hthird (upperXdigit_cases _ hlow).2.2.1⟩
  rw [isEscape, hfirst, Except.ok_bind, if_neg (by simp), hsecond, Except.ok_bind, hthird,
    Except.ok_bind, (upperXdigit_cases _ hhigh).1, (upperXdigit_cases _ hlow).1]
  rfl

/-- The loop reads the escapes in front of its position. -/
theorem charsetHost2MacLoop_eq {s : List Byte} (hs : 0#8 ∉ s) {done rest : List Byte}
    (hdone : 0#8 ∉ done) :
    ∃ rest', rest'.length = rest.length + growth s ∧
      charsetHost2MacLoop (encode s).length (encode s ++ (done ++ 0#8 :: rest)) =
        .ok (s ++ (done ++ 0#8 :: rest')) := by
  induction s using List.reverseRecOn generalizing done rest with
  | nil => exact ⟨rest, rfl, rfl⟩
  | append_singleton s c ih =>
    have hs' : 0#8 ∉ s := fun h => hs (List.mem_append_left _ h)
    have hc : c ≠ 0#8 := fun h => hs (by simp [h])
    rw [encode_concat, encodeChar]
    by_cases hconverts : converts c = true
    · rw [if_pos hconverts, List.append_assoc]
      obtain ⟨hfirst, hsecond, hthird⟩ :=
        isEscape_escape (encode s) hconverts (done ++ 0#8 :: rest)
      obtain ⟨rest₁, hlen₁, hremove⟩ := removeEscape_eq (encode s) hconverts hdone rest
      obtain ⟨rest₂, hlen₂, hloop⟩ := @ih hs' (c :: done) rest₁ (by simp [hdone, hc.symm])
      have hgrowth : growth (s ++ [c]) = growth s + 2 := by simp [growth, hconverts, mul_add]
      refine ⟨rest₂, by omega, ?_⟩
      rw [show (encode s ++ escape c).length = (encode s).length + 3 by simp [escape],
        charsetHost2MacLoop_skip hthird, charsetHost2MacLoop_skip hsecond, charsetHost2MacLoop, hfirst,
        Except.ok_bind, if_pos rfl, hremove, Except.ok_bind, hloop]
      simp
    · rw [if_neg hconverts, List.append_assoc]
      have hpercent : c ≠ percent := by
        rintro rfl
        exact hconverts converts_percent
      obtain ⟨rest', hlen, hloop⟩ := @ih hs' (c :: done) rest (by simp [hdone, hc.symm])
      have hgrowth : growth (s ++ [c]) = growth s := by simp [growth, hconverts]
      refine ⟨rest', by omega, ?_⟩
      rw [List.length_append, List.length_singleton, List.singleton_append,
        charsetHost2MacLoop_skip (isEscape_of_ne (byteAt_append (encode s) c _) hpercent),
        ← List.cons_append, hloop]
      simp

-- ---------------------------------------------------------------------------
-- Names
-- ---------------------------------------------------------------------------

/-- `iscntrl` -/
def iscntrl (c : Byte) : Bool := c < 0x20#8 || c == 0x7f#8

/-- What a host name is not to contain, with `p` for the control characters. -/
def Forbidden (p : Byte → Bool) (c : Byte) : Prop :=
  c ∈ [0x2f#8, 0x2a#8, 0x3f#8, 0x22#8, 0x3c#8, 0x3e#8, 0x7c#8] ∨ p c = true

/-- A percent sign is in front of two upper-case hexadecimal digits. -/
def OnlyEscapes (t : List Byte) : Prop :=
  ∀ i, t[i]? = some percent → ∃ high low, t[i + 1]? = some high ∧ t[i + 2]? = some low ∧
    isUpperXdigit high = true ∧ isUpperXdigit low = true

theorem onlyEscapes_encode (s : List Byte) : OnlyEscapes (encode s) := by
  induction s with
  | nil => intro i h; cases h
  | cons c s ih =>
    intro i h
    have hcons : encode (c :: s) = encodeChar c ++ encode s := rfl
    rw [hcons, encodeChar] at h ⊢
    by_cases hc : converts c = true
    · obtain ⟨hhigh, hlow, -⟩ := escape_digits c hc
      rw [if_pos hc] at h ⊢
      match i with
      | 0 => exact ⟨_, _, rfl, rfl, hhigh, hlow⟩
      | 1 => exact absurd (Option.some.inj h) (upperXdigit_cases _ hhigh).2.2.1
      | 2 => exact absurd (Option.some.inj h) (upperXdigit_cases _ hlow).2.2.1
      | i + 3 => exact ih i h
    · rw [if_neg hc] at h ⊢
      match i with
      | 0 => exact absurd (Option.some.inj h ▸ converts_percent) hc
      | i + 1 => exact ih i h

theorem not_forbidden_encode {s : List Byte} {c : Byte} (h : c ∈ encode s) :
    ¬Forbidden (fun c => c < 0x20#8) c := by
  have hconverts (d : Byte) (hd : Forbidden (fun c => c < 0x20#8) d) :
      converts d = true ∧ d ≠ percent := by
    rcases hd with hd | hd
    · refine ⟨?_, ?_⟩
      · simp only [converts, Bool.or_eq_true, decide_eq_true_eq, List.mem_cons] at hd ⊢
        tauto
      · rintro rfl
        exact absurd hd (by decide)
    · refine ⟨by simp only [converts, hd, Bool.or_true], ?_⟩
      rintro rfl
      exact absurd hd (by decide)
  intro hforbidden
  obtain ⟨hc, hpercent⟩ := hconverts c hforbidden
  obtain ⟨d, -, hd⟩ := List.mem_flatMap.mp h
  rw [encodeChar] at hd
  split_ifs at hd with hdc
  · obtain ⟨hhigh, hlow, -⟩ := escape_digits d hdc
    simp only [escape, List.mem_cons, List.not_mem_nil, or_false] at hd
    rcases hd with rfl | rfl | rfl
    · exact hpercent rfl
    · exact absurd (hc.symm.trans (upperXdigit_cases _ hhigh).2.2.2) (by decide)
    · exact absurd (hc.symm.trans (upperXdigit_cases _ hlow).2.2.2) (by decide)
  · obtain rfl := List.mem_singleton.mp hd
    exact hdc hc

-- ---------------------------------------------------------------------------
-- There and back
-- ---------------------------------------------------------------------------

theorem charsetMac2Host_eq {s : List Byte} (hs : 0#8 ∉ s) {rest : List Byte}
    (hroom : growth s ≤ rest.length) :
    charsetMac2Host (s ++ 0#8 :: rest) = .ok (encode s ++ 0#8 :: rest.drop (growth s)) := by
  have hlen : strlen (s ++ 0#8 :: rest) 0 = .ok s.length := strlen_append [] hs rest
  have hloop := @charsetMac2HostLoop_eq s hs [] rest (by simp) hroom
  rw [charsetMac2Host, hlen, Except.ok_bind]
  exact hloop

theorem charsetHost2Mac_eq {s : List Byte} (hs : 0#8 ∉ s) (rest : List Byte) :
    ∃ rest', rest'.length = rest.length + growth s ∧
      charsetHost2Mac (encode s ++ 0#8 :: rest) = .ok (s ++ 0#8 :: rest') := by
  have hlen : strlen (encode s ++ 0#8 :: rest) 0 = .ok (encode s).length :=
    strlen_append [] (noNul_encode hs) rest
  obtain ⟨rest', hrest, hloop⟩ := @charsetHost2MacLoop_eq s hs [] rest (by simp)
  refine ⟨rest', hrest, ?_⟩
  rw [charsetHost2Mac, hlen, Except.ok_bind, charsetHost2MacLoop_end]
  exact hloop

/-- A name in a buffer that has room for three times its length. -/
structure Roomy (buf : List Byte) : Prop where
  terminated : 0#8 ∈ buf
  room : 3 * (CString.ofBuffer buf).val.length + 1 ≤ buf.length

theorem eq_of_terminated {buf : List Byte} (h : 0#8 ∈ buf) :
    ∃ rest, buf = (CString.ofBuffer buf).val ++ 0#8 :: rest := by
  obtain ⟨s, rest, rfl, hs⟩ := List.eq_append_cons_of_mem h
  exact ⟨rest, by rw [CString.ofBuffer_terminated ⟨s, hs⟩ rest]⟩

theorem ofBuffer_encode (s : CString) (rest : List Byte) :
    (CString.ofBuffer (encode s.val ++ 0#8 :: rest)).val = encode s.val := by
  rw [CString.ofBuffer_terminated ⟨encode s.val, noNul_encode s.noNul⟩ rest]

/-- A roomy buffer is escaped to the encoded name. -/
theorem Roomy.charsetMac2Host {buf : List Byte} (h : Roomy buf) :
    ∃ rest, Charset.charsetMac2Host buf = .ok (encode (CString.ofBuffer buf).val ++ 0#8 :: rest) := by
  obtain ⟨rest, hbuf⟩ := eq_of_terminated h.terminated
  have hcount : growth (CString.ofBuffer buf).val ≤ 2 * (CString.ofBuffer buf).val.length :=
    Nat.mul_le_mul_left 2 List.countP_le_length
  have hlen : buf.length = (CString.ofBuffer buf).val.length + (rest.length + 1) := by
    conv_lhs => rw [hbuf]
    simp
  have hroom := h.room
  rw [hbuf, CString.ofBuffer_terminated]
  exact ⟨_, charsetMac2Host_eq (CString.ofBuffer buf).noNul (by omega)⟩

/-- The host name is free of forbidden characters, with `p` for the control
characters, and the name comes back from it. In any buffer, the host name comes
back from that name. -/
def Reversible (p : Byte → Bool) (buf : List Byte) : Prop :=
  ∃ host, charsetMac2Host buf = .ok host ∧ 0#8 ∈ host ∧
    (∀ c ∈ (CString.ofBuffer host).val, ¬Forbidden p c) ∧
    OnlyEscapes (CString.ofBuffer host).val ∧
    (∃ mac, charsetHost2Mac host = .ok mac ∧ CString.ofBuffer mac = CString.ofBuffer buf) ∧
    ∀ other, 0#8 ∈ other → CString.ofBuffer other = CString.ofBuffer host →
      ∃ mac again, charsetHost2Mac other = .ok mac ∧ charsetMac2Host mac = .ok again ∧
        CString.ofBuffer again = CString.ofBuffer host

/-- A name in another buffer with the same host name is the same name. -/
def Injective (buf : List Byte) : Prop :=
  ∀ buf', Roomy buf' → ∀ host host', charsetMac2Host buf = .ok host → charsetMac2Host buf' = .ok host' →
    CString.ofBuffer host = CString.ofBuffer host' → CString.ofBuffer buf = CString.ofBuffer buf'

theorem encode_injective {s s' : CString} (h : encode s.val = encode s'.val) : s = s' := by
  obtain ⟨rest₁, -, hs⟩ := charsetHost2Mac_eq s.noNul []
  obtain ⟨rest₂, -, hs'⟩ := charsetHost2Mac_eq s'.noNul []
  rw [h, hs'] at hs
  have hbuf := congrArg CString.ofBuffer (Except.ok.inj hs)
  rw [CString.ofBuffer_terminated, CString.ofBuffer_terminated] at hbuf
  exact hbuf.symm

/-- Names are escaped and come back, the control characters being those below
the space. -/
theorem reversible (buf : List Byte) (h : Roomy buf) :
    Reversible (fun c => c < 0x20#8) buf ∧ Injective buf := by
  obtain ⟨rest, hhost⟩ := h.charsetMac2Host
  generalize hname : CString.ofBuffer buf = s at hhost
  constructor
  · refine ⟨_, hhost, by simp, ?_, ?_, ?_, ?_⟩
    · rw [ofBuffer_encode]
      exact fun c hc => not_forbidden_encode hc
    · rw [ofBuffer_encode]
      exact onlyEscapes_encode s.val
    · obtain ⟨rest', -, hmac⟩ := charsetHost2Mac_eq s.noNul rest
      exact ⟨_, hmac, by rw [CString.ofBuffer_terminated, hname]⟩
    · intro other hnul hother
      obtain ⟨rest₁, hbuf⟩ := eq_of_terminated hnul
      rw [hother, ofBuffer_encode] at hbuf
      obtain ⟨rest₂, hlen, hmac⟩ := charsetHost2Mac_eq s.noNul rest₁
      refine ⟨_, _, hbuf ▸ hmac, charsetMac2Host_eq s.noNul (by omega), ?_⟩
      exact CString.ext (by rw [ofBuffer_encode, ofBuffer_encode])
  · intro buf' h' host host' hrun hrun' hsame
    obtain ⟨rest', hhost'⟩ := h'.charsetMac2Host
    obtain rfl := Except.ok.inj (hhost.symm.trans hrun)
    obtain rfl := Except.ok.inj (hhost'.symm.trans hrun')
    have hencoded := congrArg CString.val hsame
    rw [ofBuffer_encode, ofBuffer_encode] at hencoded
    rw [hname]
    exact encode_injective hencoded

/-- The name `a/%`. -/
theorem reversible_slash :
    Reversible (fun c => c < 0x20#8) (ascii "a/%" ++ 0#8 :: List.replicate 6 0x55) ∧
      Injective (ascii "a/%" ++ 0#8 :: List.replicate 6 0x55) :=
  reversible _ ⟨by decide, by decide⟩

/-- A delete character is a control character and stays as it is. -/
theorem delete_not_escaped :
    Roomy [0x7f#8, 0#8, 0#8, 0#8] ∧ ¬Reversible iscntrl [0x7f#8, 0#8, 0#8, 0#8] := by
  refine ⟨⟨by decide, by decide⟩, ?_⟩
  rintro ⟨host, hhost, -, hallowed, -⟩
  have hrun : charsetMac2Host [0x7f#8, 0#8, 0#8, 0#8] = .ok [0x7f#8, 0#8, 0#8, 0#8] := by decide
  obtain rfl := Except.ok.inj (hrun.symm.trans hhost)
  exact hallowed 0x7f#8 (by decide) (.inr (by decide))

end SheepShear.ExtFs.Charset
