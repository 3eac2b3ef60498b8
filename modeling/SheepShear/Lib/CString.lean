import SheepShear.Lib.Bytes

/-!
# C strings and the C library functions on them

Strings without their terminator, the classification of `isspace` in the C
locale, decimal output and input, and line input. The terminator and the
buffers around a string are explicit in the functions that read memory.
-/

namespace SheepShear

-- ---------------------------------------------------------------------------
-- Strings
-- ---------------------------------------------------------------------------

/-- The bytes of a C string in front of its terminator. -/
@[ext]
structure CString where
  val : List Byte
  noNul : 0#8 ∉ val
deriving DecidableEq

/-- What a reader sees in a buffer that is followed by a `'\0'`. -/
def CString.ofBuffer (bytes : List Byte) : CString :=
  ⟨bytes.takeWhile (· ≠ 0#8), fun h => by simpa using List.mem_takeWhile_imp h⟩

theorem CString.ofBuffer_bytes (s : CString) : CString.ofBuffer s.val = s := by
  apply CString.ext
  simp only [CString.ofBuffer]
  rw [List.takeWhile_eq_self_iff]
  intro b hb
  simpa using fun h : b = 0#8 => s.noNul (h ▸ hb)

theorem CString.ofBuffer_terminated (s : CString) (rest : List Byte) :
    CString.ofBuffer (s.val ++ 0#8 :: rest) = s := by
  apply CString.ext
  have hs : ∀ b ∈ s.val, decide (b ≠ 0#8) = true := by
    intro b hb
    simpa using fun h : b = 0#8 => s.noNul (h ▸ hb)
  simp only [CString.ofBuffer]
  rw [List.takeWhile_append_of_pos hs]
  simp

/-- The bytes of an ASCII string literal. -/
def ascii (s : String) : List Byte := s.toList.map fun c => BitVec.ofNat 8 c.toNat

def newline : Byte := 0x0a#8
def space : Byte := 0x20#8

/-- `isspace` in the C locale. -/
def isspace (c : Byte) : Bool := c == 0x20#8 || (0x09#8 ≤ c && c ≤ 0x0d#8)

-- ---------------------------------------------------------------------------
-- Decimal numbers
-- ---------------------------------------------------------------------------

def digitByte (d : Nat) : Byte := BitVec.ofNat 8 (48 + d)

def isdigit (c : Byte) : Bool := 0x30#8 ≤ c && c ≤ 0x39#8

def printNat (n : Nat) : List Byte :=
  if n = 0 then [digitByte 0] else (Nat.digits 10 n).reverse.map digitByte

/-- The conversion `%d`. -/
def printInt (v : Int) : List Byte :=
  if v < 0 then 0x2d#8 :: printNat v.natAbs else printNat v.natAbs

def scanDigits : List Byte → Nat → Nat
  | [], acc => acc
  | c :: cs, acc => if isdigit c then scanDigits cs (acc * 10 + (c.toNat - 48)) else acc

/-- A number outside the range of a 64-bit `long` is clamped to it. -/
def clampLong (v : Int) : Int := max (-2 ^ 63) (min (2 ^ 63 - 1) v)

def scanInt : List Byte → Int
  | [] => 0
  | c :: cs =>
    if c = 0x2d#8 then -(scanDigits cs 0 : Int)
    else if c = 0x2b#8 then scanDigits cs 0
    else scanDigits (c :: cs) 0

def atol (s : List Byte) : Int := clampLong (scanInt (s.dropWhile isspace))

theorem isdigit_digitByte (h : d < 10) : isdigit (digitByte d) = true := by
  interval_cases d <;> rfl

theorem digitByte_toNat (h : d < 10) : (digitByte d).toNat - 48 = d := by
  interval_cases d <;> rfl

theorem scanDigits_map_digitByte (ds : List Nat) (h : ∀ d ∈ ds, d < 10) (acc : Nat) :
    scanDigits (ds.map digitByte) acc = ds.foldl (fun a d => a * 10 + d) acc := by
  induction ds generalizing acc with
  | nil => rfl
  | cons d ds ih =>
    have hd := h d (List.mem_cons_self ..)
    simp only [List.map_cons, scanDigits, isdigit_digitByte hd, if_true, digitByte_toNat hd,
      List.foldl_cons]
    exact ih (fun e he => h e (List.mem_cons_of_mem _ he)) _

theorem scanDigits_printNat (n : Nat) : scanDigits (printNat n) 0 = n := by
  unfold printNat
  split
  · next h => subst h; rfl
  · rw [scanDigits_map_digitByte _ fun d hd => Nat.digits_lt_base (by norm_num)
      (List.mem_reverse.mp hd)]
    conv_rhs => rw [← Nat.ofDigits_digits 10 n, Nat.ofDigits_eq_foldr]
    rw [List.foldl_reverse]
    simp [Nat.add_comm, Nat.mul_comm]

/-- No digit string starts with white space or a sign, or holds a newline or a
terminator. -/
theorem printNat_digit (hc : c ∈ printNat n) : isdigit c = true := by
  unfold printNat at hc
  split at hc
  · simp only [List.mem_singleton] at hc
    subst hc
    rfl
  · obtain ⟨d, hd, rfl⟩ := List.mem_map.mp hc
    exact isdigit_digitByte (Nat.digits_lt_base (by norm_num) (List.mem_reverse.mp hd))

theorem printNat_ne_nil (n : Nat) : printNat n ≠ [] := by
  unfold printNat
  split
  · simp
  · next h => simpa using Nat.digits_ne_nil_iff_ne_zero.mpr h

theorem printNat_cons (n : Nat) : ∃ c cs, printNat n = c :: cs ∧ isdigit c = true := by
  obtain ⟨c, cs, hcs⟩ := List.exists_cons_of_ne_nil (printNat_ne_nil n)
  exact ⟨c, cs, hcs, printNat_digit (hcs ▸ List.mem_cons_self ..)⟩

theorem isdigit_not_special (h : isdigit c = true) :
    isspace c = false ∧ c ≠ 0x2d#8 ∧ c ≠ 0x2b#8 ∧ c ≠ 0#8 ∧ c ≠ newline := by
  revert c
  decide

theorem atol_printInt (hlo : -2 ^ 63 ≤ v) (hhi : v < 2 ^ 63) : atol (printInt v) = v := by
  obtain ⟨c, cs, hcs, hc⟩ := printNat_cons v.natAbs
  have hscan : scanDigits (c :: cs) 0 = v.natAbs := by rw [← hcs, scanDigits_printNat]
  obtain ⟨hspace, hminus, hplus, -, -⟩ := isdigit_not_special hc
  have hminus' : isspace 0x2d#8 = false := rfl
  unfold printInt
  split
  · simp only [atol, List.dropWhile_cons, hminus', Bool.false_eq_true, if_false, scanInt, hcs,
      hscan, if_true, clampLong]
    omega
  · simp only [atol, hcs, List.dropWhile_cons, hspace, Bool.false_eq_true, if_false, scanInt,
      hminus, hplus, hscan, clampLong]
    omega

-- ---------------------------------------------------------------------------
-- Line input
-- ---------------------------------------------------------------------------

/-- At most `n` bytes of the text, up to and with the first newline. -/
def fgetsChunk : Nat → List Byte → List Byte × List Byte
  | 0, text => ([], text)
  | _ + 1, [] => ([], [])
  | n + 1, c :: text =>
    if c = newline then ([c], text)
    else
      let (chunk, rest) := fgetsChunk n text
      (c :: chunk, rest)

theorem fgetsChunk_line (line text : List Byte) (hl : newline ∉ line) (hn : line.length < n) :
    fgetsChunk n (line ++ newline :: text) = (line ++ [newline], text) := by
  induction line generalizing n with
  | nil =>
    obtain ⟨n, rfl⟩ := Nat.exists_eq_add_one_of_ne_zero (Nat.ne_of_gt hn)
    simp [fgetsChunk]
  | cons c line ih =>
    obtain ⟨n, rfl⟩ := Nat.exists_eq_add_one_of_ne_zero (Nat.ne_of_gt (Nat.zero_lt_of_lt hn))
    simp only [List.mem_cons, not_or] at hl
    simp only [List.length_cons, Nat.add_lt_add_iff_right] at hn
    simp [fgetsChunk, Ne.symm hl.1, ih hl.2 hn]

theorem fgetsChunk_length (n : Nat) (text : List Byte) :
    (fgetsChunk n text).1.length + (fgetsChunk n text).2.length = text.length := by
  fun_induction fgetsChunk n text <;> simp_all <;> omega

/-- A nonempty text yields a nonempty chunk. -/
theorem fgetsChunk_shorter (n : Nat) (c : Byte) (text : List Byte) :
    (fgetsChunk (n + 1) (c :: text)).2.length < (c :: text).length := by
  have := fgetsChunk_length n text
  unfold fgetsChunk
  split <;> simp <;> omega

end SheepShear
