import SheepShear.Lib.Bytes
import SheepShear.Lib.WrapRing

/-!
# The buffers of a socket

`slirp/sbuf.c`: a ring with a count, a read and a write pointer. The pointers are
offsets from `sb_data`, and copies outside it are faults.
-/

namespace SheepShear.Slirp

open Buffer WrapRing

inductive Fault where
  | outside
  | divideByZero
deriving DecidableEq, Repr

/-- `sb_cc` is an unsigned word, and `datalen` is the length that `sbreserve` noted. -/
structure Sbuf where
  cc : Nat
  datalen : Nat
  wptr : Nat
  rptr : Nat
  data : List Byte
  /-- `sb_data` is not null. -/
  allocated : Bool
deriving DecidableEq, Repr

def uintSize : Nat := 2 ^ 32

/-- As `memset` in `socreate` leaves it. -/
def Sbuf.zero : Sbuf := ⟨0, 0, 0, 0, [], false⟩

def sbspace (sb : Sbuf) : Nat := (sb.datalen + uintSize - sb.cc) % uintSize

/-- `memory` is what `malloc` or `realloc` answers. -/
def sbreserve (sb : Sbuf) (size : Nat) (memory : Option (List Byte)) : Sbuf :=
  if sb.allocated = true ∧ sb.datalen = size then sb
  else match memory with
    | some data => ⟨0, size, 0, 0, data, true⟩
    | none => ⟨0, 0, 0, 0, [], false⟩

/-- `num` is compared with the count as an unsigned word. -/
def sbdrop (sb : Sbuf) (num : Nat) : Sbuf :=
  let num := if num > sb.cc then sb.cc else num
  { sb with cc := sb.cc - num, rptr := wrap sb.datalen (sb.rptr + num) }

/-- `n` bytes were added. -/
def Sbuf.filled (sb : Sbuf) (data : List Byte) (n : Nat) : Sbuf :=
  { sb with
    cc := (sb.cc + n) % uintSize
    wptr := wrap sb.datalen (sb.wptr + n)
    data := data }

def sbappendsb (sb : Sbuf) (m : List Byte) : Except Fault Sbuf := do
  let len := m.length
  if sb.wptr < sb.rptr then
    let n := min (sb.rptr - sb.wptr) len
    let data ← write .outside sb.data sb.wptr (m.take n)
    return sb.filled data n
  else
    -- the right edge first
    let n := min (sb.datalen - sb.wptr) len
    let data ← write .outside sb.data sb.wptr (m.take n)
    let len := len - n
    if len ≠ 0 then
      let nn := min sb.rptr len
      let data ← write .outside data 0 ((m.drop n).take nn)
      return sb.filled data (n + nn)
    else
      return sb.filled data n

def sbcopy (sb : Sbuf) (off len : Nat) : Except Fault (List Byte) := do
  let start := wrap sb.datalen (sb.rptr + off)
  if start < sb.wptr then
    let len := if len > sb.cc then sb.cc else len
    read .outside sb.data start len
  else
    let off := min (sb.datalen - start) len
    let first ← read .outside sb.data start off
    let len := len - off
    if len ≠ 0 then
      let rest ← read .outside sb.data 0 len
      return first ++ rest
    else
      return first

-- ---------------------------------------------------------------------------
-- What a buffer holds
-- ---------------------------------------------------------------------------

/-- The bytes of the buffer, first to last. -/
structure Sbuf.Holds (sb : Sbuf) (xs : List Byte) : Prop where
  ring : WrapRing.Holds sb.data sb.rptr sb.wptr xs
  count : sb.cc = xs.length
  datalen : sb.datalen = sb.data.length
  small : sb.data.length < uintSize

variable {sb sb' : Sbuf} {xs m : List Byte} {off len num : Nat}

namespace Sbuf.Holds

theorem length_le (h : sb.Holds xs) : xs.length ≤ sb.datalen := h.datalen ▸ h.ring.length_le

theorem sbspace_eq (h : sb.Holds xs) : sbspace sb = sb.datalen - xs.length := by
  have hle := h.length_le
  have hsmall := h.small
  rw [← h.datalen] at hsmall
  rw [sbspace, h.count, show sb.datalen + uintSize - xs.length =
    (sb.datalen - xs.length) + uintSize by omega, Nat.add_mod_right, Nat.mod_eq_of_lt (by omega)]

theorem reserve {data : List Byte} (hsize : data.length = len) (hpos : 0 < len)
    (hsmall : len < uintSize) : (sbreserve Sbuf.zero len (some data)).Holds [] := by
  subst hsize
  exact ⟨.empty hpos, rfl, rfl, hsmall⟩

theorem drop (h : sb.Holds xs) (hnum : num ≤ xs.length) : (sbdrop sb num).Holds (xs.drop num) := by
  have hring := h.ring.drop hnum
  rw [← h.datalen] at hring
  rw [sbdrop, if_neg (by rw [h.count]; omega)]
  exact ⟨hring, by rw [h.count, List.length_drop], h.datalen, h.small⟩

/-- A count that is too large drops everything. -/
theorem drop_all (h : sb.Holds xs) (hnum : xs.length < num) : sbdrop sb num = sbdrop sb xs.length := by
  rw [sbdrop, sbdrop, if_pos (by rw [h.count]; omega), if_neg (by rw [h.count]; omega), h.count]

/-- Bytes are put behind the others. -/
theorem filled (h : sb.Holds xs) (hroom : xs.length + m.length ≤ sb.datalen) :
    (sb.filled (put sb.data sb.wptr m) m.length).Holds (xs ++ m) := by
  have hsmall := h.small
  have hdata := h.datalen
  have hroom' : xs.length + m.length ≤ sb.data.length := by omega
  have hput := h.ring.put hroom'
  have hlen : (put sb.data sb.wptr m).length = sb.data.length :=
    length_put h.ring.write_lt.le (by omega)
  have hcount : (sb.cc + m.length) % uintSize = (xs ++ m).length := by
    rw [h.count, List.length_append, Nat.mod_eq_of_lt (by omega)]
  rw [← hdata] at hput
  exact ⟨hput, hcount, hdata.trans hlen.symm, hlen ▸ hsmall⟩

/-- With room for all of it, the data is added to the bytes. -/
theorem append (h : sb.Holds xs) (hroom : xs.length + m.length ≤ sb.datalen) :
    ∃ sb', sbappendsb sb m = .ok sb' ∧ sb'.Holds (xs ++ m) ∧ sb'.datalen = sb.datalen := by
  have hdata := h.datalen
  have hr := h.ring.read_lt
  have hw := h.ring.write_lt
  have hcases := h.ring.length_cases
  refine ⟨sb.filled (put sb.data sb.wptr m) m.length, ?_, h.filled hroom, rfl⟩
  rw [sbappendsb]
  dsimp only
  by_cases hwr : sb.wptr < sb.rptr
  · have hfits : sb.wptr + m.length ≤ sb.data.length := by omega
    rw [if_pos hwr, min_eq_right (by omega), List.take_length, write_ok hfits, put_of_fits hfits]
    rfl
  · rw [if_neg hwr, hdata]
    rcases Nat.lt_or_ge (sb.data.length - sb.wptr) m.length with hedge | hfits
    · have hfirst : sb.wptr + (m.take (sb.data.length - sb.wptr)).length ≤ sb.data.length := by
        rw [List.length_take]
        omega
      have hrest : (m.drop (sb.data.length - sb.wptr)).take (m.length - (sb.data.length - sb.wptr)) =
          m.drop (sb.data.length - sb.wptr) := List.take_of_length_le (List.length_drop ..).le
      have hleft : 0 + (m.drop (sb.data.length - sb.wptr)).length ≤
          (overwrite sb.data sb.wptr (m.take (sb.data.length - sb.wptr))).length := by
        rw [length_overwrite hfirst, List.length_drop]
        omega
      rw [min_eq_left hedge.le, write_ok hfirst, Except.ok_bind, if_pos (by omega),
        min_eq_right (by omega), hrest, write_ok hleft, Except.ok_bind,
        Nat.add_sub_cancel' hedge.le]
      rfl
    · have hfits' : sb.wptr + m.length ≤ sb.data.length := by omega
      rw [min_eq_right hfits, List.take_length, write_ok hfits', Except.ok_bind,
        if_neg (by omega), put_of_fits hfits']
      rfl

/-- A copy gives the bytes at its offset. -/
theorem copy (h : sb.Holds xs) (hlen : off + len ≤ xs.length) :
    sbcopy sb off len = .ok ((xs.drop off).take len) := by
  have hdata := h.datalen
  have hring := h.ring.drop (k := off) (by omega)
  rw [← hdata] at hring
  rw [sbcopy]
  dsimp only
  generalize wrap sb.datalen (sb.rptr + off) = start at hring ⊢
  have hr := hring.read_lt
  have hw := hring.write_lt
  have hrest : (xs.drop off).length = xs.length - off := List.length_drop ..
  have hread := hring.read (k := len) (by omega)
  have hcases := hring.length_cases
  by_cases hwr : start < sb.wptr
  · rw [if_pos hwr, if_neg (by rw [h.count]; omega), read_ok (by omega), hread, if_pos hwr]
  · rw [if_neg hwr] at hread ⊢
    rcases Nat.lt_or_ge (sb.datalen - start) len with hedge | hfits
    · have htail : (sb.data.drop start).length = sb.datalen - start := by
        rw [List.length_drop, hdata]
      have hfirst : (sb.data.drop start).take (sb.datalen - start) = (sb.data.drop start).take len := by
        rw [List.take_of_length_le htail.le, List.take_of_length_le (by omega)]
      rw [min_eq_left hedge.le, read_ok (by omega), Except.ok_bind, if_pos (by omega),
        read_ok (by omega), Except.ok_bind, hread, List.drop_zero, ← hdata, hfirst]
      rfl
    · rw [min_eq_right hfits, read_ok (by omega), Except.ok_bind, if_neg (by omega), hread,
        show len - (sb.data.length - start) = 0 by omega, List.take_zero, List.append_nil]
      rfl

end Sbuf.Holds

end SheepShear.Slirp
