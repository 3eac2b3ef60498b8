import SheepShear.Lib.Buffer
import SheepShear.Lib.Bytes

/-!
# Window properties of the X server

`read_property` of `clip_unix.cpp` over the properties of one window. A
property is read in slices, whose offset and length count 32-bit words of the
property, into a buffer that counts bytes of the client, where an item of
32 bits is a `long`.
-/

namespace SheepShear.Clip

-- ---------------------------------------------------------------------------
-- Properties
-- ---------------------------------------------------------------------------

abbrev Atom := BitVec 32

/-- The atom that is not one. -/
def None : Atom := 0

def XA_INTEGER : Atom := 19
def XA_STRING : Atom := 31

inductive Format where
  | bits8
  | bits16
  | bits32
  deriving DecidableEq, Repr

namespace Format

def bits : Format → Nat
  | .bits8 => 8
  | .bits16 => 16
  | .bits32 => 32

/-- `format_inc`, with `sizeof(short)` and `sizeof(long)` of a 64-bit host. -/
def inc : Format → Nat
  | .bits8 => 1
  | .bits16 => 2 / 2
  | .bits32 => 8 / 4

/-- The bytes of an item in the memory of the client. -/
def size (f : Format) : Nat := f.inc * (f.bits / 8)

/-- The items in one word of a property. -/
def perWord (f : Format) : Nat := 32 / f.bits

/-- An item as the client sees it: an item of 32 bits is sign-extended. -/
def bytes (f : Format) (item : Word) : List Byte :=
  (List.range f.size).map fun i => (item.signExtend 64).extractLsb' (8 * i) 8

theorem perWord_pos (f : Format) : 0 < f.perWord := by cases f <;> decide

theorem perWord_mul_bits (f : Format) : f.perWord * (f.bits / 8) = 4 := by cases f <;> rfl

theorem bits_pos (f : Format) : 0 < f.bits / 8 := by cases f <;> decide

@[simp] theorem length_bytes (f : Format) (item : Word) : (f.bytes item).length = f.size := by
  simp [bytes]

theorem length_flatMap_bytes (f : Format) (items : List Word) :
    (items.flatMap f.bytes).length = items.length * f.size := by
  induction items with
  | nil => simp
  | cons item items ih =>
    rw [List.flatMap_cons, List.length_append, ih, length_bytes, List.length_cons]
    ring

end Format

structure Property where
  type : Atom
  format : Format
  items : List Word

namespace Property

/-- What a client gets of the property. -/
def bytes (prop : Property) : List Byte := prop.items.flatMap prop.format.bytes

theorem length_bytes (prop : Property) : prop.bytes.length = prop.items.length * prop.format.size :=
  prop.format.length_flatMap_bytes prop.items

end Property

-- ---------------------------------------------------------------------------
-- The server
-- ---------------------------------------------------------------------------

/-- A window, with the atoms that the server knows and whether an error event
is on its way to the client. -/
structure Window where
  interned : Atom → Bool
  property : Atom → Option Property
  error : Bool

structure Reply where
  type : Atom
  format : Option Format
  items : List Word
  bytesAfter : Nat

/-- The reply, if there is one: the error handler, which is the default one,
returns from no error. -/
def xGetWindowProperty (w : Window) (property : Atom) (offset length : Nat) : Option Reply :=
  if w.error || !w.interned property then none
  else
    match w.property property with
    | none => some { type := None, format := none, items := [], bytesAfter := 0 }
    | some prop =>
      let start := offset * prop.format.perWord
      if prop.items.length < start then none
      else
        let items := (prop.items.drop start).take (length * prop.format.perWord)
        some { type := prop.type
               format := some prop.format
               items := items
               bytesAfter := (prop.items.length - start - items.length) * (prop.format.bits / 8) }

/-- An atom that the server does not know is an error, of which the client
hears at its next reply. -/
def xChangeProperty (w : Window) (property : Atom) (prop : Property) : Window :=
  if w.interned property then
    { w with property := fun a => if a = property then some prop else w.property a }
  else { w with error := true }

def xDeleteProperty (w : Window) (property : Atom) : Window :=
  if w.interned property then
    { w with property := fun a => if a = property then none else w.property a }
  else { w with error := true }

-- ---------------------------------------------------------------------------
-- read_property
-- ---------------------------------------------------------------------------

/-- A connection to a server, with the largest request it takes. -/
structure Display where
  maxRequestSize : Nat
  enough : 4096 ≤ maxRequestSize
  card16 : maxRequestSize < 65536

/-- Why a call does not return. -/
inductive Stop where
  | overflow -- the size of the buffer is not an `int`
  | overrun -- a copy past the end of the buffer
  | divisionByZero
  | fuel -- it still runs
  deriving DecidableEq, Repr

structure Read where
  buffer : List Byte
  size : Nat
  type : Atom
  format : Option Format
  window : Window

def maxSelectionIncr (dpy : Display) : Nat :=
  if 4 * 65536 < 4 * dpy.maxRequestSize then 4 * 65536
  else if 4 * dpy.maxRequestSize < 100 then 100
  else 4 * dpy.maxRequestSize - 100

/-- The loop over the slices. It ends early when the server has no reply. -/
def readSlices (w : Window) (property : Atom) (words inc : Nat) :
    (fuel : Nat) → (offset bufferOffset bytesLeft : Nat) → List Byte →
    Except Stop (List Byte × Nat)
  | 0, _, bufferOffset, bytesLeft, buffer =>
    if bytesLeft = 0 then .ok (buffer, bufferOffset) else .error .fuel
  | fuel + 1, offset, bufferOffset, bytesLeft, buffer =>
    if bytesLeft = 0 then .ok (buffer, bufferOffset)
    else
      match xGetWindowProperty w property offset words with
      | none => .ok (buffer, bufferOffset)
      | some reply =>
        match reply.format with
        | none => .error .divisionByZero
        | some format => do
          let length := reply.items.length * (inc * (format.bits / 8))
          let data ← Buffer.read .overrun (reply.items.flatMap format.bytes) 0 length
          let buffer ← Buffer.write .overrun buffer bufferOffset data
          readSlices w property words inc fuel (offset + reply.items.length / (32 / format.bits))
            (bufferOffset + length) reply.bytesAfter buffer

def readProperty (dpy : Display) (w : Window) (property : Atom) (deleteProperty nullterm : Bool) :
    Except Stop (Option Read) :=
  match xGetWindowProperty w property 0 0 with
  | none => .ok none
  | some reply => do
    let inc := (reply.format.map Format.inc).getD 1
    let total := reply.bytesAfter * inc + nullterm.toNat
    if 2 ^ 31 ≤ total then throw .overflow
    let (buffer, bufferOffset) ← readSlices w property (maxSelectionIncr dpy / 4) inc
      reply.bytesAfter 0 0 reply.bytesAfter (List.replicate total 0)
    let buffer ← if nullterm then Buffer.write .overrun buffer bufferOffset [0] else pure buffer
    return some {
      buffer := buffer
      size := bufferOffset
      type := reply.type
      format := reply.format
      window := if deleteProperty then xDeleteProperty w property else w }

-- ---------------------------------------------------------------------------
-- What is read
-- ---------------------------------------------------------------------------

theorem words_pos (dpy : Display) : 0 < maxSelectionIncr dpy / 4 := by
  have henough := dpy.enough
  simp only [maxSelectionIncr]
  split_ifs <;> omega

/-- A slice of a property that is there. -/
theorem xGetWindowProperty_of_some {w : Window} {property : Atom} {prop : Property}
    (herror : w.error = false) (hknown : w.interned property = true)
    (hprop : w.property property = some prop) {offset : Nat}
    (hin : offset * prop.format.perWord ≤ prop.items.length) (length : Nat) :
    xGetWindowProperty w property offset length = some
      { type := prop.type
        format := some prop.format
        items := (prop.items.drop (offset * prop.format.perWord)).take (length * prop.format.perWord)
        bytesAfter := (prop.items.length - offset * prop.format.perWord -
            min (length * prop.format.perWord) (prop.items.length - offset * prop.format.perWord)) *
          (prop.format.bits / 8) } := by
  simp only [xGetWindowProperty, herror, hknown, hprop, Bool.not_true, Bool.or_self,
    Bool.false_eq_true, if_false, if_neg (by omega : ¬prop.items.length < offset * prop.format.perWord),
    List.length_take, List.length_drop]

/-- The loop fills the buffer with the items from `k` on. A slice ends at a
whole word or at the end of the property. -/
theorem readSlices_eq {w : Window} {property : Atom} {prop : Property} (herror : w.error = false)
    (hknown : w.interned property = true) (hprop : w.property property = some prop) {words : Nat}
    (hwords : 0 < words) {fuel offset k : Nat} {tail : List Byte}
    (hk : k ≤ prop.items.length) (hoffset : k = prop.items.length ∨ k = offset * prop.format.perWord)
    (htail : (prop.items.length - k) * prop.format.size ≤ tail.length)
    (hfuel : prop.items.length - k ≤ fuel) :
    readSlices w property words prop.format.inc fuel offset (k * prop.format.size)
        ((prop.items.length - k) * (prop.format.bits / 8))
        ((prop.items.take k).flatMap prop.format.bytes ++ tail) =
      .ok (prop.bytes ++ tail.drop ((prop.items.length - k) * prop.format.size),
        prop.items.length * prop.format.size) := by
  induction fuel generalizing offset k tail with
  | zero =>
    obtain rfl : k = prop.items.length := by omega
    simp [readSlices, Property.bytes]
  | succ fuel ih =>
    by_cases hdone : k = prop.items.length
    · subst hdone
      simp [readSlices, Property.bytes]
    · have hstart : k = offset * prop.format.perWord := hoffset.resolve_left hdone
      have hleft : ¬(prop.items.length - k) * (prop.format.bits / 8) = 0 := by
        rw [Nat.mul_eq_zero]
        have := prop.format.bits_pos
        omega
      have hslice : 0 < words * prop.format.perWord := Nat.mul_pos hwords prop.format.perWord_pos
      rw [readSlices, if_neg hleft,
        xGetWindowProperty_of_some herror hknown hprop (hstart ▸ hk) words, ← hstart]
      generalize hitems : (prop.items.drop k).take (words * prop.format.perWord) = items
      have hcount : items.length = min (words * prop.format.perWord) (prop.items.length - k) := by
        rw [← hitems, List.length_take, List.length_drop]
      have hdata : (items.flatMap prop.format.bytes).length = items.length * prop.format.size :=
        prop.format.length_flatMap_bytes items
      have hfilled : ((prop.items.take k).flatMap prop.format.bytes).length = k * prop.format.size := by
        rw [prop.format.length_flatMap_bytes, List.length_take, Nat.min_eq_left hk]
      have hroom : items.length * prop.format.size ≤ tail.length :=
        le_trans (Nat.mul_le_mul_right _ (by omega)) htail
      have hread : Buffer.read Stop.overrun (items.flatMap prop.format.bytes) 0
          (items.length * prop.format.size) = .ok (items.flatMap prop.format.bytes) := by
        rw [Buffer.read_ok (by omega), List.drop_zero, List.take_of_length_le (le_of_eq hdata)]
      have htaken : (prop.items.take k).flatMap prop.format.bytes ++ items.flatMap prop.format.bytes =
          (prop.items.take (k + items.length)).flatMap prop.format.bytes := by
        rw [← List.flatMap_append, List.take_add, hcount, ← List.length_drop, ← hitems,
          ← List.take_eq_take_min]
      have hwrite : Buffer.write Stop.overrun
          ((prop.items.take k).flatMap prop.format.bytes ++ tail) (k * prop.format.size)
          (items.flatMap prop.format.bytes) =
          .ok ((prop.items.take (k + items.length)).flatMap prop.format.bytes ++
            tail.drop (items.length * prop.format.size)) := by
        rw [Buffer.write_ok (by rw [List.length_append, hfilled, hdata]; omega), ← hfilled,
          Buffer.overwrite_length, htaken, hdata]
      have hnextoffset : k + items.length = prop.items.length ∨
          k + items.length = (offset + items.length / prop.format.perWord) * prop.format.perWord := by
        by_cases hlast : prop.items.length - k ≤ words * prop.format.perWord
        · exact .inl (by omega)
        · refine .inr ?_
          rw [hcount, Nat.min_eq_left (by omega), Nat.mul_div_cancel _ prop.format.perWord_pos,
            Nat.add_mul, hstart]
      have hnexttail : (prop.items.length - (k + items.length)) * prop.format.size ≤
          (tail.drop (items.length * prop.format.size)).length := by
        rw [List.length_drop]
        refine Nat.le_sub_of_add_le (le_trans (le_of_eq ?_) htail)
        rw [← Nat.add_mul]
        congr 1
        omega
      have hnext := @ih (offset + items.length / prop.format.perWord) (k + items.length)
        (tail.drop (items.length * prop.format.size)) (by omega) hnextoffset hnexttail (by omega)
      have hafter : prop.items.length - k - min (words * prop.format.perWord) (prop.items.length - k) =
          prop.items.length - (k + items.length) := by omega
      have hrest : items.length * prop.format.size +
          (prop.items.length - (k + items.length)) * prop.format.size =
          (prop.items.length - k) * prop.format.size := by
        rw [← Nat.add_mul]
        congr 1
        omega
      rw [List.drop_drop, hrest] at hnext
      rw [hafter]
      show (do
        let data ← Buffer.read Stop.overrun (items.flatMap prop.format.bytes) 0
          (items.length * prop.format.size)
        let buffer ← Buffer.write Stop.overrun _ (k * prop.format.size) data
        readSlices w property words prop.format.inc fuel (offset + items.length / prop.format.perWord)
          (k * prop.format.size + items.length * prop.format.size) _ buffer) = _
      rw [hread, Except.ok_bind, hwrite, Except.ok_bind, ← Nat.add_mul]
      exact hnext

/-- The request for the size of a property that is there. -/
theorem xGetWindowProperty_size {w : Window} {property : Atom} {prop : Property}
    (herror : w.error = false) (hknown : w.interned property = true)
    (hprop : w.property property = some prop) :
    xGetWindowProperty w property 0 0 = some
      { type := prop.type
        format := some prop.format
        items := []
        bytesAfter := prop.items.length * (prop.format.bits / 8) } := by
  rw [xGetWindowProperty_of_some herror hknown hprop (by omega)]
  simp

/-- The size that the buffer gets for it. -/
theorem size_eq (prop : Property) :
    prop.items.length * (prop.format.bits / 8) * prop.format.inc = prop.bytes.length := by
  rw [prop.length_bytes, Format.size, Nat.mul_assoc, Nat.mul_comm prop.format.inc]

/-- All of a property is read, however many slices it takes. -/
theorem readProperty_eq (dpy : Display) {w : Window} {property : Atom} {prop : Property}
    (herror : w.error = false) (hknown : w.interned property = true)
    (hprop : w.property property = some prop) (deleteProperty nullterm : Bool)
    (hsize : prop.bytes.length + nullterm.toNat < 2 ^ 31) :
    readProperty dpy w property deleteProperty nullterm = .ok (some {
      buffer := prop.bytes ++ List.replicate nullterm.toNat 0
      size := prop.bytes.length
      type := prop.type
      format := some prop.format
      window := if deleteProperty then xDeleteProperty w property else w }) := by
  have hslices : readSlices w property (maxSelectionIncr dpy / 4) prop.format.inc
      (prop.items.length * (prop.format.bits / 8)) 0 0 (prop.items.length * (prop.format.bits / 8))
      (List.replicate (prop.bytes.length + nullterm.toNat) 0) =
      .ok (prop.bytes ++ List.replicate nullterm.toNat 0, prop.bytes.length) := by
    have hall := @readSlices_eq w property prop herror hknown hprop _ (words_pos dpy)
      (prop.items.length * (prop.format.bits / 8)) 0 0
      (List.replicate (prop.bytes.length + nullterm.toNat) 0) (by omega) (.inr (by omega))
      (by rw [List.length_replicate, prop.length_bytes, Nat.sub_zero]; exact Nat.le_add_right _ _)
      (Nat.le_mul_of_pos_right _ prop.format.bits_pos)
    simpa [← prop.length_bytes] using hall
  simp only [readProperty, xGetWindowProperty_size herror hknown hprop, Option.map_some,
    Option.getD_some, size_eq,
    if_neg (by omega : ¬2 ^ 31 ≤ prop.bytes.length + nullterm.toNat), hslices, Except.ok_bind]
  cases nullterm with
  | false => rfl
  | true =>
    have hend : Buffer.write Stop.overrun (prop.bytes ++ [0]) prop.bytes.length [0] =
        .ok (prop.bytes ++ [0]) := by
      rw [Buffer.write_ok (by simp), Buffer.overwrite_length]
      simp
    simp only [if_true, Bool.toNat_true, List.replicate_one, hend, Except.ok_bind]
    rfl

/-- A property that does not fit a buffer of the client. -/
theorem readProperty_overflow (dpy : Display) {w : Window} {property : Atom} {prop : Property}
    (herror : w.error = false) (hknown : w.interned property = true)
    (hprop : w.property property = some prop) (deleteProperty nullterm : Bool)
    (hsize : 2 ^ 31 ≤ prop.bytes.length + nullterm.toNat) :
    readProperty dpy w property deleteProperty nullterm = .error .overflow := by
  simp only [readProperty, xGetWindowProperty_size herror hknown hprop, Option.map_some,
    Option.getD_some, size_eq, if_pos hsize]
  rfl

theorem exists_reply {dpy : Display} {w : Window} {property : Atom} {deleteProperty nullterm : Bool}
    {read : Read} (h : readProperty dpy w property deleteProperty nullterm = .ok (some read)) :
    ∃ reply, xGetWindowProperty w property 0 0 = some reply ∧ read.format = reply.format ∧
      reply.bytesAfter * (reply.format.map Format.inc).getD 1 + nullterm.toNat < 2 ^ 31 := by
  rw [readProperty] at h
  split at h
  · cases h
  · next reply hreply =>
    refine ⟨reply, hreply, ?_⟩
    by_cases hbig : 2 ^ 31 ≤ reply.bytesAfter * (reply.format.map Format.inc).getD 1 + nullterm.toNat
    · simp only [if_pos hbig] at h
      cases h
    · simp only [if_neg hbig] at h
      obtain ⟨_, -, h⟩ := Except.bind_eq_ok.mp h
      refine ⟨?_, by omega⟩
      cases nullterm with
      | false => exact (Option.some.inj (Except.ok.inj h)) ▸ rfl
      | true =>
        obtain ⟨_, -, h⟩ := Except.bind_eq_ok.mp h
        exact (Option.some.inj (Except.ok.inj h)) ▸ rfl

/-- What a read that succeeds says of the property. -/
theorem readProperty_eq_some {dpy : Display} {w : Window} {property : Atom}
    {deleteProperty nullterm : Bool} {read : Read}
    (h : readProperty dpy w property deleteProperty nullterm = .ok (some read)) :
    w.error = false ∧ w.interned property = true ∧
      read.format = (w.property property).map Property.format ∧
      ∀ prop, w.property property = some prop → prop.bytes.length + nullterm.toNat < 2 ^ 31 := by
  obtain ⟨reply, hreply, hformat, hsize⟩ := exists_reply h
  have hserved : (w.error || !w.interned property) = false := by
    by_contra hnot
    rw [Bool.not_eq_false] at hnot
    rw [xGetWindowProperty, if_pos hnot] at hreply
    cases hreply
  obtain ⟨herror, hknown⟩ := Bool.or_eq_false_iff.mp hserved
  rw [Bool.not_eq_false'] at hknown
  refine ⟨herror, hknown, ?_⟩
  cases hprop : w.property property with
  | none =>
    simp only [xGetWindowProperty, hserved, hprop, Bool.false_eq_true, if_false,
      Option.some.injEq] at hreply
    rw [hformat, ← hreply]
    exact ⟨rfl, fun _ h => by cases h⟩
  | some prop =>
    obtain rfl := Option.some.inj ((xGetWindowProperty_size herror hknown hprop).symm.trans hreply)
    refine ⟨hformat, ?_⟩
    rintro _ ⟨⟩
    rw [← size_eq]
    exact hsize

end SheepShear.Clip
