import SheepShear.Lib.Except
import SheepShear.Rom.Decode
import SheepShear.Rom.LzssCorrect

/-!
# What DecodeROM reads and writes

Nothing in `DecodeROM` is checked against the size of the file or of the ROM but
the size of a plain image. It stays in bounds, and ends, exactly for the files
whose texts, streams and parcels do.
-/

namespace SheepShear.Rom

-- ---------------------------------------------------------------------------
-- Texts
-- ---------------------------------------------------------------------------

/-- Where a key first occurs, if it does in front of the terminator. -/
def findText (key : List Byte) : List Byte → Option Nat
  | [] => none
  | c :: s => if key <+: c :: s then some 0 else if c = 0 then none else (findText key s).map (· + 1)

theorem findText_spec {key s : List Byte} {k : Nat} (h : findText key s = some k) :
    key <+: s.drop k := by
  induction s generalizing k with
  | nil => cases h
  | cons c s ih =>
    rw [findText] at h
    split at h
    · next hfound =>
      obtain rfl := Option.some.inj h
      exact hfound
    · split at h
      · cases h
      · obtain ⟨i, hi, rfl⟩ := Option.map_eq_some_iff.mp h
        exact ih hi

theorem startsWith_eq (key s : List Byte) :
    startsWith key s =
      if key <+: s then .ok true else if s <+: key then .error .readOutside else .ok false := by
  induction key generalizing s with
  | nil => simp [startsWith]
  | cons k key ih =>
    cases s with
    | nil => simp [startsWith]
    | cons c s =>
      rw [startsWith]
      by_cases hc : c = k
      · subst hc
        simp [ih, List.cons_prefix_cons]
      · simp [hc, Ne.symm hc, List.cons_prefix_cons]

theorem strstr_eq {key : List Byte} (hterm : 0 ∉ key) (s : List Byte) :
    strstr key s =
      match findText key s with
      | some k => .ok (some k)
      | none => if 0 ∈ s then .ok none else .error .readOutside := by
  induction s with
  | nil => simp [strstr, findText]
  | cons c s ih =>
    rw [strstr, startsWith_eq]
    by_cases hfound : key <+: c :: s
    · rw [if_pos hfound, findText, if_pos hfound]
      rfl
    · rw [if_neg hfound]
      by_cases hshort : c :: s <+: key
      · have hzero : 0 ∉ c :: s := fun hmem => hterm (hshort.subset hmem)
        have hnone : findText key (c :: s) = none := by
          cases hfind : findText key (c :: s) with
          | none => rfl
          | some k =>
            have hle := (findText_spec hfind).length_le
            rw [List.length_drop] at hle
            have heq := hshort.eq_of_length_le (by omega)
            exact absurd (heq ▸ List.prefix_refl _) hfound
        rw [if_pos hshort, hnone, if_neg hzero]
        rfl
      · rw [if_neg hshort, findText, if_neg hfound]
        by_cases hc : c = 0
        · subst hc
          simp
        · have hmem : 0 ∈ c :: s ↔ 0 ∈ s := by rw [List.mem_cons, or_iff_right (Ne.symm hc)]
          simp only [Except.ok_bind, Bool.false_eq_true, if_false, hc, hmem, ih]
          cases findText key s with
          | some k => rfl
          | none =>
            simp only [Option.map_none]
            by_cases hzero : 0 ∈ s
            · rw [if_pos hzero, Except.ok_bind]
              rfl
            · rw [if_neg hzero, Except.error_bind]

-- ---------------------------------------------------------------------------
-- Numbers
-- ---------------------------------------------------------------------------

variable (rest : List Byte)

/-- A scan stops at the second letter of a key at the latest. -/
theorem scanHexDigits_ok (width : Nat) (cs : List Byte) (v : Option Nat) :
    ∃ v', scanHexDigits width (cs ++ 0x63#8 :: 0x6f#8 :: rest) v = .ok v' := by
  induction cs generalizing width v with
  | nil =>
    rcases width with _ | _ | width
    · exact ⟨_, rfl⟩
    · exact ⟨_, rfl⟩
    · exact ⟨_, rfl⟩
  | cons c cs ih =>
    cases width with
    | zero => exact ⟨_, rfl⟩
    | succ width =>
      rw [List.cons_append, scanHexDigits]
      cases hexDigit c with
      | none => exact ⟨_, rfl⟩
      | some d => exact ih width _

theorem scanHexNumber_ok (width : Nat) (cs : List Byte) :
    ∃ v, scanHexNumber width (cs ++ 0x63#8 :: 0x6f#8 :: rest) = .ok v := by
  rcases cs with _ | ⟨zero, _ | ⟨x, cs⟩⟩
  · exact scanHexDigits_ok rest width [] none
  · rw [List.cons_append, List.nil_append, scanHexNumber, if_neg (by simp)]
    exact scanHexDigits_ok rest width [zero] none
  · rw [List.cons_append, List.cons_append, scanHexNumber]
    split
    · exact scanHexDigits_ok rest _ cs none
    · exact scanHexDigits_ok rest width (zero :: x :: cs) none

theorem skipSpace_ok (cs : List Byte) :
    ∃ cs', skipSpace (cs ++ 0x63#8 :: 0x6f#8 :: rest) = .ok (cs' ++ 0x63#8 :: 0x6f#8 :: rest) := by
  induction cs with
  | nil => exact ⟨[], rfl⟩
  | cons c cs ih =>
    rw [List.cons_append, skipSpace]
    split
    · exact ih
    · exact ⟨c :: cs, rfl⟩

theorem sscanfHex_ok (cs : List Byte) :
    ∃ v, sscanfHex (cs ++ 0x63#8 :: 0x6f#8 :: rest) = .ok v := by
  obtain ⟨cs', hskip⟩ := skipSpace_ok rest cs
  rw [sscanfHex, hskip, Except.ok_bind]
  rcases cs' with _ | ⟨c, cs'⟩
  · obtain ⟨v, hv⟩ := scanHexNumber_ok rest 6 []
    rw [List.nil_append] at hv ⊢
    simp [hv]
  · obtain ⟨v, hv⟩ := scanHexNumber_ok rest 5 cs'
    obtain ⟨v', hv'⟩ := scanHexNumber_ok rest 6 (c :: cs')
    rw [List.cons_append] at hv' ⊢
    simp only [hv, hv', Except.ok_bind]
    split_ifs
    · exact ⟨_, rfl⟩
    · exact ⟨_, rfl⟩
    · exact ⟨_, rfl⟩

/-- A key whose number is read: it starts with two letters that no number contains. -/
structure Key (key : List Byte) : Prop where
  head : ∃ cs, key = 0x63#8 :: 0x6f#8 :: cs
  term : 0 ∉ key

theorem Key.numberBefore {key data : List Byte} (hkey : Key key) (hdata : chrpBoot <+: data) {k : Nat}
    (h : findText key data = some k) : ∃ v, numberBefore data k = .ok v := by
  obtain ⟨cs, hcs⟩ := hkey.head
  obtain ⟨after, hafter⟩ := findText_spec h
  rw [hcs] at hafter
  have hle : 7 ≤ k := by
    obtain ⟨body, hbody⟩ := hdata
    by_contra hlt
    have hhead : (data.drop k)[0]? = some 0x63#8 := by rw [← hafter]; rfl
    rw [List.getElem?_drop, ← hbody, List.getElem?_append_left (by rw [show chrpBoot.length = 11 from rfl]; omega)] at hhead
    have hk : k < 7 := by omega
    interval_cases k <;> exact absurd hhead (by decide)
  have hsplit : data.drop (k - 7) = (data.drop (k - 7)).take 7 ++ 0x63#8 :: 0x6f#8 :: (cs ++ after) := by
    have hdrop : (data.drop (k - 7)).drop 7 = data.drop k := by
      rw [List.drop_drop]
      congr 1
      omega
    have hrest : data.drop k = 0x63#8 :: 0x6f#8 :: (cs ++ after) := by rw [← hafter]; rfl
    rw [← hrest, ← hdrop, List.take_append_drop]
  rw [Rom.numberBefore, if_neg (by omega), hsplit]
  exact sscanfHex_ok (cs ++ after) _

theorem key_lzssOffset : Key lzssOffsetKey := ⟨⟨_, rfl⟩, by decide⟩
theorem key_lzssSize : Key lzssSizeKey := ⟨⟨_, rfl⟩, by decide⟩
theorem key_parcelsOffset : Key parcelsOffsetKey := ⟨⟨_, rfl⟩, by decide⟩
theorem key_parcelsSize : Key parcelsSizeKey := ⟨⟨_, rfl⟩, by decide⟩

-- ---------------------------------------------------------------------------
-- What the texts say
-- ---------------------------------------------------------------------------

/-- The number in front of a key, where there are both. -/
def numberOf (data key : List Byte) : Option Word := do
  match numberBefore data (← findText key data) with
  | .ok v => v
  | .error _ => none

/-- Offset and size of the image. -/
def imageInfo (data : List Byte) : Option (Word × Word) :=
  if (findText lzssOffsetKey data).isSome then
    return (← numberOf data lzssOffsetKey, ← numberOf data lzssSizeKey)
  else
    return (← numberOf data parcelsOffsetKey, ← numberOf data parcelsSizeKey)

/-- The texts end in the file, or every key that is looked for is found. -/
def TextsOk (data : List Byte) : Prop :=
  0 ∈ data ∨ (findText lzssOffsetKey data).isSome ∧
    (numberOf data lzssOffsetKey = none ∨ (findText lzssSizeKey data).isSome)

theorem Key.strstr_ok {key data : List Byte} (hkey : Key key)
    (h : 0 ∈ data ∨ (findText key data).isSome) : strstr key data = .ok (findText key data) := by
  rw [strstr_eq hkey.term]
  cases hfind : findText key data with
  | some k => rfl
  | none =>
    rw [hfind] at h
    exact if_pos (h.resolve_right (by simp))

theorem Key.strstr_error {key data : List Byte} (hkey : Key key) (hzero : 0 ∉ data)
    (h : findText key data = none) : strstr key data = .error .readOutside := by
  rw [strstr_eq hkey.term, h]
  exact if_neg hzero

/-- The number in front of a key that has been found. -/
theorem Key.numberBefore_eq {key data : List Byte} (hkey : Key key) (hdata : chrpBoot <+: data) {k : Nat}
    (h : findText key data = some k) : Rom.numberBefore data k = .ok (numberOf data key) := by
  obtain ⟨v, hv⟩ := hkey.numberBefore hdata h
  rw [numberOf, h, Option.bind_eq_bind, Option.bind_some, hv]

theorem decodeInfoAt_ok {data offsetKey sizeKey : List Byte} (hdata : chrpBoot <+: data)
    (hoffset : Key offsetKey) (hsize : Key sizeKey) {s : Nat} (hs : findText offsetKey data = some s)
    (h : numberOf data offsetKey = none ∨ 0 ∈ data ∨ (findText sizeKey data).isSome) :
    decodeInfoAt data s sizeKey =
      .ok (do return (← numberOf data offsetKey, ← numberOf data sizeKey)) := by
  rw [decodeInfoAt, hoffset.numberBefore_eq hdata hs, Except.ok_bind]
  cases hnumber : numberOf data offsetKey with
  | none => rfl
  | some imageOffset =>
    rw [hnumber] at h
    dsimp only
    rw [hsize.strstr_ok (h.resolve_left (by simp)), Except.ok_bind]
    cases hfind : findText sizeKey data with
    | none =>
      have hnone : numberOf data sizeKey = none := by rw [numberOf, hfind]; rfl
      rw [hnone]
      rfl
    | some s' =>
      dsimp only
      rw [hsize.numberBefore_eq hdata hfind, Except.ok_bind]
      cases numberOf data sizeKey <;> rfl

theorem decodeInfo_ok {data : List Byte} (hdata : chrpBoot <+: data) (h : TextsOk data) :
    decodeInfo data = .ok (imageInfo data) := by
  have hfirst : strstr lzssOffsetKey data = .ok (findText lzssOffsetKey data) :=
    key_lzssOffset.strstr_ok (h.imp_right And.left)
  rw [decodeInfo, hfirst, Except.ok_bind]
  cases hs : findText lzssOffsetKey data with
  | some s =>
    rw [imageInfo, hs, Option.isSome_some, if_pos rfl]
    refine decodeInfoAt_ok hdata key_lzssOffset key_lzssSize hs ?_
    rcases h with hzero | ⟨-, hnone | hsize⟩
    · exact .inr (.inl hzero)
    · exact .inl hnone
    · exact .inr (.inr hsize)
  | none =>
    have hzero : 0 ∈ data := h.resolve_right (by simp [hs])
    rw [imageInfo, hs, Option.isSome_none, if_neg Bool.false_ne_true]
    dsimp only
    rw [key_parcelsOffset.strstr_ok (.inl hzero), Except.ok_bind]
    cases hs' : findText parcelsOffsetKey data with
    | some s => exact decodeInfoAt_ok hdata key_parcelsOffset key_parcelsSize hs' (.inr (.inl hzero))
    | none =>
      have hnone : numberOf data parcelsOffsetKey = none := by rw [numberOf, hs']; rfl
      rw [hnone]
      rfl

theorem decodeInfo_error {data : List Byte} (hdata : chrpBoot <+: data) (h : ¬ TextsOk data) :
    decodeInfo data = .error .readOutside := by
  obtain ⟨hzero, h⟩ := not_or.mp h
  cases hs : findText lzssOffsetKey data with
  | none => rw [decodeInfo, key_lzssOffset.strstr_error hzero hs, Except.error_bind]
  | some s =>
    rw [hs, Option.isSome_some, eq_self, true_and] at h
    obtain ⟨hnumber, hsize⟩ := not_or.mp h
    obtain ⟨imageOffset, hoffset⟩ := Option.ne_none_iff_exists'.mp hnumber
    have hnone : findText lzssSizeKey data = none := by simpa using hsize
    rw [decodeInfo, key_lzssOffset.strstr_ok (.inr (by rw [hs]; rfl)), Except.ok_bind, hs]
    dsimp only
    rw [decodeInfoAt, key_lzssOffset.numberBefore_eq hdata hs, Except.ok_bind, hoffset]
    dsimp only
    rw [key_lzssSize.strstr_error hzero hnone, Except.error_bind]

-- ---------------------------------------------------------------------------
-- Streams and parcels
-- ---------------------------------------------------------------------------

/-- A stream that lies in the file and stands for no more bytes than the ROM has. -/
def StreamOk (data : List Byte) (offset : Nat) (size : Word) : Prop :=
  size.toInt ≤ 0 ∨ offset + size.toInt.toNat ≤ data.length ∧
    lzssLength (lzssTokens [] ((data.drop offset).take size.toInt.toNat)) ≤ romSize

/-- The parcels from an offset on lie in the file, and the last one has no successor. -/
inductive ParcelsOk (data : List Byte) (src : Nat) : Word → Prop where
  | done : ParcelsOk data src 0
  | parcel {offset next type : Word} : offset ≠ 0 →
      wordAt data (src + offset.toNat) = some next →
      wordAt data (src + offset.toNat + 4) = some type →
      (type = romParcel → ∃ lzssOffset : Word,
        wordAt data (src + offset.toNat + 8) = some lzssOffset ∧
        StreamOk data (src + offset.toNat + lzssOffset.toNat) (next - (offset + lzssOffset))) →
      ParcelsOk data src next → ParcelsOk data src offset

/-- Two areas that agree outside the ROM. -/
def SameOutside (rom rom' : RomArea) : Prop := ∀ i, romSize ≤ i → rom' i = rom i

variable {data : List Byte} {rom rom' : RomArea}

theorem SameOutside.trans {rom₁ : RomArea} (h : SameOutside rom rom₁) (h' : SameOutside rom₁ rom') :
    SameOutside rom rom' := fun i hi => (h' i hi).trans (h i hi)

theorem sameOutside_store {bytes : List Byte} (h : bytes.length ≤ romSize) (rom : RomArea) :
    SameOutside rom fun i => bytes.getD i (rom i) := by
  intro i hi
  exact List.getD_eq_default _ _ (h.trans hi)

theorem streamBytes_eq {offset n : Nat} (h : offset + n ≤ data.length) :
    streamBytes (fun i => data.getD (offset + i) 0) n = (data.drop offset).take n := by
  refine List.ext_getElem (by simp [streamBytes]; omega) fun i hi hi' => ?_
  have hin : i < n := by simpa [streamBytes] using hi
  simp [streamBytes, List.getElem?_eq_getElem (by omega : offset + i < data.length)]

theorem decodeStream_ok (dict : Nat → Byte) {offset : Nat} {size : Word}
    (h : StreamOk data offset size) (rom : RomArea) :
    ∃ rom', decodeStream dict data offset size rom = .ok rom' ∧ SameOutside rom rom' := by
  obtain ⟨s, hs, hsrc, hlength, -⟩ :=
    decodeLzss_spec dict (fun i => data.getD (offset + i) 0) size.toInt
  have hread : ¬ (0 < s.src ∧ data.length < offset + s.src) := by
    rw [hsrc]
    rcases h with hneg | ⟨hin, -⟩
    · omega
    · omega
  have hfit : s.dest.length ≤ romSize := by
    rcases h with hneg | ⟨hin, hfit⟩
    · have hempty : streamBytes (fun i => data.getD (offset + i) 0) size.toInt = [] := by
        simp [streamBytes, hneg]
      rw [hlength, hempty]
      exact Nat.zero_le _
    · have hbytes := streamBytes_eq hin
      rw [streamBytes, Int.toNat_natCast] at hbytes
      rw [hlength, streamBytes, hbytes]
      exact hfit
  rw [decodeStream, hs]
  dsimp only
  rw [if_neg hread, if_neg (Nat.not_lt.mpr hfit)]
  exact ⟨_, rfl, sameOutside_store hfit rom⟩

theorem streamOk_of_decodeStream {dict : Nat → Byte} {offset : Nat} {size : Word}
    (h : decodeStream dict data offset size rom = .ok rom') : StreamOk data offset size := by
  obtain ⟨s, hs, hsrc, hlength, -⟩ :=
    decodeLzss_spec dict (fun i => data.getD (offset + i) 0) size.toInt
  rw [decodeStream, hs] at h
  dsimp only at h
  split at h
  · cases h
  · next hread =>
    split at h
    · cases h
    · next hfit =>
      rcases Int.lt_or_le 0 size.toInt with hpos | hneg
      · have hin : offset + size.toInt.toNat ≤ data.length := by omega
        have hbytes := streamBytes_eq hin
        rw [streamBytes, Int.toNat_natCast] at hbytes
        rw [hlength, streamBytes, hbytes] at hfit
        exact .inr ⟨hin, Nat.not_lt.mp hfit⟩
      · exact .inl hneg

theorem readWord_ok {i : Nat} {w : Word} : readWord data i = .ok w ↔ wordAt data i = some w := by
  rw [readWord]
  cases wordAt data i <;> simp

theorem decodeParcels_ok (dict : Word → Nat → Byte) {src : Nat} {offset : Word}
    (h : ParcelsOk data src offset) (rom : RomArea) :
    ∃ fuel rom', decodeParcels dict data src fuel offset rom = .ok rom' ∧ SameOutside rom rom' := by
  induction h generalizing rom with
  | done => exact ⟨1, rom, rfl, fun _ _ => rfl⟩
  | @parcel offset next type hne hnext htype hrom _ ih =>
    by_cases hkind : type = romParcel
    · obtain ⟨lzssOffset, hlzss, hstream⟩ := hrom hkind
      obtain ⟨rom₁, hdecode, hsame⟩ := decodeStream_ok (dict offset) hstream rom
      obtain ⟨fuel, rom', hrest, hsame'⟩ := ih rom₁
      refine ⟨fuel + 1, rom', ?_, hsame.trans hsame'⟩
      rw [decodeParcels, if_neg hne]
      dsimp only
      rw [readWord_ok.mpr hnext, Except.ok_bind, readWord_ok.mpr htype, Except.ok_bind, if_pos hkind,
        readWord_ok.mpr hlzss, Except.ok_bind, hdecode, Except.ok_bind, hrest]
    · obtain ⟨fuel, rom', hrest, hsame⟩ := ih rom
      refine ⟨fuel + 1, rom', ?_, hsame⟩
      rw [decodeParcels, if_neg hne]
      dsimp only
      rw [readWord_ok.mpr hnext, Except.ok_bind, readWord_ok.mpr htype, Except.ok_bind, if_neg hkind,
        hrest]

theorem parcelsOk_of_decodeParcels {dict : Word → Nat → Byte} {src fuel : Nat} {offset : Word}
    (h : decodeParcels dict data src fuel offset rom = .ok rom') : ParcelsOk data src offset := by
  induction fuel generalizing offset rom with
  | zero => cases h
  | succ fuel ih =>
    rw [decodeParcels] at h
    split at h
    · next hzero =>
      rw [hzero]
      exact .done
    · next hne =>
      obtain ⟨next, hnext, h⟩ := Except.bind_eq_ok.mp h
      obtain ⟨type, htype, h⟩ := Except.bind_eq_ok.mp h
      split at h
      · obtain ⟨lzssOffset, hlzss, h⟩ := Except.bind_eq_ok.mp h
        obtain ⟨rom₁, hdecode, h⟩ := Except.bind_eq_ok.mp h
        exact .parcel hne (readWord_ok.mp hnext) (readWord_ok.mp htype)
          (fun _ => ⟨lzssOffset, readWord_ok.mp hlzss, streamOk_of_decodeStream hdecode⟩) (ih h)
      · next hkind =>
        exact .parcel hne (readWord_ok.mp hnext) (readWord_ok.mp htype) (fun hrom => absurd hrom hkind)
          (ih h)

-- ---------------------------------------------------------------------------
-- DecodeROM
-- ---------------------------------------------------------------------------

/-- `DecodeROM` returns, with every access in bounds. -/
def InBounds (dict : Word → Nat → Byte) (data : List Byte) (rom : RomArea) : Prop :=
  ∃ fuel result rom', decodeRom fuel dict data rom = .ok (result, rom') ∧
    (result = false → rom' = rom) ∧ SameOutside rom rom'

/-- The image that a file with a boot script leads to. -/
def ImageOk (data : List Byte) (offset size : Word) : Prop :=
  ∃ signature, wordAt data offset.toNat = some signature ∧
    if signature = parcelSignature then ParcelsOk data offset.toNat 0x14
    else StreamOk data offset.toNat size

/-- A plain image, a file that differs from a boot script, or one whose image is in order. -/
def FileOk (data : List Byte) : Prop :=
  data.length = romSize ∨ (¬ chrpBoot <+: data ∧ ¬ data <+: chrpBoot) ∨
    chrpBoot <+: data ∧ TextsOk data ∧
      ∀ offset size, imageInfo data = some (offset, size) → ImageOk data offset size

theorem decodeRom_boot (hplain : ¬ data.length = romSize) (hboot : chrpBoot <+: data)
    (htexts : TextsOk data) (dict : Word → Nat → Byte) (rom : RomArea) (fuel : Nat) :
    decodeRom fuel dict data rom = (match imageInfo data with
      | none => .ok (false, rom)
      | some (imageOffset, imageSize) => do
        let romSignature ← readWord data imageOffset.toNat
        if romSignature = parcelSignature then
          return (true, ← decodeParcels dict data imageOffset.toNat fuel 0x14 rom)
        else
          return (true, ← decodeStream (dict 0) data imageOffset.toNat imageSize rom)) := by
  rw [decodeRom, if_neg hplain, startsWith_eq, if_pos hboot, Except.ok_bind, if_pos rfl,
    decodeInfo_ok hboot htexts]
  rfl

theorem inBounds_of_fileOk (dict : Word → Nat → Byte) (h : FileOk data) (rom : RomArea) :
    InBounds dict data rom := by
  by_cases hplain : data.length = romSize
  · refine ⟨0, true, _, by rw [decodeRom, if_pos hplain], Bool.noConfusion, ?_⟩
    exact sameOutside_store hplain.le rom
  rcases h.resolve_left hplain with ⟨hother, hlong⟩ | ⟨hboot, htexts, himage⟩
  · refine ⟨0, false, rom, ?_, fun _ => rfl, fun _ _ => rfl⟩
    rw [decodeRom, if_neg hplain, startsWith_eq, if_neg hother, if_neg hlong]
    rfl
  have hhead := decodeRom_boot hplain hboot htexts dict rom
  cases hinfo : imageInfo data with
  | none =>
    refine ⟨0, false, rom, ?_, fun _ => rfl, fun _ _ => rfl⟩
    rw [hhead, hinfo]
  | some info =>
    obtain ⟨signature, hsignature, hok⟩ := himage _ _ hinfo
    simp only [hinfo, readWord_ok.mpr hsignature, Except.ok_bind] at hhead
    split at hok
    · next hparcels =>
      obtain ⟨fuel, rom', hdecode, hsame⟩ := decodeParcels_ok dict hok rom
      refine ⟨fuel, true, rom', ?_, Bool.noConfusion, hsame⟩
      rw [hhead, if_pos hparcels, hdecode]
      rfl
    · next hstream =>
      obtain ⟨rom', hdecode, hsame⟩ := decodeStream_ok (dict 0) hok rom
      refine ⟨0, true, rom', ?_, Bool.noConfusion, hsame⟩
      rw [hhead, if_neg hstream, hdecode]
      rfl

theorem fileOk_of_inBounds {dict : Word → Nat → Byte} (h : InBounds dict data rom) : FileOk data := by
  obtain ⟨fuel, result, rom', hdecode, -, -⟩ := h
  by_cases hplain : data.length = romSize
  · exact .inl hplain
  rw [decodeRom, if_neg hplain, startsWith_eq] at hdecode
  by_cases hboot : chrpBoot <+: data
  · by_cases htexts : TextsOk data
    · refine .inr (.inr ⟨hboot, htexts, fun offset size hinfo => ?_⟩)
      rw [if_pos hboot, Except.ok_bind, if_pos rfl, decodeInfo_ok hboot htexts, Except.ok_bind,
        hinfo] at hdecode
      obtain ⟨signature, hsignature, hdecode⟩ := Except.bind_eq_ok.mp hdecode
      refine ⟨signature, readWord_ok.mp hsignature, ?_⟩
      split at hdecode
      · next hparcels =>
        obtain ⟨rom₁, hrest, -⟩ := Except.bind_eq_ok.mp hdecode
        rw [if_pos hparcels]
        exact parcelsOk_of_decodeParcels hrest
      · next hstream =>
        obtain ⟨rom₁, hrest, -⟩ := Except.bind_eq_ok.mp hdecode
        rw [if_neg hstream]
        exact streamOk_of_decodeStream hrest
    · rw [if_pos hboot, Except.ok_bind, if_pos rfl, decodeInfo_error hboot htexts] at hdecode
      cases hdecode
  · rw [if_neg hboot] at hdecode
    refine .inr (.inl ⟨hboot, fun hshort => ?_⟩)
    rw [if_pos hshort] at hdecode
    cases hdecode

/-- A boot script whose first parcel is its own successor. -/
def parcelLoop : List Byte :=
  ascii "<CHRP-BOOT>\n000060 constant parcels-offset\n000060 constant parcels-size\n" ++
    List.replicate 24 0 ++ ascii "prcl" ++ List.replicate 16 0 ++
    [0, 0, 0, 0x14] ++ List.replicate 4 0

theorem parcelLoop_endless (fuel : Nat) (rom : RomArea) :
    decodeParcels (fun _ _ => 0) parcelLoop 0x60 fuel 0x14 rom = .error .endless := by
  have hnext : readWord parcelLoop 0x74 = .ok 0x14 := by decide +kernel
  have htype : readWord parcelLoop 0x78 = .ok 0 := by decide +kernel
  have hne : (0x14 : Word) ≠ 0 := by decide
  have hkind : (0 : Word) ≠ romParcel := by decide
  induction fuel with
  | zero => rfl
  | succ fuel ih =>
    rw [decodeParcels, if_neg hne]
    simp only [show 0x60 + (0x14 : Word).toNat = 0x74 from rfl, hnext, htype, Except.ok_bind,
      if_neg hkind, ih]

end SheepShear.Rom
