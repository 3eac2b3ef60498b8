import SheepShear.Router.Ftp

/-!
# What the FTP patch accepts

The command that the router writes is read back with its port. A command that
is read need not be well formed: the scanner looks for the start of each number
and for the comma behind it, and for nothing in between.
-/

namespace SheepShear.Router

-- ---------------------------------------------------------------------------
-- Well-formed commands
-- ---------------------------------------------------------------------------

/-- The text that is looked at: in lower case, with blanks for what is not printed, and without
the blanks at its start. -/
def ftpText (payload : List Byte) : List Byte :=
  ((payload.take 99).map ftpFold).dropWhile (· == space)

/-- Text that does not go on with a digit. -/
def NoDigit (text : List Byte) : Prop := text.head?.any isdigit = false

/-- A decimal number, with blanks in front of it. -/
def Number (text : List Byte) (n : Nat) : Prop :=
  ∃ blanks digits, text = List.replicate blanks space ++ digits ∧ digits ≠ [] ∧
    (∀ d ∈ digits, isdigit d = true) ∧ n = scanDigits digits 0

/-- Numbers in 0..255, with commas between them, at the start of a text. -/
inductive Numbers : List Nat → List Byte → Prop
  | last : Number text n → n ≤ 255 → NoDigit rest → Numbers [n] (text ++ rest)
  | cons : Number text n → n ≤ 255 → Numbers ns rest → Numbers (n :: ns) (text ++ comma :: rest)

/-- A `227` reply with "passive", and what is behind its first parenthesis. -/
structure Reply (text args : List Byte) : Prop where
  code : ∃ rest, text = ascii "227" ++ rest ∧ NoDigit rest
  passive : ascii "passive" <:+: text
  paren : ∃ front, text = front ++ openParen :: args ∧ openParen ∉ front

def Command : Bool → List Byte → List Byte → Prop
  | true, text, args => Reply text args
  | false, text, args => text = ascii "port " ++ args

/-- The command has six numbers, and the last two are the port. -/
def WellFormed (isPasv : Bool) (payload : List Byte) (port : BitVec 16) : Prop :=
  ∃ args a b c d p q, Command isPasv (ftpText payload) args ∧ Numbers [a, b, c, d, p, q] args ∧
    port.toNat = 256 * p + q

-- ---------------------------------------------------------------------------
-- What the scanner sees
-- ---------------------------------------------------------------------------

/-- A field that goes on with a number. -/
def StartsNumber (text : List Byte) : Prop := ¬NoDigit (text.dropWhile (· == space))

instance (text : List Byte) : Decidable (NoDigit text) := inferInstanceAs (Decidable (_ = false))

instance (text : List Byte) : Decidable (StartsNumber text) := inferInstanceAs (Decidable ¬_)

/-- Fields that start with a number, each with a comma behind it, in front of a rest. -/
inductive Fields : List (List Byte) → List Byte → List Byte → Prop
  | nil : Fields [] text text
  | cons : StartsNumber field → comma ∉ field → Fields fields text rest →
    Fields (field :: fields) (field ++ comma :: text) rest

/-- The address of fields that follow a part of it. -/
def addressFrom (ip : Word) (fields : List (List Byte)) : Word :=
  fields.foldl (fun ip field => (ip <<< 8) + BitVec.ofInt 32 (atoi field)) ip

/-- A comma, or the parenthesis of a reply. -/
def Stop (c : Byte) : Prop := c = comma ∨ c = closeParen

instance : DecidablePred Stop := fun _ => inferInstanceAs (Decidable (_ ∨ _))

/-- Text that is read as a command: four fields for an address other than zero, and a number. -/
structure Loose (isPasv : Bool) (payload : List Byte) (fields : List (List Byte))
    (rest : List Byte) : Prop where
  args : ∃ args, ftpArguments isPasv (ftpText payload) = some args ∧ Fields fields args rest
  four : fields.length = 4
  address : addressFrom 0 fields ≠ 0
  number : StartsNumber rest

/-- A command that is read though it is not well formed: it ends in its fifth number, which is the
port; or it has six numbers for a port other than zero, with one above 255, with something between
one of the first five and its comma, with a parenthesis behind the fifth, or behind a reply code
that does not start with its digits. -/
def Sloppy (isPasv : Bool) (payload : List Byte) : Prop :=
  ∃ fields rest, Loose isPasv payload fields rest ∧
    ((∀ c ∈ rest, ¬Stop c) ∧ BitVec.ofInt 16 (atoi rest) ≠ 0 ∨
      ∃ fifth stop sixth, rest = fifth ++ stop :: sixth ∧ (∀ c ∈ fifth, ¬Stop c) ∧ Stop stop ∧
        StartsNumber sixth ∧
        (BitVec.ofInt 16 (atoi fifth) <<< 8) + BitVec.ofInt 16 (atoi sixth) ≠ 0 ∧
        ((∃ field ∈ fields ++ [fifth], ∀ n ≤ 255, ¬Number field n) ∨ 255 < atoi sixth ∨
          stop = closeParen ∨ isPasv = true ∧ ¬ascii "227" <+: ftpText payload))

-- ---------------------------------------------------------------------------
-- Numbers
-- ---------------------------------------------------------------------------

theorem scanDigits_append {digits rest : List Byte} (hdigits : ∀ d ∈ digits, isdigit d = true)
    (hrest : NoDigit rest) (acc : Nat) :
    scanDigits (digits ++ rest) acc = scanDigits digits acc := by
  induction digits generalizing acc with
  | nil =>
    cases rest with
    | nil => rfl
    | cons c rest =>
      have hc : isdigit c = false := by simpa [NoDigit] using hrest
      simp [scanDigits, hc]
  | cons d digits ih =>
    have hd := hdigits d (List.mem_cons_self ..)
    simp only [List.cons_append, scanDigits, hd, if_true]
    exact ih (fun e he => hdigits e (List.mem_cons_of_mem _ he)) _

theorem dropWhile_blanks (blanks : Nat) (text : List Byte) :
    (List.replicate blanks space ++ text).dropWhile isspace = text.dropWhile isspace := by
  induction blanks with
  | zero => rfl
  | succ blanks ih => simp [List.replicate_succ, show isspace space = true from rfl]

/-- The number that the C library reads. -/
theorem atoi_number {digits rest : List Byte} (blanks : Nat) (hne : digits ≠ [])
    (hdigits : ∀ d ∈ digits, isdigit d = true) (hrest : NoDigit rest) :
    atoi (List.replicate blanks space ++ (digits ++ rest)) =
      min (2 ^ 31 - 1) (scanDigits digits 0 : Int) := by
  obtain ⟨d, digits, rfl⟩ := List.exists_cons_of_ne_nil hne
  have hscan := scanDigits_append hdigits hrest 0
  obtain ⟨hspace, hminus, hplus, -, -⟩ :=
    isdigit_not_special (hdigits d (List.mem_cons_self ..))
  rw [List.cons_append] at hscan
  rw [atoi, dropWhile_blanks, List.cons_append, List.dropWhile_cons, hspace]
  simp only [Bool.false_eq_true, if_false, scanInt, hminus, hplus, hscan]
  omega

theorem isdigit_ne_space {c : Byte} (h : isdigit c = true) : (c == space) = false := by
  revert c
  decide

/-- The blanks, the digits and the rest of a field. -/
theorem StartsNumber.split {text : List Byte} (h : StartsNumber text) :
    ∃ blanks digits rest, text = List.replicate blanks space ++ (digits ++ rest) ∧ digits ≠ [] ∧
      (∀ d ∈ digits, isdigit d = true) ∧ NoDigit rest := by
  have hblanks : text.takeWhile (· == space) =
      List.replicate (text.takeWhile (· == space)).length space :=
    List.eq_replicate_of_mem fun c hc => by simpa using List.mem_takeWhile_imp hc
  refine ⟨(text.takeWhile (· == space)).length, (text.dropWhile (· == space)).takeWhile isdigit,
    (text.dropWhile (· == space)).dropWhile isdigit, ?_, ?_,
    fun d hd => List.mem_takeWhile_imp hd, ?_⟩
  · rw [← hblanks, List.takeWhile_append_dropWhile, List.takeWhile_append_dropWhile]
  · rw [StartsNumber] at h
    intro hnil
    apply h
    cases htext : text.dropWhile (· == space) with
    | nil => rfl
    | cons c cs =>
      rw [htext, List.takeWhile_cons] at hnil
      cases hc : isdigit c
      · simp [NoDigit, hc]
      · simp [hc] at hnil
  · rw [NoDigit]
    cases hrest : (text.dropWhile (· == space)).dropWhile isdigit with
    | nil => rfl
    | cons c cs =>
      have hne : (text.dropWhile (· == space)).dropWhile isdigit ≠ [] := by simp [hrest]
      have := List.head_dropWhile_not isdigit hne
      simpa [hrest] using this

theorem noDigit_cons {c : Byte} (h : isdigit c = false) (text : List Byte) : NoDigit (c :: text) := by
  simp [NoDigit, h]

theorem Stop.isdigit {c : Byte} (h : Stop c) : isdigit c = false := by
  rcases h with rfl | rfl <;> rfl

theorem NoDigit.append {junk : List Byte} (h : NoDigit junk) {c : Byte} (hc : isdigit c = false)
    (text : List Byte) : NoDigit (junk ++ c :: text) := by
  cases junk with
  | nil => exact noDigit_cons hc text
  | cons d junk => exact h

/-- The blanks are skipped twice. -/
theorem atoi_dropWhile (text : List Byte) : atoi (text.dropWhile (· == space)) = atoi text := by
  have hblanks : text.takeWhile (· == space) =
      List.replicate (text.takeWhile (· == space)).length space :=
    List.eq_replicate_of_mem fun c hc => by simpa using List.mem_takeWhile_imp hc
  conv_rhs => rw [← List.takeWhile_append_dropWhile (p := (· == space)) (l := text), hblanks]
  rw [atoi, atoi, dropWhile_blanks]

/-- A number ends in front of a stop. -/
theorem atoi_field {field : List Byte} (h : StartsNumber field) {c : Byte}
    (hc : isdigit c = false) (text : List Byte) : atoi (field ++ c :: text) = atoi field := by
  obtain ⟨blanks, digits, junk, rfl, hne, hdigits, hjunk⟩ := h.split
  rw [List.append_assoc, List.append_assoc, atoi_number blanks hne hdigits (hjunk.append hc text),
    atoi_number blanks hne hdigits hjunk]

theorem startsNumber_append {c : Byte} (hc : isdigit c = false) (hspace : c ≠ space)
    (field text : List Byte) : StartsNumber (field ++ c :: text) ↔ StartsNumber field := by
  have hstop : (c == space) = false := by simpa using hspace
  rw [StartsNumber, StartsNumber, List.dropWhile_append]
  cases hfield : field.dropWhile (· == space) with
  | nil => simp [NoDigit, hstop, hc]
  | cons d ds => simp [NoDigit]

theorem Number.startsNumber {text : List Byte} {n : Nat} (h : Number text n) (rest : List Byte) :
    StartsNumber (text ++ rest) := by
  obtain ⟨blanks, digits, rfl, hne, hdigits, rfl⟩ := h
  obtain ⟨d, digits, rfl⟩ := List.exists_cons_of_ne_nil hne
  have hd := hdigits d (List.mem_cons_self ..)
  have hdrop : (List.replicate blanks space ++ d :: digits ++ rest).dropWhile (· == space) =
      d :: (digits ++ rest) := by
    induction blanks with
    | zero => simp [isdigit_ne_space hd]
    | succ blanks ih => simpa [List.replicate_succ] using ih
  rw [StartsNumber, hdrop]
  simp [NoDigit, hd]

theorem Number.atoi {text rest : List Byte} {n : Nat} (h : Number text n) (hle : n ≤ 255)
    (hrest : NoDigit rest) : atoi (text ++ rest) = n := by
  obtain ⟨blanks, digits, rfl, hne, hdigits, rfl⟩ := h
  rw [List.append_assoc, atoi_number blanks hne hdigits hrest]
  omega

theorem Number.no_stop {text : List Byte} {n : Nat} (h : Number text n) :
    ∀ c ∈ text, ¬Stop c := by
  obtain ⟨blanks, digits, rfl, -, hdigits, -⟩ := h
  intro c hc hstop
  rcases List.mem_append.mp hc with hc | hc
  · rw [(List.mem_replicate.mp hc).2] at hstop
    rcases hstop with h | h <;> cases h
  · have hdigit := hdigits c hc
    rw [hstop.isdigit] at hdigit
    cases hdigit

-- ---------------------------------------------------------------------------
-- The scanner
-- ---------------------------------------------------------------------------

theorem takeWhile_cut {stop : Byte → Bool} {field : List Byte} (h : ∀ c ∈ field, stop c = false)
    {c : Byte} (hc : stop c = true) (text : List Byte) :
    (field ++ c :: text).takeWhile (fun c => !stop c) = field ∧
      (field ++ c :: text).dropWhile (fun c => !stop c) = c :: text := by
  have hpos : ∀ c ∈ field, (!stop c) = true := fun c hc => by rw [h c hc]; rfl
  have hneg : (!stop c) = false := by rw [hc]; rfl
  rw [List.takeWhile_append_of_pos hpos, List.dropWhile_append_of_pos hpos, List.takeWhile_cons,
    List.dropWhile_cons, hneg]
  simp

/-- Two fields with a stop behind them are cut the same way. -/
theorem cut_inj {stop : Byte → Bool} {field field' : List Byte} (h : ∀ c ∈ field, stop c = false)
    (h' : ∀ c ∈ field', stop c = false) {c c' : Byte} (hc : stop c = true) (hc' : stop c' = true)
    {text text' : List Byte} (heq : field ++ c :: text = field' ++ c' :: text') :
    field = field' ∧ c = c' ∧ text = text' := by
  obtain ⟨htake, hdrop⟩ := takeWhile_cut h hc text
  obtain ⟨htake', hdrop'⟩ := takeWhile_cut h' hc' text'
  rw [heq] at htake hdrop
  obtain ⟨rfl, rfl⟩ := List.cons.inj (hdrop.symm.trans hdrop')
  exact ⟨htake.symm.trans htake', rfl, rfl⟩

/-- Text with a stop in it is a field, the stop and a rest. -/
theorem cut_of_dropWhile {stop : Byte → Bool} {text tail : List Byte} {c : Byte}
    (h : text.dropWhile (fun c => !stop c) = c :: tail) :
    ∃ field, text = field ++ c :: tail ∧ stop c = true ∧ ∀ c ∈ field, stop c = false := by
  refine ⟨text.takeWhile (fun c => !stop c), ?_, ?_, fun c hc => ?_⟩
  · rw [← h, List.takeWhile_append_dropWhile]
  · have hne : text.dropWhile (fun c => !stop c) ≠ [] := by rw [h]; exact List.cons_ne_nil _ _
    have hhead := List.head_dropWhile_not (fun c => !stop c) hne
    simp only [h, List.head_cons] at hhead
    simpa using hhead
  · simpa using List.mem_takeWhile_imp hc

def isComma (c : Byte) : Bool := c == comma

theorem not_isComma_iff {field : List Byte} : (∀ c ∈ field, isComma c = false) ↔ comma ∉ field := by
  constructor
  · intro h hc
    cases h comma hc
  · intro h c hc
    simpa [isComma] using fun heq : c = comma => h (heq ▸ hc)

theorem Fields.unique {fields fields' : List (List Byte)} {text rest rest' : List Byte}
    (h : Fields fields text rest) (h' : Fields fields' text rest')
    (hlen : fields.length = fields'.length) : fields = fields' ∧ rest = rest' := by
  induction h generalizing fields' rest' with
  | nil =>
    obtain rfl := List.eq_nil_of_length_eq_zero hlen.symm
    cases h'
    exact ⟨rfl, rfl⟩
  | @cons field fields text rest hfield hcomma hfields ih =>
    obtain ⟨field', fields', rfl⟩ := List.exists_cons_of_length_eq_add_one hlen.symm
    generalize htext : field ++ comma :: text = whole at h'
    cases h' with
    | @cons _ _ text' _ hfield' hcomma' hfields' =>
      have hyes : isComma comma = true := rfl
      obtain ⟨rfl, -, rfl⟩ := cut_inj (not_isComma_iff.mpr hcomma) (not_isComma_iff.mpr hcomma')
        hyes hyes htext
      obtain ⟨rfl, rfl⟩ := ih hfields' (Nat.succ.inj hlen)
      exact ⟨rfl, rfl⟩

theorem ne_comma_eq (c : Byte) : decide (c ≠ comma) = !isComma c := by
  rw [isComma, decide_not, beq_eq_decide]

/-- The blanks in front of a field play no part when it is cut. -/
theorem dropWhile_cut {stop : Byte → Bool} (hspace : stop space = false) (text : List Byte) :
    (text.dropWhile (· == space)).dropWhile (fun c => !stop c) =
      text.dropWhile (fun c => !stop c) := by
  induction text with
  | nil => rfl
  | cons c text ih =>
    by_cases hc : c = space
    · subst hc
      simpa [hspace] using ih
    · simp [hc]

theorem dropWhile_comma (text : List Byte) :
    (text.dropWhile (· == space)).dropWhile (· ≠ comma) = text.dropWhile (fun c => !isComma c) := by
  simp only [ne_comma_eq]
  exact dropWhile_cut rfl text

/-- The address is read from fields that start with a number. -/
theorem ftpAddress_eq_some_iff {n : Nat} {ip ip' : Word} {text rest : List Byte} :
    ftpAddress n ip text = some (ip', rest) ↔ ∃ fields, fields.length = n ∧
      Fields fields text rest ∧ ip' = addressFrom ip fields := by
  induction n generalizing ip text with
  | zero =>
    constructor
    · intro h
      obtain ⟨rfl, rfl⟩ := Prod.mk.inj (Option.some.inj h)
      exact ⟨[], rfl, .nil, rfl⟩
    · rintro ⟨fields, hlen, hfields, rfl⟩
      obtain rfl := List.eq_nil_of_length_eq_zero hlen
      cases hfields
      rfl
  | succ n ih =>
    constructor
    · intro h
      simp only [ftpAddress] at h
      split at h
      · cases h
      · next hstart =>
        rw [dropWhile_comma] at h
        cases hdrop : text.dropWhile (fun c => !isComma c) with
        | nil =>
          rw [hdrop] at h
          cases h
        | cons c tail =>
          rw [hdrop] at h
          obtain ⟨fields, hlen, hfields, rfl⟩ := ih.mp h
          obtain ⟨field, rfl, hc, hfield⟩ := cut_of_dropWhile hdrop
          obtain rfl : c = comma := by simpa [isComma] using hc
          have hnumber : StartsNumber field :=
            (startsNumber_append (show isdigit comma = false from rfl) (by decide) field tail).mp
              hstart
          refine ⟨field :: fields, by rw [List.length_cons, hlen],
            .cons hnumber (not_isComma_iff.mp hfield) hfields, ?_⟩
          rw [addressFrom, addressFrom, List.foldl_cons, atoi_dropWhile, atoi_field hnumber rfl]
    · rintro ⟨fields, hlen, hfields, rfl⟩
      cases hfields with
      | nil => cases hlen
      | @cons field fields text _ hnumber hcomma hfields =>
        have hstart := (startsNumber_append (show isdigit comma = false from rfl) (by decide) field text).mpr hnumber
        have hdrop := (takeWhile_cut (not_isComma_iff.mpr hcomma)
          (show isComma comma = true from rfl) text).2
        simp only [ftpAddress]
        rw [if_neg (show ¬Option.any isdigit _ = false from hstart), dropWhile_comma, hdrop]
        refine ih.mpr ⟨fields, Nat.succ.inj hlen, hfields, ?_⟩
        rw [addressFrom, addressFrom, List.foldl_cons, atoi_dropWhile, atoi_field hnumber rfl]

def isStop (c : Byte) : Bool := c == comma || c == closeParen

theorem isStop_iff {c : Byte} : isStop c = true ↔ Stop c := by
  simp [isStop, Stop]

theorem not_isStop_iff {field : List Byte} :
    (∀ c ∈ field, isStop c = false) ↔ ∀ c ∈ field, ¬Stop c := by
  simp only [← isStop_iff, Bool.not_eq_true]

theorem ne_stop_eq (c : Byte) : (decide (c ≠ comma) && decide (c ≠ closeParen)) = !isStop c := by
  rw [isStop, Bool.not_or, decide_not, decide_not, beq_eq_decide, beq_eq_decide]

theorem dropWhile_stop (text : List Byte) :
    (text.dropWhile (· == space)).dropWhile (fun c => c ≠ comma && c ≠ closeParen) =
      text.dropWhile (fun c => !isStop c) := by
  simp only [ne_stop_eq]
  exact dropWhile_cut rfl text

/-- A number of the port without a stop behind it. -/
theorem ftpPort_few {n : Nat} {port : BitVec 16} {text : List Byte} (hnumber : StartsNumber text)
    (hno : ∀ c ∈ text, ¬Stop c) :
    ftpPort (n + 1) port text = (port <<< 8) + BitVec.ofInt 16 (atoi text) := by
  have hdrop : text.dropWhile (fun c => !isStop c) = [] := by
    rw [List.dropWhile_eq_nil_iff]
    intro c hc
    rw [not_isStop_iff.mpr hno c hc]
    rfl
  simp only [ftpPort]
  rw [if_neg (show ¬Option.any isdigit _ = false from hnumber), dropWhile_stop, hdrop,
    atoi_dropWhile]

theorem ftpPort_stop {n : Nat} {port : BitVec 16} {field text : List Byte} {stop : Byte}
    (hnumber : StartsNumber field) (hno : ∀ c ∈ field, ¬Stop c) (hstop : Stop stop) :
    ftpPort (n + 1) port (field ++ stop :: text) =
      ftpPort n ((port <<< 8) + BitVec.ofInt 16 (atoi field)) text := by
  have hspace : stop ≠ space := by rcases hstop with rfl | rfl <;> decide
  have hdrop := (takeWhile_cut (not_isStop_iff.mpr hno) (isStop_iff.mpr hstop) text).2
  have hstart := (startsNumber_append hstop.isdigit hspace field text).mpr hnumber
  simp only [ftpPort]
  rw [if_neg (show ¬Option.any isdigit _ = false from hstart), dropWhile_stop, hdrop,
    atoi_dropWhile, atoi_field hnumber hstop.isdigit]

theorem ftpPort_none {n : Nat} {port : BitVec 16} {text : List Byte} (h : ¬StartsNumber text) :
    ftpPort (n + 1) port text = 0 := by
  simp only [ftpPort]
  rw [if_pos (show Option.any isdigit _ = false from not_not.mp h)]

/-- A field without a stop, or in front of one. -/
theorem exists_stop (text : List Byte) : (∀ c ∈ text, ¬Stop c) ∨
    ∃ field stop rest, text = field ++ stop :: rest ∧ (∀ c ∈ field, ¬Stop c) ∧ Stop stop := by
  cases hdrop : text.dropWhile (fun c => !isStop c) with
  | nil =>
    left
    rw [List.dropWhile_eq_nil_iff] at hdrop
    refine not_isStop_iff.mp fun c hc => ?_
    simpa using hdrop c hc
  | cons stop rest =>
    right
    obtain ⟨field, htext, hstop, hfield⟩ := cut_of_dropWhile hdrop
    exact ⟨field, stop, rest, htext, not_isStop_iff.mp hfield, isStop_iff.mp hstop⟩

/-- The second number of the port ends at a stop or with the text. -/
theorem ftpPort_last {port : BitVec 16} {text : List Byte} (hnumber : StartsNumber text) :
    ftpPort 1 port text = (port <<< 8) + BitVec.ofInt 16 (atoi text) := by
  rcases exists_stop text with hno | ⟨field, stop, rest, rfl, hno, hstop⟩
  · exact ftpPort_few hnumber hno
  · have hspace : stop ≠ space := by rcases hstop with rfl | rfl <;> decide
    have hfield := (startsNumber_append hstop.isdigit hspace field rest).mp hnumber
    rw [ftpPort_stop hfield hno hstop, ftpPort, atoi_field hfield hstop.isdigit]

-- ---------------------------------------------------------------------------
-- Commands that are read
-- ---------------------------------------------------------------------------

theorem ftpParse_of_loose {isPasv : Bool} {payload rest : List Byte} {fields : List (List Byte)}
    (h : Loose isPasv payload fields rest) :
    ftpParsePortCommand payload isPasv = ftpPort 2 0 rest := by
  obtain ⟨args, hargs, hfields⟩ := h.args
  have haddress : ftpAddress 4 0 args = some (addressFrom 0 fields, rest) :=
    ftpAddress_eq_some_iff.mpr ⟨fields, h.four, hfields, rfl⟩
  simp only [ftpParsePortCommand]
  rw [← ftpText, hargs]
  simp only [haddress, if_neg h.address]

/-- What is not read as a command has no port. -/
theorem loose_of_ftpParse {isPasv : Bool} {payload : List Byte}
    (h : ftpParsePortCommand payload isPasv ≠ 0) :
    ∃ fields rest, Loose isPasv payload fields rest := by
  simp only [ftpParsePortCommand] at h
  rw [← ftpText] at h
  cases hargs : ftpArguments isPasv (ftpText payload) with
  | none => simp [hargs] at h
  | some args =>
    cases haddress : ftpAddress 4 0 args with
    | none =>
      simp only [hargs, haddress] at h
      exact absurd rfl h
    | some result =>
      obtain ⟨ip, rest⟩ := result
      simp only [hargs, haddress] at h
      obtain ⟨fields, hfour, hfields, rfl⟩ := ftpAddress_eq_some_iff.mp haddress
      split at h
      · exact absurd rfl h
      · next hzero =>
        refine ⟨fields, rest, ⟨args, hargs, hfields⟩, hfour, hzero, ?_⟩
        by_contra hnumber
        exact h (ftpPort_none hnumber)

theorem Number.value {text : List Byte} {n : Nat} (h : Number text n) (hle : n ≤ 255) :
    Router.atoi text = n := by
  simpa using h.atoi hle (show NoDigit [] from rfl)

/-- The address of four bytes. -/
def wordOf (a b c d : Nat) : Word := BitVec.ofNat 32 (a * 2 ^ 24 + b * 2 ^ 16 + c * 2 ^ 8 + d)

theorem addressFrom_four {f₁ f₂ f₃ f₄ : List Byte} {a b c d : Nat} (h₁ : atoi f₁ = a)
    (h₂ : atoi f₂ = b) (h₃ : atoi f₃ = c) (h₄ : atoi f₄ = d) :
    addressFrom 0 [f₁, f₂, f₃, f₄] = wordOf a b c d := by
  apply BitVec.eq_of_toNat_eq
  simp only [addressFrom, List.foldl_cons, List.foldl_nil, h₁, h₂, h₃, h₄, BitVec.ofInt_natCast,
    wordOf, BitVec.toNat_add, BitVec.toNat_shiftLeft, BitVec.toNat_ofNat, Nat.shiftLeft_eq]
  omega

/-- The five numbers with a comma behind them, and the last one. -/
theorem Numbers.split {a b c d p q : Nat} {args : List Byte} (h : Numbers [a, b, c, d, p, q] args) :
    ∃ fields fifth sixth, Fields fields args (fifth ++ comma :: sixth) ∧ fields.length = 4 ∧
      addressFrom 0 fields = wordOf a b c d ∧
      (∀ field ∈ fields ++ [fifth], ∃ n ≤ 255, Number field n) ∧ (atoi fifth = p ∧ p ≤ 255) ∧
      StartsNumber sixth ∧ atoi sixth = q ∧ q ≤ 255 := by
  obtain _ | ⟨h₁, hle₁, _ | ⟨h₂, hle₂, _ | ⟨h₃, hle₃, _ | ⟨h₄, hle₄, _ | ⟨h₅, hle₅, h₆⟩⟩⟩⟩⟩ := h
  obtain ⟨h₆, hle₆, hrest⟩ | ⟨_, _, h⟩ := h₆
  · have hfield : ∀ {field : List Byte} {n : Nat}, Number field n →
        StartsNumber field ∧ comma ∉ field := fun {field} {n} h =>
      ⟨by simpa using h.startsNumber [], fun hc => h.no_stop comma hc (.inl rfl)⟩
    refine ⟨_, _, _, .cons (hfield h₁).1 (hfield h₁).2 (.cons (hfield h₂).1 (hfield h₂).2
      (.cons (hfield h₃).1 (hfield h₃).2 (.cons (hfield h₄).1 (hfield h₄).2 .nil))), rfl,
      addressFrom_four (h₁.value hle₁) (h₂.value hle₂) (h₃.value hle₃) (h₄.value hle₄), ?_,
      ⟨h₅.value hle₅, hle₅⟩, h₆.startsNumber _, h₆.atoi hle₆ hrest, hle₆⟩
    simp only [List.cons_append, List.nil_append, List.forall_mem_cons, List.not_mem_nil,
      false_imp_iff, implies_true, and_true]
    exact ⟨⟨_, hle₁, h₁⟩, ⟨_, hle₂, h₂⟩, ⟨_, hle₃, h₃⟩, ⟨_, hle₄, h₄⟩, _, hle₅, h₅⟩
  · cases h

/-- Fields that are numbers, in front of numbers. -/
theorem Fields.numbers {fields : List (List Byte)} {text rest : List Byte}
    (h : Fields fields text rest) (hfields : ∀ field ∈ fields, ∃ n ≤ 255, Number field n)
    {ms : List Nat} (hms : Numbers ms rest) :
    ∃ ns, ns.length = fields.length ∧ Numbers (ns ++ ms) text := by
  induction h with
  | nil => exact ⟨[], rfl, hms⟩
  | cons _ _ _ ih =>
    obtain ⟨⟨n, hle, hn⟩, hfields⟩ := List.forall_mem_cons.mp hfields
    obtain ⟨ns, hlen, hns⟩ := ih hfields hms
    exact ⟨n :: ns, by rw [List.length_cons, List.length_cons, hlen], .cons hn hle hns⟩

theorem le_scanDigits (digits : List Byte) (acc : Nat) : acc ≤ scanDigits digits acc := by
  induction digits generalizing acc with
  | nil => exact le_refl _
  | cons d digits ih =>
    rw [scanDigits]
    split
    · exact le_trans (by omega) (ih _)
    · exact le_refl _

/-- No digit follows the code of a reply. -/
theorem noDigit_of_atoi {rest : List Byte} (h : atoi (ascii "227" ++ rest) = 227) :
    NoDigit rest := by
  by_contra hrest
  cases rest with
  | nil => exact hrest rfl
  | cons d rest =>
    have hd : isdigit d = true := by simpa [NoDigit] using hrest
    have hle := le_scanDigits rest (2270 + (d.toNat - 48))
    have hscan : scanInt ((ascii "227" ++ d :: rest).dropWhile isspace) =
        scanDigits rest (2270 + (d.toNat - 48)) := by
      have hdrop : (ascii "227" ++ d :: rest).dropWhile isspace = 0x32 :: 0x32 :: 0x37 :: d :: rest :=
        rfl
      have h₂ : isdigit 50#8 = true := rfl
      have h₇ : isdigit 55#8 = true := rfl
      rw [hdrop]
      simp [scanInt, scanDigits, hd, h₂, h₇]
    rw [atoi, hscan] at h
    omega

/-- Where the numbers start. -/
theorem command_iff {isPasv : Bool} {text args : List Byte} : Command isPasv text args ↔
    ftpArguments isPasv text = some args ∧ (isPasv = true → ascii "227" <+: text) := by
  cases isPasv with
  | true =>
    have hparen : ∀ front : List Byte, openParen ∉ front ↔ ∀ c ∈ front, (c == openParen) = false :=
      fun front => by
        constructor
        · intro h c hc
          simpa using fun heq : c = openParen => h (heq ▸ hc)
        · intro h hc
          cases h openParen hc
    have hne : ∀ text : List Byte, text.dropWhile (· ≠ openParen) =
        text.dropWhile (fun c => !(c == openParen)) := fun text => by
      congr 1
      funext c
      rw [decide_not, beq_eq_decide]
    simp only [Command, ftpArguments, if_true, true_imp_iff]
    constructor
    · rintro ⟨⟨rest, hcode, hrest⟩, hpassive, front, hfront, hno⟩
      have hatoi : atoi text = 227 := by
        have hnumber := atoi_number 0 (show ascii "227" ≠ [] by decide)
          (show ∀ d ∈ ascii "227", isdigit d = true by decide) hrest
        rw [hcode]
        exact hnumber
      have hdrop := (takeWhile_cut ((hparen front).mp hno)
        (show (openParen == openParen) = true from rfl) args).2
      rw [← hfront, ← hne] at hdrop
      rw [if_pos ⟨hatoi, hpassive⟩, hdrop]
      exact ⟨rfl, rest, hcode.symm⟩
    · rintro ⟨hargs, rest, hcode⟩
      split at hargs
      · next h =>
        cases hdrop : text.dropWhile (· ≠ openParen) with
        | nil =>
          rw [hdrop] at hargs
          cases hargs
        | cons c tail =>
          rw [hdrop] at hargs
          obtain rfl := Option.some.inj hargs
          rw [hne] at hdrop
          obtain ⟨front, hfront, hc, hno⟩ := cut_of_dropWhile hdrop
          obtain rfl : c = openParen := by simpa using hc
          refine ⟨⟨rest, hcode.symm, noDigit_of_atoi ?_⟩, h.2, front, hfront, (hparen front).mpr hno⟩
          rw [hcode]
          exact h.1
      · cases hargs
  | false =>
    simp only [Command, ftpArguments, Bool.false_eq_true, if_false, false_imp_iff, and_true]
    constructor
    · rintro rfl
      have hpre : (ascii "port ").isPrefixOf (ascii "port " ++ args) = true := by
        rw [List.isPrefixOf_iff_prefix]
        exact List.prefix_append _ _
      rw [if_pos hpre]
      rfl
    · intro h
      split at h
      · next hpre =>
        rw [List.isPrefixOf_iff_prefix] at hpre
        obtain ⟨rest, rfl⟩ := hpre
        obtain rfl := Option.some.inj h
        rfl
      · cases h

theorem toNat_port {p q : Nat} (hp : p ≤ 255) (hq : q ≤ 255) :
    ((BitVec.ofInt 16 p <<< 8) + BitVec.ofInt 16 q).toNat = 256 * p + q := by
  rw [BitVec.toNat_add, BitVec.toNat_shiftLeft, BitVec.ofInt_natCast, BitVec.ofInt_natCast,
    BitVec.toNat_ofNat, BitVec.toNat_ofNat, Nat.shiftLeft_eq]
  omega

theorem first_number (port : BitVec 16) : ((0 : BitVec 16) <<< 8) + port = port :=
  BitVec.zero_add port

/-- Two numbers for the port. -/
theorem ftpPort_two {fifth sixth : List Byte} {stop : Byte} (hno : ∀ c ∈ fifth, ¬Stop c)
    (hstop : Stop stop) (hfifth : StartsNumber fifth) (hsixth : StartsNumber sixth) :
    ftpPort 2 0 (fifth ++ stop :: sixth) =
      (BitVec.ofInt 16 (atoi fifth) <<< 8) + BitVec.ofInt 16 (atoi sixth) := by
  rw [ftpPort_stop hfifth hno hstop, ftpPort_last hsixth, first_number]

theorem Loose.fifth {isPasv : Bool} {payload fifth sixth : List Byte} {fields : List (List Byte)}
    {stop : Byte} (h : Loose isPasv payload fields (fifth ++ stop :: sixth)) (hstop : Stop stop) :
    StartsNumber fifth := by
  have hspace : stop ≠ space := by rcases hstop with rfl | rfl <;> decide
  exact (startsNumber_append hstop.isdigit hspace fifth sixth).mp h.number

/-- A sloppy command has a port, and is not well formed. -/
theorem Sloppy.not_wellFormed {isPasv : Bool} {payload : List Byte} (h : Sloppy isPasv payload) :
    ftpParsePortCommand payload isPasv ≠ 0 ∧ ∀ port, ¬WellFormed isPasv payload port := by
  obtain ⟨fields, rest, hloose, hsloppy⟩ := h
  -- A well-formed command has the same fields.
  have hwell : ∀ port, WellFormed isPasv payload port → ∃ fifth sixth,
      rest = fifth ++ comma :: sixth ∧ (∀ field ∈ fields ++ [fifth], ∃ n ≤ 255, Number field n) ∧
        atoi sixth ≤ 255 ∧ (isPasv = true → ascii "227" <+: ftpText payload) := by
    rintro port ⟨args, a, b, c, d, p, q, hcommand, hnumbers, -⟩
    obtain ⟨hargs, hcode⟩ := command_iff.mp hcommand
    obtain ⟨args', hargs', hfields⟩ := hloose.args
    obtain rfl := Option.some.inj (hargs.symm.trans hargs')
    obtain ⟨fields', fifth, sixth, hfields', hfour, -, hns, -, -, hsixth, hq⟩ := hnumbers.split
    obtain ⟨rfl, rfl⟩ := hfields.unique hfields' (hloose.four.trans hfour.symm)
    exact ⟨fifth, sixth, rfl, hns, by omega, hcode⟩
  rcases hsloppy with ⟨hno, hport⟩ | ⟨fifth, stop, sixth, rfl, hno, hstop, hsixth, hport, hbad⟩
  · constructor
    · rwa [ftpParse_of_loose hloose, ftpPort_few hloose.number hno, first_number]
    · intro port hw
      obtain ⟨fifth, sixth, rfl, -⟩ := hwell port hw
      exact hno comma (by simp) (.inl rfl)
  · constructor
    · rwa [ftpParse_of_loose hloose, ftpPort_two hno hstop (hloose.fifth hstop) hsixth]
    · intro port hw
      obtain ⟨fifth', sixth', hrest, hns, hle, hcode⟩ := hwell port hw
      obtain ⟨n, hn, hfifth'⟩ := hns fifth' (by simp)
      obtain ⟨rfl, rfl, rfl⟩ := cut_inj (not_isStop_iff.mpr hno)
        (not_isStop_iff.mpr hfifth'.no_stop) (isStop_iff.mpr hstop)
        (show isStop comma = true from rfl) hrest
      rcases hbad with ⟨field, hmem, hfield⟩ | hlarge | hparen | ⟨hpasv, hno227⟩
      · obtain ⟨n, hle, hn⟩ := hns field hmem
        exact hfield n hle hn
      · omega
      · cases hparen
      · exact hno227 (hcode hpasv)

/-- A command that is read and is not sloppy has six numbers. -/
theorem wellFormed_of_not_sloppy {isPasv : Bool} {payload : List Byte}
    (hport : ftpParsePortCommand payload isPasv ≠ 0) (h : ¬Sloppy isPasv payload) :
    WellFormed isPasv payload (ftpParsePortCommand payload isPasv) := by
  obtain ⟨fields, rest, hloose⟩ := loose_of_ftpParse hport
  rw [ftpParse_of_loose hloose] at hport ⊢
  rcases exists_stop rest with hno | ⟨fifth, stop, sixth, rfl, hno, hstop⟩
  · rw [ftpPort_few hloose.number hno, first_number] at hport
    exact absurd ⟨fields, rest, hloose, .inl ⟨hno, hport⟩⟩ h
  · have hfifth := hloose.fifth hstop
    have hsixth : StartsNumber sixth := by
      by_contra hsixth
      rw [ftpPort_stop hfifth hno hstop, ftpPort_none hsixth] at hport
      exact hport rfl
    rw [ftpPort_two hno hstop hfifth hsixth] at hport ⊢
    -- None of the four kinds of sloppiness.
    have hclean : ¬((∃ field ∈ fields ++ [fifth], ∀ n ≤ 255, ¬Number field n) ∨ 255 < atoi sixth ∨
        stop = closeParen ∨ isPasv = true ∧ ¬ascii "227" <+: ftpText payload) := fun hbad =>
      h ⟨fields, _, hloose, .inr ⟨fifth, stop, sixth, rfl, hno, hstop, hsixth, hport, hbad⟩⟩
    simp only [not_or, not_exists, not_and, not_forall, not_not, exists_prop] at hclean
    obtain ⟨hfields, hle, hparen, hcode⟩ := hclean
    obtain rfl := hstop.resolve_right hparen
    obtain ⟨args, hargs, hloosefields⟩ := hloose.args
    obtain ⟨p, hp, hnumber⟩ := hfields fifth (by simp)
    obtain ⟨blanks, digits, junk, rfl, hne, hdigits, hjunk⟩ := hsixth.split
    have hvalue := atoi_number blanks hne hdigits hjunk
    have hlast : Number (List.replicate blanks space ++ digits) (scanDigits digits 0) :=
      ⟨blanks, digits, rfl, hne, hdigits, rfl⟩
    have hq : scanDigits digits 0 ≤ 255 := by omega
    have hnumbers : Numbers [p, scanDigits digits 0]
        (fifth ++ comma :: (List.replicate blanks space ++ (digits ++ junk))) := by
      rw [← List.append_assoc (List.replicate blanks space)]
      exact .cons hnumber hp (.last hlast hq hjunk)
    obtain ⟨ns, hlen, hns⟩ := hloosefields.numbers
      (fun field hmem => hfields field (List.mem_append_left _ hmem)) hnumbers
    rw [hloose.four] at hlen
    obtain ⟨a, b, c, d, rfl⟩ := List.length_eq_four.mp hlen
    refine ⟨args, a, b, c, d, p, scanDigits digits 0, command_iff.mpr ⟨hargs, hcode⟩, hns, ?_⟩
    have hatoi := hnumber.value hp
    have hsix : atoi (List.replicate blanks space ++ (digits ++ junk)) =
        (scanDigits digits 0 : Nat) := by omega
    rw [hatoi, hsix, toNat_port hp hq]

theorem wellFormed_iff (isPasv : Bool) (payload : List Byte) :
    (ftpParsePortCommand payload isPasv ≠ 0 →
      WellFormed isPasv payload (ftpParsePortCommand payload isPasv)) ↔
        ¬Sloppy isPasv payload := by
  constructor
  · intro h hsloppy
    obtain ⟨hport, hnot⟩ := hsloppy.not_wellFormed
    exact hnot _ (h hport)
  · intro h hport
    exact wellFormed_of_not_sloppy hport h

-- ---------------------------------------------------------------------------
-- Commands that are written
-- ---------------------------------------------------------------------------

theorem printNat_number (n : Nat) : Number (printNat n) n :=
  ⟨0, printNat n, rfl, printNat_ne_nil n, fun _ => printNat_digit, (scanDigits_printNat n).symm⟩

theorem length_printNat {n : Nat} (h : n < 256) : (printNat n).length ≤ 3 := by
  unfold printNat
  split
  · decide
  · rw [List.length_map, List.length_reverse, Nat.digits_length_le_iff (by omega)]
    omega

/-- The numbers of a command, with commas between them. -/
def listed (a b c d p q : Nat) : List Byte :=
  printNat a ++ comma :: (printNat b ++ comma :: (printNat c ++ comma :: (printNat d ++
    comma :: (printNat p ++ comma :: printNat q))))

theorem Numbers.listed {a b c d p q : Nat} (ha : a < 256) (hb : b < 256) (hc : c < 256)
    (hd : d < 256) (hp : p < 256) (hq : q < 256) {rest : List Byte} (hrest : NoDigit rest) :
    Numbers [a, b, c, d, p, q] (listed a b c d p q ++ rest) := by
  have h := Numbers.cons (printNat_number a) (Nat.le_of_lt_succ ha)
    (.cons (printNat_number b) (Nat.le_of_lt_succ hb)
    (.cons (printNat_number c) (Nat.le_of_lt_succ hc)
    (.cons (printNat_number d) (Nat.le_of_lt_succ hd)
    (.cons (printNat_number p) (Nat.le_of_lt_succ hp)
    (.last (printNat_number q) (Nat.le_of_lt_succ hq) hrest)))))
  simpa only [Router.listed, List.append_assoc, List.cons_append] using h

theorem length_listed {a b c d p q : Nat} (ha : a < 256) (hb : b < 256) (hc : c < 256)
    (hd : d < 256) (hp : p < 256) (hq : q < 256) : (listed a b c d p q).length ≤ 23 := by
  have := length_printNat ha
  have := length_printNat hb
  have := length_printNat hc
  have := length_printNat hd
  have := length_printNat hp
  have := length_printNat hq
  simp only [listed, List.length_append, List.length_cons]
  omega

theorem map_ftpFold_listed (a b c d p q : Nat) :
    (listed a b c d p q).map ftpFold = listed a b c d p q := by
  have hdigit : ∀ c : Byte, isdigit c = true → ftpFold c = c := by decide
  have hprint : ∀ n, (printNat n).map ftpFold = printNat n := fun n =>
    (List.map_congr_left fun c hc => hdigit c (printNat_digit hc)).trans (List.map_id _)
  have hcomma : ftpFold comma = comma := by decide
  simp only [listed, List.map_append, List.map_cons, hprint, hcomma]

/-- What the router writes, with the address and the port as bytes. -/
theorem ftpModify_eq (ip : Word) (port : BitVec 16) (isPasv : Bool) :
    ∃ a b c d p q, a < 256 ∧ b < 256 ∧ c < 256 ∧ d < 256 ∧ p < 256 ∧ q < 256 ∧
      ip = wordOf a b c d ∧
      port.toNat = 256 * p + q ∧
      ftpModifyPortCommand ip port isPasv =
        if isPasv then ascii "227 Entering Passive Mode (" ++ (listed a b c d p q ++
          (ascii ")." ++ [0x0d#8, newline]))
        else ascii "PORT " ++ (listed a b c d p q ++ [0x0d#8, newline]) := by
  have hand : ∀ x : Word, (x &&& 0xff#32).toNat = x.toNat % 256 := fun x => by
    rw [BitVec.toNat_and, show (0xff#32).toNat = 2 ^ 8 - 1 from rfl, Nat.and_two_pow_sub_one_eq_mod]
  have hshift : ∀ (x : Word) (n : Nat), (x >>> n).toNat = x.toNat / 2 ^ n := fun x n => by
    rw [BitVec.toNat_ushiftRight, Nat.shiftRight_eq_div_pow]
  have hip := ip.isLt
  have hport := port.isLt
  refine ⟨ip.toNat / 2 ^ 24, ip.toNat / 2 ^ 16 % 256, ip.toNat / 2 ^ 8 % 256, ip.toNat % 256,
    port.toNat / 2 ^ 8 % 256, port.toNat % 256, by omega, by omega, by omega, by omega, by omega,
    by omega, ?_, by omega, ?_⟩
  · apply BitVec.eq_of_toNat_eq
    rw [wordOf, BitVec.toNat_ofNat]
    omega
  · have hwide : (port.setWidth 32).toNat = port.toNat := by
      rw [BitVec.toNat_setWidth]
      omega
    simp only [ftpModifyPortCommand, List.map_cons, List.map_nil, hand, hshift, hwide,
      List.intercalate, List.intersperse, List.flatten_cons, List.flatten_nil, listed,
      List.append_assoc, List.cons_append, List.nil_append, List.append_nil]

/-- A command with six numbers has its port, unless its address is zero. -/
theorem ftpParse_numbers {isPasv : Bool} {payload args : List Byte} {a b c d p q : Nat}
    (hcommand : Command isPasv (ftpText payload) args) (hnumbers : Numbers [a, b, c, d, p, q] args)
    (haddress : wordOf a b c d ≠ 0) :
    (ftpParsePortCommand payload isPasv).toNat = 256 * p + q := by
  obtain ⟨fields, fifth, sixth, hfields, hfour, hip, hns, ⟨hfifth, hp⟩, hsixth, hlast, hq⟩ :=
    hnumbers.split
  obtain ⟨n, hn, hnumber⟩ := hns fifth (by simp)
  have hstart : StartsNumber fifth := by simpa using hnumber.startsNumber []
  have hloose : Loose isPasv payload fields (fifth ++ comma :: sixth) :=
    ⟨⟨args, (command_iff.mp hcommand).1, hfields⟩, hfour, by rwa [hip], hnumber.startsNumber _⟩
  rw [ftpParse_of_loose hloose, ftpPort_two hnumber.no_stop (.inl rfl) hstart hsixth, hfifth, hlast,
    toNat_port hp hq]

/-- The router reads its own commands. -/
theorem ftpParse_ftpModify {ip : Word} (hip : ip ≠ 0) (port : BitVec 16) (isPasv : Bool) :
    ftpParsePortCommand (ftpModifyPortCommand ip port isPasv) isPasv = port ∧
      (ftpModifyPortCommand ip port isPasv).length ≤ 100 := by
  obtain ⟨a, b, c, d, p, q, ha, hb, hc, hd, hp, hq, rfl, hport, htext⟩ :=
    ftpModify_eq ip port isPasv
  have hlen := length_listed ha hb hc hd hp hq
  have hshort : (ftpModifyPortCommand (wordOf a b c d) port isPasv).length ≤ 60 := by
    rw [htext]
    split <;> simp [ascii] <;> omega
  refine ⟨BitVec.eq_of_toNat_eq ?_, by omega⟩
  rw [hport]
  have htake : (ftpModifyPortCommand (wordOf a b c d) port isPasv).take 99 =
      ftpModifyPortCommand (wordOf a b c d) port isPasv := List.take_of_length_le (by omega)
  cases isPasv with
  | false =>
    have hfold : ftpText (ftpModifyPortCommand (wordOf a b c d) port false) =
        ascii "port " ++ (listed a b c d p q ++ [space, space]) := by
      rw [ftpText, htake, htext, if_neg (by decide), List.map_append, List.map_append,
        map_ftpFold_listed]
      rfl
    exact ftpParse_numbers hfold (Numbers.listed ha hb hc hd hp hq rfl) hip
  | true =>
    have hfold : ftpText (ftpModifyPortCommand (wordOf a b c d) port true) =
        ascii "227 entering passive mode (" ++
          (listed a b c d p q ++ (ascii ")." ++ [space, space])) := by
      rw [ftpText, htake, htext, if_pos rfl, List.map_append, List.map_append, map_ftpFold_listed]
      rfl
    have hreply : Command true (ftpText (ftpModifyPortCommand (wordOf a b c d) port true))
        (listed a b c d p q ++ (ascii ")." ++ [space, space])) := by
      rw [hfold]
      refine ⟨⟨_, rfl, rfl⟩, ⟨ascii "227 entering ", ascii " mode (" ++ (listed a b c d p q ++
        (ascii ")." ++ [space, space])), rfl⟩, ascii "227 entering passive mode ", rfl, by decide⟩
    exact ftpParse_numbers hreply (Numbers.listed ha hb hc hd hp hq rfl) hip

/-- The router reads its own commands, and a command that it reads is well formed exactly when it
is not sloppy. -/
theorem ftp_exact (isPasv : Bool) (payload : List Byte) :
    (∀ ip ≠ 0, ∀ port ≠ 0,
      ftpParsePortCommand (ftpModifyPortCommand ip port isPasv) isPasv = port ∧
        (ftpModifyPortCommand ip port isPasv).length ≤ 100) ∧
      ((ftpParsePortCommand payload isPasv ≠ 0 →
        WellFormed isPasv payload (ftpParsePortCommand payload isPasv)) ↔
          ¬Sloppy isPasv payload) :=
  ⟨fun _ hip port _ => ftpParse_ftpModify hip port isPasv, wellFormed_iff isPasv payload⟩

theorem own_command : ftpParsePortCommand (ftpModifyPortCommand 0x0a000002 0x9307 false) false =
    0x9307 :=
  ((ftp_exact false []).1 0x0a000002 (by decide) 0x9307 (by decide)).1

/-- A command with five numbers. -/
def shortCommand : List Byte := ascii "PORT 10,0,0,2,7" ++ [0x0d#8, newline]

theorem shortCommand_accepted : ftpParsePortCommand shortCommand false ≠ 0 ∧
    ¬WellFormed false shortCommand (ftpParsePortCommand shortCommand false) := by
  have hsloppy : Sloppy false shortCommand := by
    refine ⟨[ascii "10", ascii "0", ascii "0", ascii "2"], ascii "7" ++ [space, space],
      ⟨⟨ascii "10,0,0,2,7" ++ [space, space], by decide, ?_⟩, rfl, by decide, by decide⟩,
      .inl ⟨by decide, by decide⟩⟩
    exact .cons (by decide) (by decide) (.cons (by decide) (by decide)
      (.cons (by decide) (by decide) (.cons (by decide) (by decide) .nil)))
  exact ⟨hsloppy.not_wellFormed.1, hsloppy.not_wellFormed.2 _⟩

end SheepShear.Router
