import EliotSearch.Library.Words

/-!
# Compact JSON texts

A format prints values as compact JSON and reads one printed value back from
the front of a longer text.  Its laws are fields, so a record format assembled
from the combinators below reads back what it prints and has a size bound that
is computed from its parts.  A number is the only text whose end is not marked
by itself; `Stops` says that the text after it cannot extend it.

Readers accept exactly the printed spelling: members in declaration order, no
insignificant blanks.
-/

namespace EliotSearch.Library.Json

/-- The bytes of an ASCII text. -/
def ascii (text : String) : Bytes :=
  text.toList.map fun letter => UInt8.ofNat letter.toNat

/-! ## Numbers -/

def isDigit (byte : UInt8) : Bool :=
  decide (48 ≤ byte.toNat) && decide (byte.toNat ≤ 57)

def digitByte (digit : Nat) : UInt8 := UInt8.ofNat (48 + digit)

/-- The decimal spelling of a number, without leading zeros. -/
def decimal (value : Nat) : Bytes :=
  if value = 0 then [digitByte 0] else (Nat.digits 10 value).reverse.map digitByte

def decimalValue (digits : Bytes) : Nat :=
  digits.foldl (fun total byte => 10 * total + (byte.toNat - 48)) 0

theorem digitByte_toNat {digit : Nat} (hdigit : digit < 10) :
    (digitByte digit).toNat = 48 + digit := by
  have hbyte : 48 + digit < 2 ^ 8 := by omega
  simpa [digitByte, UInt8.toNat_ofNat'] using hbyte

theorem decimalValue_map {digits : List Nat} (hdigits : ∀ digit ∈ digits, digit < 10) :
    decimalValue (digits.reverse.map digitByte) = Nat.ofDigits 10 digits := by
  rw [decimalValue, List.map_reverse, List.foldl_reverse, List.foldr_map]
  induction digits with
  | nil => rfl
  | cons digit digits ih =>
      have hdigit := hdigits digit List.mem_cons_self
      have hrest := ih fun other hmem => hdigits other (List.mem_cons_of_mem _ hmem)
      rw [List.foldr_cons, hrest, digitByte_toNat hdigit, Nat.ofDigits_cons]
      omega

@[simp]
theorem decimalValue_decimal (value : Nat) : decimalValue (decimal value) = value := by
  unfold decimal
  split
  · rename_i hzero
    subst hzero
    rfl
  · rw [decimalValue_map fun digit hmem => Nat.digits_lt_base (by decide) hmem,
      Nat.ofDigits_digits]

theorem decimal_injective {left right : Nat} (heq : decimal left = decimal right) :
    left = right := by
  rw [← decimalValue_decimal left, heq, decimalValue_decimal]

theorem decimal_ne_nil (value : Nat) : decimal value ≠ [] := by
  unfold decimal
  split
  · simp
  · rename_i hzero
    simpa [Nat.digits_eq_nil_iff_eq_zero] using hzero

theorem isDigit_digitByte {digit : Nat} (hdigit : digit < 10) :
    isDigit (digitByte digit) = true := by
  rw [isDigit, digitByte_toNat hdigit, Bool.and_eq_true, decide_eq_true_eq, decide_eq_true_eq]
  omega

theorem isDigit_of_mem_decimal {value : Nat} {byte : UInt8} (hmem : byte ∈ decimal value) :
    isDigit byte = true := by
  unfold decimal at hmem
  split at hmem
  · rw [List.mem_singleton] at hmem
    subst hmem
    exact isDigit_digitByte (by decide)
  · obtain ⟨digit, hdigit, rfl⟩ := List.mem_map.mp hmem
    exact isDigit_digitByte (Nat.digits_lt_base (by decide) (List.mem_reverse.mp hdigit))

theorem decimal_length_le {value width : Nat} (hwidth : 0 < width) (hvalue : value < 10 ^ width) :
    (decimal value).length ≤ width := by
  unfold decimal
  split
  · exact hwidth
  · rw [List.length_map, List.length_reverse]
    exact (Nat.digits_length_le_iff (by decide) value).mpr hvalue

/-- The text cannot extend a number that ends just before it. -/
def Stops (rest : Bytes) : Prop := ∀ byte ∈ rest.head?, isDigit byte = false

theorem stops_nil : Stops [] := by
  simp [Stops]

theorem stops_cons {byte : UInt8} (hbyte : isDigit byte = false) (rest : Bytes) :
    Stops (byte :: rest) := by
  simpa [Stops] using hbyte

theorem takeWhile_digits {digits rest : Bytes} (hdigits : ∀ byte ∈ digits, isDigit byte = true)
    (hrest : Stops rest) : (digits ++ rest).takeWhile isDigit = digits := by
  rw [List.takeWhile_append_of_pos hdigits]
  cases rest with
  | nil => simp
  | cons byte rest =>
      have hbyte : isDigit byte = false := hrest byte rfl
      simp [hbyte]

/-- Read the longest run of digits, provided it spells its number canonically. -/
def readDecimal (bytes : Bytes) : Option (Nat × Bytes) :=
  let digits := bytes.takeWhile isDigit
  let value := decimalValue digits
  if digits = decimal value then some (value, bytes.drop digits.length) else none

theorem readDecimal_decimal (value : Nat) {rest : Bytes} (hrest : Stops rest) :
    readDecimal (decimal value ++ rest) = some (value, rest) := by
  have hdigits : (decimal value ++ rest).takeWhile isDigit = decimal value :=
    takeWhile_digits (fun byte hmem => isDigit_of_mem_decimal hmem) hrest
  simp [readDecimal, hdigits]

/-! ## Fixed texts -/

/-- Remove a fixed text from the front. -/
def strip (text bytes : Bytes) : Option Bytes :=
  if text.isPrefixOf bytes then some (bytes.drop text.length) else none

@[simp]
theorem strip_append (text rest : Bytes) : strip text (text ++ rest) = some rest := by
  simp [strip]

theorem strip_cons_of_ne {first byte : UInt8} (hne : first ≠ byte) (text rest : Bytes) :
    strip (first :: text) (byte :: rest) = none := by
  simp [strip, List.isPrefixOf, hne]

/-- A one-byte punctuation mark, which always ends a number. -/
structure Mark where
  byte : UInt8
  not_digit : isDigit byte = false

def comma : Mark := ⟨44, by decide⟩

def brace : Mark := ⟨125, by decide⟩

def bracket : Mark := ⟨93, by decide⟩

@[simp]
theorem strip_mark (mark : Mark) (rest : Bytes) :
    strip [mark.byte] (mark.byte :: rest) = some rest :=
  strip_append [mark.byte] rest

theorem Mark.stops (mark : Mark) (rest : Bytes) : Stops (mark.byte :: rest) :=
  stops_cons mark.not_digit rest

/-! ## Formats -/

/-- A printer and a prefix reader of one type, with their round trip and a
bound on the printed size. -/
structure Format (α : Type) where
  print : α → Bytes
  read : Bytes → Option (α × Bytes)
  limit : Nat
  read_print : ∀ value rest, Stops rest → read (print value ++ rest) = some (value, rest)
  print_length_le : ∀ value, (print value).length ≤ limit

namespace Format

variable {α β : Type}

/-- Read a complete text. -/
def decode (format : Format α) (bytes : Bytes) : Option α :=
  match format.read bytes with
  | some (value, []) => some value
  | _ => none

@[simp]
theorem decode_print (format : Format α) (value : α) :
    format.decode (format.print value) = some value := by
  have hread := format.read_print value [] stops_nil
  rw [List.append_nil] at hread
  simp [decode, hread]

theorem print_injective (format : Format α) {left right : α}
    (heq : format.print left = format.print right) : left = right := by
  have hdecode := congrArg format.decode heq
  simpa using hdecode

/-- Change representation through a section of `pack`. -/
def iso (format : Format α) (pack : α → β) (unpack : β → α)
    (pack_unpack : ∀ value, pack (unpack value) = value) : Format β where
  print value := format.print (unpack value)
  read bytes := (format.read bytes).map fun found => (pack found.1, found.2)
  limit := format.limit
  read_print value rest hrest := by
    simp [format.read_print (unpack value) rest hrest, pack_unpack]
  print_length_le value := format.print_length_le (unpack value)

/-- A number below `bound`, whose spelling takes at most `width` digits. -/
def natural (bound width : Nat) (hwidth : 0 < width) (hbound : bound ≤ 10 ^ width) :
    Format (Fin bound) where
  print value := decimal value.val
  read bytes := do
    let (value, rest) ← readDecimal bytes
    if hvalue : value < bound then some (⟨value, hvalue⟩, rest) else none
  limit := width
  read_print value rest hrest := by
    simp [readDecimal_decimal value.val hrest]
  print_length_le value :=
    decimal_length_le hwidth (Nat.lt_of_lt_of_le value.isLt hbound)

def u8 : Format UInt8 :=
  (natural (2 ^ 8) 3 (by decide) (by decide)).iso (fun value => UInt8.ofNat value.val)
    (fun word => ⟨word.toNat, word.toNat_lt⟩) (fun word => UInt8.ofNat_toNat)

def u16 : Format UInt16 :=
  (natural (2 ^ 16) 5 (by decide) (by decide)).iso (fun value => UInt16.ofNat value.val)
    (fun word => ⟨word.toNat, word.toNat_lt⟩) (fun word => UInt16.ofNat_toNat)

def u64 : Format UInt64 :=
  (natural (2 ^ 64) 20 (by decide) (by decide)).iso (fun value => UInt64.ofNat value.val)
    (fun word => ⟨word.toNat, word.toNat_lt⟩) (fun word => UInt64.ofNat_toNat)

def bool : Format Bool where
  print value := if value then ascii "true" else ascii "false"
  read bytes :=
    match strip (ascii "true") bytes with
    | some rest => some (true, rest)
    | none => (strip (ascii "false") bytes).map fun rest => (false, rest)
  limit := 5
  read_print value rest _ := by
    cases value with
    | true => simp
    | false =>
        have hother : strip (ascii "true") (ascii "false" ++ rest) = none :=
          strip_cons_of_ne (by decide) _ _
        simp [hother]
  print_length_le value := by cases value <;> decide

/-- A value after a fixed text. -/
def prefixed (text : Bytes) (format : Format α) : Format α where
  print value := text ++ format.print value
  read bytes := (strip text bytes).bind format.read
  limit := text.length + format.limit
  read_print value rest hrest := by
    simp [List.append_assoc, format.read_print value rest hrest]
  print_length_le value := by
    have hvalue := format.print_length_le value
    simpa using hvalue

/-- A value before a punctuation mark. -/
def closed (format : Format α) (mark : Mark) : Format α where
  print value := format.print value ++ [mark.byte]
  read bytes := do
    let (value, rest) ← format.read bytes
    let rest ← strip [mark.byte] rest
    some (value, rest)
  limit := format.limit + 1
  read_print value rest _ := by
    have hread := format.read_print value (mark.byte :: rest) (mark.stops rest)
    simp [List.append_assoc, hread]
  print_length_le value := by
    have hvalue := format.print_length_le value
    simpa using hvalue

/-- Two values in order, separated by a comma. -/
def pair (first : Format α) (second : Format β) : Format (α × β) where
  print value := first.print value.1 ++ comma.byte :: second.print value.2
  read bytes := do
    let (left, rest) ← first.read bytes
    let rest ← strip [comma.byte] rest
    let (right, rest) ← second.read rest
    some ((left, right), rest)
  limit := first.limit + 1 + second.limit
  read_print value rest hrest := by
    have hfirst := first.read_print value.1 (comma.byte :: (second.print value.2 ++ rest))
      (comma.stops _)
    simp [List.append_assoc, hfirst, second.read_print value.2 rest hrest]
  print_length_le value := by
    have hfirst := first.print_length_le value.1
    have hsecond := second.print_length_le value.2
    simp only [List.length_append, List.length_cons]
    omega

/-- `null`, or a value whose text cannot be mistaken for `null`. -/
def optional (format : Format α)
    (not_null : ∀ value rest, strip (ascii "null") (format.print value ++ rest) = none) :
    Format (Option α) where
  print value := value.elim (ascii "null") format.print
  read bytes :=
    match strip (ascii "null") bytes with
    | some rest => some (none, rest)
    | none => (format.read bytes).map fun found => (some found.1, found.2)
  limit := max 4 format.limit
  read_print value rest hrest := by
    cases value with
    | none => simp
    | some value => simp [not_null, format.read_print value rest hrest]
  print_length_le value := by
    cases value with
    | none => exact le_max_left ..
    | some value => exact le_trans (format.print_length_le value) (le_max_right ..)

/-! ## Records -/

/-- The quoted member name and its colon. -/
def label (name : String) : Bytes := ascii "\"" ++ ascii name ++ ascii "\":"

/-- One named member of an object. -/
def field (name : String) (format : Format α) : Format α :=
  prefixed (label name) format

/-- The members of an object between braces. -/
def object (members : Format α) : Format α :=
  prefixed (ascii "\x7b") (members.closed brace)

theorem object_not_null (members : Format α) (value : α) (rest : Bytes) :
    strip (ascii "null") ((object members).print value ++ rest) = none :=
  strip_cons_of_ne (by decide) _ _

/-- A quoted name. -/
def quoted (name : String) : Bytes := ascii "\"" ++ ascii name ++ ascii "\""

/-- An enumeration with one bare variant and one variant that carries a value. -/
def bareOr (bare carrying : String) (format : Format α) : Format (Option α) where
  print value := value.elim (quoted bare) (object (field carrying format)).print
  read bytes :=
    match strip (quoted bare) bytes with
    | some rest => some (none, rest)
    | none => ((object (field carrying format)).read bytes).map
        fun found => (some found.1, found.2)
  limit := max (quoted bare).length (object (field carrying format)).limit
  read_print value rest hrest := by
    cases value with
    | none => simp only [Option.elim_none, strip_append]
    | some value =>
        have hother : strip (quoted bare)
            ((object (field carrying format)).print value ++ rest) = none :=
          strip_cons_of_ne (by decide) _ _
        simp only [Option.elim_some, hother,
          (object (field carrying format)).read_print value rest hrest, Option.map_some]
  print_length_le value := by
    cases value with
    | none => exact le_max_left _ _
    | some value =>
        exact le_trans ((object (field carrying format)).print_length_le value)
          (le_max_right _ _)

theorem bareOr_not_null (bare carrying : String) (format : Format α) (value : Option α)
    (rest : Bytes) :
    strip (ascii "null") ((bareOr bare carrying format).print value ++ rest) = none := by
  cases value with
  | none => exact strip_cons_of_ne (by decide) _ _
  | some value => exact object_not_null _ value rest

/-- The closing brace, after a last member that is left out when absent and may
be read under a second name. -/
def lastMember (name alternative : String) (format : Format α) : Format (Option α) where
  print value :=
    value.elim [brace.byte] fun last =>
      comma.byte :: (label name ++ format.print last) ++ [brace.byte]
  read bytes :=
    match strip [brace.byte] bytes with
    | some rest => some (none, rest)
    | none => do
        let rest ← strip [comma.byte] bytes
        let rest ← (strip (label name) rest).or (strip (label alternative) rest)
        let (last, rest) ← format.read rest
        let rest ← strip [brace.byte] rest
        some (some last, rest)
  limit := (label name).length + format.limit + 2
  read_print value rest _ := by
    cases value with
    | none =>
        have hclose : strip [brace.byte] (brace.byte :: rest) = some rest := strip_mark ..
        simp [hclose]
    | some last =>
        have hopen : strip [brace.byte]
            (comma.byte :: (label name ++ (format.print last ++ brace.byte :: rest))) = none :=
          strip_cons_of_ne (by decide) _ _
        have hlast := format.read_print last (brace.byte :: rest) (brace.stops rest)
        simp [List.append_assoc, hopen, hlast]
  print_length_le value := by
    cases value with
    | none => simp
    | some last =>
        have hlast := format.print_length_le last
        simp only [Option.elim_some, List.length_append, List.length_cons, List.length_nil]
        omega

theorem lastMember_stops (name alternative : String) (format : Format α) (value : Option α)
    (rest : Bytes) : Stops ((lastMember name alternative format).print value ++ rest) := by
  cases value with
  | none => exact brace.stops rest
  | some last => exact comma.stops _

/-- An object whose last member is left out when absent. -/
def objectWithLast (members : Format α) (name alternative : String) (format : Format β) :
    Format (α × Option β) where
  print value := ascii "\x7b" ++ members.print value.1 ++
    (lastMember name alternative format).print value.2
  read bytes := do
    let rest ← strip (ascii "\x7b") bytes
    let (first, rest) ← members.read rest
    let (last, rest) ← (lastMember name alternative format).read rest
    some ((first, last), rest)
  limit := 1 + members.limit + (lastMember name alternative format).limit
  read_print value rest hrest := by
    have hfirst := members.read_print value.1
      ((lastMember name alternative format).print value.2 ++ rest) (lastMember_stops name alternative format value.2 rest)
    have hlast := (lastMember name alternative format).read_print value.2 rest hrest
    simp [List.append_assoc, hfirst, hlast]
  print_length_le value := by
    have hfirst := members.print_length_le value.1
    have hlast := (lastMember name alternative format).print_length_le value.2
    have hopen : (ascii "\x7b").length = 1 := rfl
    simp only [List.length_append]
    omega

/-! ## Byte arrays -/

/-- The numbers of a nonempty byte array, separated by commas. -/
def bytesFormat : (count : Nat) → Format (Octets (count + 1))
  | 0 => u8.iso (fun byte => ⟨[byte], rfl⟩) (fun array => array.bytes.headD 0) (by
      rintro ⟨bytes, hlength⟩
      obtain ⟨byte, rfl⟩ := List.length_eq_one_iff.mp hlength
      rfl)
  | count + 1 => (pair u8 (bytesFormat count)).iso
      (fun found => ⟨found.1 :: found.2.bytes, by simp⟩)
      (fun array => (array.bytes.headD 0, ⟨array.bytes.tail, by simp⟩)) (by
        rintro ⟨bytes, hlength⟩
        cases bytes with
        | nil => simp at hlength
        | cons byte bytes => rfl)

/-- A nonempty byte array as a list of numbers. -/
def array (count : Nat) : Format (Octets (count + 1)) :=
  prefixed (ascii "[") ((bytesFormat count).closed bracket)

theorem array_not_null (count : Nat) (value : Octets (count + 1)) (rest : Bytes) :
    strip (ascii "null") ((array count).print value ++ rest) = none :=
  strip_cons_of_ne (by decide) _ _

/-! ## Byte lists -/

/-- The numbers of a byte list, separated by commas. -/
def itemsText : Bytes → Bytes
  | [] => []
  | [byte] => u8.print byte
  | byte :: rest => u8.print byte ++ comma.byte :: itemsText rest

/-- A byte list of any length as a list of numbers. -/
def listText (bytes : Bytes) : Bytes := ascii "[" ++ itemsText bytes ++ [bracket.byte]

def readItems : Nat → Bytes → Option (Bytes × Bytes)
  | 0, _ => none
  | fuel + 1, bytes => do
      let (byte, rest) ← u8.read bytes
      match strip [comma.byte] rest with
      | none => some ([byte], rest)
      | some rest => (readItems fuel rest).map fun found => (byte :: found.1, found.2)

/-- Each number takes at least one byte, so the text bounds the item count. -/
def readList (bytes : Bytes) : Option (Bytes × Bytes) := do
  let rest ← strip (ascii "[") bytes
  match strip [bracket.byte] rest with
  | some rest => some ([], rest)
  | none => do
      let (items, rest) ← readItems rest.length rest
      let rest ← strip [bracket.byte] rest
      some (items, rest)

theorem u8_print_pos (byte : UInt8) : 0 < (u8.print byte).length :=
  List.length_pos_iff.mpr (decimal_ne_nil byte.toNat)

theorem itemsText_length (bytes : Bytes) : bytes.length ≤ (itemsText bytes).length := by
  induction bytes with
  | nil => exact Nat.zero_le _
  | cons byte bytes ih =>
      have hbyte := u8_print_pos byte
      cases bytes with
      | nil => exact hbyte
      | cons other bytes =>
          simp only [itemsText, List.length_append, List.length_cons] at ih ⊢
          omega

/-- A nonempty item list starts with a digit. -/
theorem itemsText_head {bytes : Bytes} (hnonempty : bytes ≠ []) :
    ∃ first rest, itemsText bytes = first :: rest ∧ isDigit first = true := by
  cases bytes with
  | nil => exact absurd rfl hnonempty
  | cons byte bytes =>
      obtain ⟨first, digits, hprint⟩ := List.exists_cons_of_length_pos (u8_print_pos byte)
      have hdigit : isDigit first = true := by
        have hmem : first ∈ u8.print byte := by
          rw [hprint]
          exact List.mem_cons_self
        exact isDigit_of_mem_decimal hmem
      cases bytes with
      | nil => exact ⟨first, digits, hprint, hdigit⟩
      | cons other bytes =>
          refine ⟨first, digits ++ comma.byte :: itemsText (other :: bytes), ?_, hdigit⟩
          simp [itemsText, hprint]

theorem readItems_itemsText {fuel : Nat} {bytes rest : Bytes} (hnonempty : bytes ≠ [])
    (hfuel : bytes.length ≤ fuel) :
    readItems fuel (itemsText bytes ++ bracket.byte :: rest) =
      some (bytes, bracket.byte :: rest) := by
  induction bytes generalizing fuel with
  | nil => exact absurd rfl hnonempty
  | cons byte bytes ih =>
      obtain ⟨fuel, rfl⟩ := Nat.exists_eq_add_of_lt (Nat.lt_of_lt_of_le (Nat.succ_pos _) hfuel)
      rw [Nat.zero_add]
      cases bytes with
      | nil =>
          have hclose : strip [comma.byte] (bracket.byte :: rest) = none :=
            strip_cons_of_ne (by decide) _ _
          have hread := u8.read_print byte (bracket.byte :: rest) (bracket.stops rest)
          simp [readItems, itemsText, hread, hclose]
      | cons other bytes =>
          have hread := u8.read_print byte
            (comma.byte :: (itemsText (other :: bytes) ++ bracket.byte :: rest)) (comma.stops _)
          have hrest := ih (by simp) (by simpa using hfuel)
          simp only [readItems, itemsText, List.append_assoc, List.cons_append, hread,
            Option.bind_eq_bind, Option.bind_some, strip_mark]
          rw [hrest]
          rfl

theorem readList_listText (bytes rest : Bytes) :
    readList (listText bytes ++ rest) = some (bytes, rest) := by
  by_cases hempty : bytes = []
  · subst hempty
    simp [readList, listText, itemsText]
  · obtain ⟨first, digits, hitems, hdigit⟩ := itemsText_head hempty
    have hopen : strip [bracket.byte] (itemsText bytes ++ bracket.byte :: rest) = none := by
      rw [hitems]
      refine strip_cons_of_ne (fun heq => ?_) _ _
      rw [← heq, bracket.not_digit] at hdigit
      cases hdigit
    have hfuel : bytes.length ≤ (itemsText bytes ++ bracket.byte :: rest).length := by
      have hitems := itemsText_length bytes
      simp only [List.length_append]
      omega
    simp only [readList, listText, List.append_assoc, strip_append, Option.bind_eq_bind,
      Option.bind_some, List.singleton_append]
    rw [hopen, readItems_itemsText hempty hfuel]
    simp

end Format

end EliotSearch.Library.Json
