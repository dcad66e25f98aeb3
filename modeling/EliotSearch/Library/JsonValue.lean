import EliotSearch.Library.Hex
import EliotSearch.Library.Utf8

/-!
# JSON values

Values as a generic writer takes them and a generic reader returns them: the
members of an object are ordered by name.  A printed value is a text without
control characters, and no longer than its parts allow.  The reader at the end
reads back exactly what the printer writes.
-/

namespace EliotSearch.Library.Json

open EliotSearch.Library.Hex
open EliotSearch.Library.Utf8

/-! ## Strings -/

/-- The short letter of a control character or mark that has one. -/
def shortEscape (byte : UInt8) : Option UInt8 :=
  match byte.toNat with
  | 8 => some 98
  | 9 => some 116
  | 10 => some 110
  | 12 => some 102
  | 13 => some 114
  | 34 => some 34
  | 92 => some 92
  | _ => none

/-- One byte of a text inside a JSON string. -/
def escape (byte : UInt8) : Bytes :=
  match shortEscape byte with
  | some letter => [92, letter]
  | none => if byte.toNat < 32 then ascii "\\u00" ++ hexByte byte else [byte]

def quote (text : Bytes) : Bytes := [34] ++ text.flatMap escape ++ [34]

theorem escape_length_le (byte : UInt8) : (escape byte).length ≤ 6 := by
  unfold escape
  split
  · simp
  · split
    · simp [ascii, hexByte]
    · simp

theorem flatMap_escape_length_le (text : Bytes) :
    (text.flatMap escape).length ≤ 6 * text.length := by
  induction text with
  | nil => exact le_rfl
  | cons byte text ih =>
      have hbyte := escape_length_le byte
      rw [List.flatMap_cons, List.length_append, List.length_cons]
      omega

theorem quote_length_le (text : Bytes) : (quote text).length ≤ 6 * text.length + 2 := by
  have hinside := flatMap_escape_length_le text
  simp only [quote, List.length_append, List.length_cons, List.length_nil]
  omega

/-- A byte outside the control characters. -/
def Printable (byte : UInt8) : Prop := 32 ≤ byte.toNat

instance (byte : UInt8) : Decidable (Printable byte) :=
  inferInstanceAs (Decidable (_ ≤ _))

/-- Every byte that needs an escape is an ASCII one. -/
theorem escape_ascii {byte : UInt8} (hascii : byte.toNat < 128) :
    ∀ found ∈ escape byte, found.toNat < 128 ∧ Printable found := by
  have hall : ∀ value < 128, ∀ found ∈ escape (UInt8.ofNat value),
      found.toNat < 128 ∧ 32 ≤ found.toNat := by decide +kernel
  have hbyte := hall byte.toNat hascii
  rw [UInt8.ofNat_toNat] at hbyte
  exact hbyte

theorem escape_of_le {byte : UInt8} (hbyte : 128 ≤ byte.toNat) : escape byte = [byte] := by
  have hshort : shortEscape byte = none := by
    unfold shortEscape
    split
    all_goals first | omega | rfl
  rw [escape, hshort]
  exact if_neg (by omega)

theorem escape_printable {byte found : UInt8} (hmem : found ∈ escape byte) : Printable found := by
  rcases Nat.lt_or_ge byte.toNat 128 with hascii | hlarge
  · exact (escape_ascii hascii found hmem).2
  · rw [escape_of_le hlarge, List.mem_singleton] at hmem
    rw [hmem]
    exact Nat.le_trans (by decide) hlarge

/-- Two texts behind one another are a text. -/
theorem valid_append {first second : Bytes} (hfirst : Valid first) (hsecond : Valid second) :
    Valid (first ++ second) := by
  obtain ⟨left, rfl⟩ := hfirst
  obtain ⟨right, rfl⟩ := hsecond
  exact ⟨left ++ right, encode_append left right⟩

theorem encodeChar_of_ascii {byte : UInt8} (hascii : byte.toNat < 128) :
    String.utf8EncodeChar (Char.ofNat byte.toNat) = [byte] := by
  have hall : ∀ value < 128,
      String.utf8EncodeChar (Char.ofNat value) = [UInt8.ofNat value] := by decide +kernel
  have hbyte := hall byte.toNat hascii
  rwa [UInt8.ofNat_toNat] at hbyte

/-- ASCII bytes spell a text. -/
theorem valid_of_ascii {bytes : Bytes} (hascii : ∀ byte ∈ bytes, byte.toNat < 128) :
    Valid bytes := by
  induction bytes with
  | nil => exact ⟨[], rfl⟩
  | cons byte bytes ih =>
      have hrest := ih fun other hmem => hascii other (List.mem_cons_of_mem byte hmem)
      have hsingle : Valid [byte] := by
        refine ⟨[Char.ofNat byte.toNat], ?_⟩
        rw [encode_cons, encode_nil, List.append_nil]
        exact encodeChar_of_ascii (hascii byte List.mem_cons_self)
      exact valid_append hsingle hrest

/-- The spelling of a scalar is one ASCII byte, or has none. -/
theorem encodeChar_bytes (scalar : Char) :
    (∃ byte, String.utf8EncodeChar scalar = [byte] ∧ byte.toNat < 128) ∨
      ∀ byte ∈ String.utf8EncodeChar scalar, 128 ≤ byte.toNat := by
  obtain ⟨lead, tail, hchar, hlead, htail⟩ := encodeChar_shape scalar
  rcases Nat.lt_or_ge lead.toNat 128 with hascii | hlarge
  · left
    refine ⟨lead, ?_, hascii⟩
    rw [hchar, encodeChar_ascii hchar hascii]
  · right
    rw [hchar]
    intro byte hmem
    rcases List.mem_cons.mp hmem with rfl | hmem
    · exact hlarge
    · exact (htail byte hmem).1

theorem flatMap_escape_of_le {bytes : Bytes} (hlarge : ∀ byte ∈ bytes, 128 ≤ byte.toNat) :
    bytes.flatMap escape = bytes := by
  induction bytes with
  | nil => rfl
  | cons byte bytes ih =>
      rw [List.flatMap_cons, escape_of_le (hlarge byte List.mem_cons_self),
        ih fun other hmem => hlarge other (List.mem_cons_of_mem byte hmem)]
      rfl

/-- An escaped text is a text. -/
theorem valid_escaped {text : Bytes} (hvalid : Valid text) : Valid (text.flatMap escape) := by
  obtain ⟨scalars, rfl⟩ := hvalid
  induction scalars with
  | nil => exact ⟨[], rfl⟩
  | cons scalar scalars ih =>
      rw [encode_cons, List.flatMap_append]
      refine valid_append ?_ ih
      rcases encodeChar_bytes scalar with ⟨byte, hchar, hascii⟩ | hlarge
      · rw [hchar, List.flatMap_singleton]
        exact valid_of_ascii fun found hmem => (escape_ascii hascii found hmem).1
      · rw [flatMap_escape_of_le hlarge]
        refine ⟨[scalar], ?_⟩
        rw [encode_cons, encode_nil, List.append_nil]

theorem valid_quote {text : Bytes} (hvalid : Valid text) : Valid (quote text) := by
  have hmark : Valid [34] := valid_of_ascii (by decide)
  exact valid_append (valid_append hmark (valid_escaped hvalid)) hmark

/-! ## Values -/

/-- A JSON value, without the arrays and numbers that are no 64-bit naturals. -/
inductive Value where
  | null
  | bool (value : Bool)
  | number (value : UInt64)
  | string (text : Text)
  | object (members : List (String × Value))

mutual

/-- The compact text of a value. -/
def Value.print : Value → Bytes
  | .null => ascii "null"
  | .bool value => if value then ascii "true" else ascii "false"
  | .number value => decimal value.toNat
  | .string text => quote text.bytes
  | .object [] => [123, 125]
  | .object ((name, value) :: members) =>
      [123] ++ quote (ascii name) ++ [58] ++ value.print ++ printMembers members ++ [125]

/-- The members behind the first one. -/
def printMembers : List (String × Value) → Bytes
  | [] => []
  | (name, value) :: members =>
      [44] ++ quote (ascii name) ++ [58] ++ value.print ++ printMembers members

end

mutual

/-- A bound on the length of the printed value. -/
def Value.budget : Value → Nat
  | .null => 4
  | .bool _ => 5
  | .number _ => 20
  | .string text => 6 * text.bytes.length + 2
  | .object members => 2 + membersBudget members

def membersBudget : List (String × Value) → Nat
  | [] => 0
  | (name, value) :: members =>
      (quote (ascii name)).length + 2 + value.budget + membersBudget members

end

mutual

/-- The names of every object are ASCII and in ascending order. -/
def Value.Ordered : Value → Prop
  | .object members => OrderedMembers none members
  | _ => True

def OrderedMembers (above : Option String) : List (String × Value) → Prop
  | [] => True
  | (name, value) :: members =>
      (∀ other ∈ above, other < name) ∧ (∀ letter ∈ name.toList, letter.toNat < 128) ∧
        value.Ordered ∧ OrderedMembers (some name) members

end

mutual

/-- How deep objects are nested. -/
def Value.depth : Value → Nat
  | .object members => 1 + membersDepth members
  | _ => 0

def membersDepth : List (String × Value) → Nat
  | [] => 0
  | (_, value) :: members => max value.depth (membersDepth members)

end

/-! ## Access -/

namespace Value

/-- A text written in the source. -/
def literal (text : String) : Text := ⟨encode text.toList, ⟨text.toList, rfl⟩⟩

def asObject : Value → Option (List (String × Value))
  | object members => some members
  | _ => none

/-- The member of an object under a name. -/
def get (value : Value) (name : String) : Option Value :=
  value.asObject.bind fun members => members.lookup name

def asStr : Value → Option Text
  | string text => some text
  | _ => none

def asU64 : Value → Option UInt64
  | number value => some value
  | _ => none

def isNull : Value → Bool
  | null => true
  | _ => false

def isBoolean : Value → Bool
  | bool _ => true
  | _ => false

end Value

/-- Store a member at its place, over an older one of the same name. -/
def insertMember (name : String) (value : Value) :
    List (String × Value) → List (String × Value)
  | [] => [(name, value)]
  | (other, old) :: members =>
      if name = other then (name, value) :: members
      else if name < other then (name, value) :: (other, old) :: members
      else (other, old) :: insertMember name value members

/-- Assign a member of an object. -/
def Value.set (value : Value) (name : String) (member : Value) : Value :=
  match value with
  | .object members => .object (insertMember name member members)
  | other => other

/-! ## The printed text -/

theorem decimal_word_length_le (value : UInt64) : (decimal value.toNat).length ≤ 20 :=
  decimal_length_le (by decide) (Nat.lt_of_lt_of_le value.toNat_lt (by decide))

mutual

theorem print_length_le (value : Value) : value.print.length ≤ value.budget := by
  cases value with
  | null => exact le_rfl
  | bool value => cases value <;> decide
  | number value => exact decimal_word_length_le value
  | string text => exact quote_length_le text.bytes
  | object members =>
      cases members with
      | nil => exact le_rfl
      | cons member members =>
          obtain ⟨name, value⟩ := member
          have hvalue := print_length_le value
          have hmembers := printMembers_length_le members
          simp only [Value.print, Value.budget, membersBudget, List.length_append,
            List.length_cons, List.length_nil]
          omega

theorem printMembers_length_le (members : List (String × Value)) :
    (printMembers members).length ≤ membersBudget members := by
  cases members with
  | nil => exact le_rfl
  | cons member members =>
      obtain ⟨name, value⟩ := member
      have hvalue := print_length_le value
      have hmembers := printMembers_length_le members
      simp only [printMembers, membersBudget, List.length_append, List.length_cons,
        List.length_nil]
      omega

end

theorem quote_printable {text : Bytes} : ∀ byte ∈ quote text, Printable byte := by
  intro byte hmem
  simp only [quote, List.mem_append, List.mem_singleton, List.mem_flatMap] at hmem
  rcases hmem with (rfl | ⟨source, -, hmem⟩) | rfl
  · decide +kernel
  · exact escape_printable hmem
  · decide +kernel

theorem decimal_printable (value : Nat) : ∀ byte ∈ decimal value, Printable byte := by
  intro byte hmem
  have hdigit := isDigit_of_mem_decimal hmem
  simp only [isDigit, Bool.and_eq_true, decide_eq_true_eq] at hdigit
  exact Nat.le_trans (by decide) hdigit.1

mutual

/-- No byte of a printed value is a control character. -/
theorem print_printable (value : Value) : ∀ byte ∈ value.print, Printable byte := by
  cases value with
  | null => simp only [Value.print]; decide +kernel
  | bool value => cases value <;> (simp only [Value.print]; decide +kernel)
  | number value => exact decimal_printable value.toNat
  | string text => exact quote_printable
  | object members =>
      cases members with
      | nil => simp only [Value.print]; decide +kernel
      | cons member members =>
          obtain ⟨name, value⟩ := member
          intro byte hmem
          simp only [Value.print, List.mem_append, List.mem_singleton] at hmem
          rcases hmem with ((((rfl | hname) | rfl) | hvalue) | hmembers) | rfl
          · decide +kernel
          · exact quote_printable byte hname
          · decide +kernel
          · exact print_printable value byte hvalue
          · exact printMembers_printable members byte hmembers
          · decide +kernel

theorem printMembers_printable (members : List (String × Value)) :
    ∀ byte ∈ printMembers members, Printable byte := by
  cases members with
  | nil => exact fun byte hmem => absurd hmem List.not_mem_nil
  | cons member members =>
      obtain ⟨name, value⟩ := member
      intro byte hmem
      simp only [printMembers, List.mem_append, List.mem_singleton] at hmem
      rcases hmem with (((rfl | hname) | rfl) | hvalue) | hmembers
      · decide +kernel
      · exact quote_printable byte hname
      · decide +kernel
      · exact print_printable value byte hvalue
      · exact printMembers_printable members byte hmembers

end

theorem decimal_valid (value : Nat) : Valid (decimal value) := by
  refine valid_of_ascii fun byte hmem => ?_
  have hdigit := isDigit_of_mem_decimal hmem
  simp only [isDigit, Bool.and_eq_true, decide_eq_true_eq] at hdigit
  exact Nat.lt_of_le_of_lt hdigit.2 (by decide)

/-- The quoted spelling of an ASCII name is a text. -/
theorem name_valid {name : String} (hname : ∀ letter ∈ name.toList, letter.toNat < 128) :
    Valid (quote (ascii name)) := by
  refine valid_quote (valid_of_ascii fun byte hmem => ?_)
  obtain ⟨letter, hletter, rfl⟩ := List.mem_map.mp hmem
  have hascii := hname letter hletter
  rw [UInt8.toNat_ofNat']
  omega

mutual

/-- A printed value is a text. -/
theorem print_valid (value : Value) (hordered : value.Ordered) : Valid value.print := by
  cases value with
  | null => exact valid_of_ascii (by simp only [Value.print]; decide +kernel)
  | bool value =>
      cases value <;> exact valid_of_ascii (by simp only [Value.print]; decide +kernel)
  | number value => exact decimal_valid value.toNat
  | string text => exact valid_quote text.valid
  | object members =>
      rw [Value.Ordered] at hordered
      cases members with
      | nil => exact valid_of_ascii (by simp only [Value.print]; decide +kernel)
      | cons member members =>
          obtain ⟨name, value⟩ := member
          rw [OrderedMembers] at hordered
          obtain ⟨-, hname, hvalue, hmembers⟩ := hordered
          rw [Value.print]
          have hopen : Valid [123] := valid_of_ascii (by decide)
          have hcolon : Valid [58] := valid_of_ascii (by decide)
          have hclose : Valid [125] := valid_of_ascii (by decide)
          exact valid_append (valid_append (valid_append (valid_append (valid_append hopen
            (name_valid hname)) hcolon) (print_valid value hvalue))
              (printMembers_valid members hmembers)) hclose

theorem printMembers_valid {above : Option String} (members : List (String × Value))
    (hordered : OrderedMembers above members) : Valid (printMembers members) := by
  cases members with
  | nil => exact ⟨[], rfl⟩
  | cons member members =>
      obtain ⟨name, value⟩ := member
      rw [OrderedMembers] at hordered
      obtain ⟨-, hname, hvalue, hmembers⟩ := hordered
      rw [printMembers]
      have hcomma : Valid [44] := valid_of_ascii (by decide)
      have hcolon : Valid [58] := valid_of_ascii (by decide)
      exact valid_append (valid_append (valid_append (valid_append hcomma (name_valid hname))
        hcolon) (print_valid value hvalue)) (printMembers_valid members hmembers)

end

/-! ## Members -/

/-- The names are ASCII and ascend. -/
def ascending : Option String → List String → Bool
  | _, [] => true
  | above, name :: names =>
      above.all (fun other => decide (other < name)) &&
        name.toList.all (fun letter => decide (letter.toNat < 128)) && ascending (some name) names

theorem orderedMembers_of {above : Option String} {members : List (String × Value)}
    (hnames : ascending above (members.map Prod.fst) = true)
    (hvalues : ∀ member ∈ members, member.2.Ordered) : OrderedMembers above members := by
  induction members generalizing above with
  | nil =>
      rw [OrderedMembers]
      trivial
  | cons member members ih =>
      obtain ⟨name, value⟩ := member
      rw [List.map_cons, ascending, Bool.and_eq_true, Bool.and_eq_true] at hnames
      obtain ⟨⟨habove, hname⟩, hbehind⟩ := hnames
      rw [OrderedMembers]
      refine ⟨fun other hother => ?_, fun letter hmem => ?_, ?_, ?_⟩
      · rw [Option.mem_def] at hother
        rw [hother, Option.all_some] at habove
        exact of_decide_eq_true habove
      · exact of_decide_eq_true (List.all_eq_true.mp hname letter hmem)
      · exact hvalues (name, value) List.mem_cons_self
      · exact ih hbehind fun other hmem => hvalues other (List.mem_cons_of_mem _ hmem)

theorem membersDepth_le {members : List (String × Value)} {bound : Nat}
    (hvalues : ∀ member ∈ members, member.2.depth ≤ bound) : membersDepth members ≤ bound := by
  induction members with
  | nil =>
      rw [membersDepth]
      exact Nat.zero_le bound
  | cons member members ih =>
      obtain ⟨name, value⟩ := member
      rw [membersDepth]
      exact Nat.max_le.mpr ⟨hvalues (name, value) List.mem_cons_self,
        ih fun other hmem => hvalues other (List.mem_cons_of_mem _ hmem)⟩

/-- What the names of members take, with their marks. -/
def namesBudget (names : List String) : Nat :=
  (names.map fun name => (quote (ascii name)).length + 2).sum

theorem budget_object (members : List (String × Value)) :
    (Value.object members).budget =
      2 + namesBudget (members.map Prod.fst) + (members.map fun member => member.2.budget).sum := by
  have hmembers : membersBudget members =
      namesBudget (members.map Prod.fst) + (members.map fun member => member.2.budget).sum := by
    induction members with
    | nil => rw [membersBudget, namesBudget, List.map_nil, List.map_nil, List.map_nil]; rfl
    | cons member members ih =>
        obtain ⟨name, value⟩ := member
        rw [membersBudget, ih]
        simp only [namesBudget, List.map_cons, List.sum_cons]
        omega
  rw [Value.budget, hmembers, Nat.add_assoc]

/-! ## Reading -/

/-- What the reader of a document does with the documents that a writer of the
same values prints: it returns the value, unless it is nested too deep. -/
structure ValueReader where
  fromSlice : Bytes → Option Value
  reads : ∀ value : Value, value.Ordered → value.depth < 128 → fromSlice value.print = some value

def longEscape (letter : UInt8) : Option UInt8 :=
  [8, 9, 10, 12, 13, 34, 92].find? fun byte => shortEscape byte == some letter

/-- One byte of a string, escaped or not. -/
def readByte : Bytes → Option (UInt8 × Bytes)
  | 92 :: 117 :: rest => do
      let rest ← strip [48, 48] rest
      match rest with
      | high :: low :: rest => do
          let high ← lowerHex high
          let low ← lowerHex low
          return (UInt8.ofNat (16 * high + low), rest)
      | _ => none
  | 92 :: letter :: rest => (longEscape letter).map fun byte => (byte, rest)
  | byte :: rest => if Printable byte ∧ byte ≠ 34 ∧ byte ≠ 92 then some (byte, rest) else none
  | [] => none

/-- The text of a string behind its opening mark. -/
def readText : (fuel : Nat) → Bytes → Option (Bytes × Bytes)
  | 0, _ => none
  | fuel + 1, bytes =>
      if bytes.head? = some 34 then some ([], bytes.tail)
      else do
        let (byte, rest) ← readByte bytes
        let (text, rest) ← readText fuel rest
        return (byte :: text, rest)

def readQuoted (bytes : Bytes) : Option (Bytes × Bytes) := do
  let rest ← strip [34] bytes
  readText rest.length rest

/-- The name of a member with its colon. -/
def readName (bytes : Bytes) : Option (String × Bytes) := do
  let (name, rest) ← readQuoted bytes
  let rest ← strip [58] rest
  return (String.ofList (name.map fun byte => Char.ofNat byte.toNat), rest)

mutual

def readValue : (fuel : Nat) → Bytes → Option (Value × Bytes)
  | 0, _ => none
  | fuel + 1, bytes =>
      match bytes.head? with
      | some 110 => (strip (ascii "null") bytes).map fun rest => (.null, rest)
      | some 116 => (strip (ascii "true") bytes).map fun rest => (.bool true, rest)
      | some 102 => (strip (ascii "false") bytes).map fun rest => (.bool false, rest)
      | some 34 => do
          let (text, rest) ← readQuoted bytes
          let text ← Text.ofBytes text
          return (.string text, rest)
      | some 123 =>
          if bytes.tail.head? = some 125 then some (.object [], bytes.tail.tail)
          else do
            let (name, rest) ← readName bytes.tail
            let (value, rest) ← readValue fuel rest
            let (members, rest) ← readMembers fuel rest
            return (.object ((name, value) :: members), rest)
      | _ => do
          let (value, rest) ← readDecimal bytes
          if value < 2 ^ 64 then return (.number (UInt64.ofNat value), rest) else none

def readMembers : (fuel : Nat) → Bytes → Option (List (String × Value) × Bytes)
  | 0, _ => none
  | fuel + 1, bytes =>
      match bytes.head? with
      | some 125 => some ([], bytes.tail)
      | some 44 => do
          let (name, rest) ← readName bytes.tail
          let (value, rest) ← readValue fuel rest
          let (members, rest) ← readMembers fuel rest
          return ((name, value) :: members, rest)
      | _ => none

end

theorem shortEscape_cases {byte letter : UInt8} (hshort : shortEscape byte = some letter) :
    longEscape letter = some byte ∧ letter ≠ 117 := by
  have hall : ∀ value < 256, ∀ letter ∈ shortEscape (UInt8.ofNat value),
      longEscape letter = some (UInt8.ofNat value) ∧ letter ≠ 117 := by decide +kernel
  have hbyte := hall byte.toNat byte.toNat_lt
  rw [UInt8.ofNat_toNat] at hbyte
  exact hbyte letter hshort

/-- An escaped byte is read back, and does not look like the closing mark. -/
theorem readByte_escape (byte : UInt8) (rest : Bytes) :
    readByte (escape byte ++ rest) = some (byte, rest) ∧
      (escape byte ++ rest).head? ≠ some 34 := by
  unfold escape
  cases hshort : shortEscape byte with
  | some letter =>
      obtain ⟨hlong, hletter⟩ := shortEscape_cases hshort
      constructor
      · simp only [List.cons_append, List.nil_append]
        rw [readByte]
        · rw [hlong, Option.map_some]
        · intro heq
          exact hletter heq
      · simp
  | none =>
      have hmark : byte ≠ 34 ∧ byte ≠ 92 := by
        constructor
        · rintro rfl
          simp [shortEscape] at hshort
        · rintro rfl
          simp [shortEscape] at hshort
      simp only
      split
      · have hcode : ascii "\\u00" = [92, 117, 48, 48] := by decide
        have hvalue : 16 * (byte.toNat / 16) + byte.toNat % 16 = byte.toNat := by omega
        have hdigits : strip [48, 48] ([48, 48] ++ (hexByte byte ++ rest)) =
            some (hexByte byte ++ rest) := strip_append _ _
        rw [hcode]
        constructor
        · change readByte (92 :: 117 :: ([48, 48] ++ (hexByte byte ++ rest))) = _
          rw [readByte, hdigits]
          simp only [hexByte, List.cons_append, List.nil_append, Option.bind_eq_bind,
            Option.bind_some, lowerHex_digit (high_lt byte), lowerHex_digit (low_lt byte), hvalue,
            UInt8.ofNat_toNat, Option.pure_def]
        · simp
      · rename_i hcontrol
        have hplain : Printable byte := Nat.not_lt.mp hcontrol
        constructor
        · rw [List.singleton_append, readByte]
          · exact if_pos ⟨hplain, hmark⟩
          · exact fun _ heq => absurd heq hmark.2
          · exact fun _ _ heq => absurd heq hmark.2
        · simpa using hmark.1

theorem readText_escaped {fuel : Nat} (text rest : Bytes) (hfuel : text.length < fuel) :
    readText fuel (text.flatMap escape ++ 34 :: rest) = some (text, rest) := by
  induction text generalizing fuel with
  | nil =>
      obtain ⟨fuel, rfl⟩ := Nat.exists_eq_succ_of_ne_zero (Nat.ne_of_gt hfuel)
      rw [readText]
      exact if_pos rfl
  | cons byte text ih =>
      obtain ⟨fuel, rfl⟩ := Nat.exists_eq_succ_of_ne_zero (Nat.ne_of_gt (Nat.zero_lt_of_lt hfuel))
      have hbehind := ih (Nat.lt_of_succ_lt_succ hfuel)
      obtain ⟨hread, hopen⟩ := readByte_escape byte (text.flatMap escape ++ 34 :: rest)
      rw [List.flatMap_cons, List.append_assoc, readText, if_neg hopen, hread]
      simp only [Option.bind_eq_bind, Option.bind_some, hbehind, Option.pure_def]

theorem escape_length_pos (byte : UInt8) : 0 < (escape byte).length := by
  unfold escape
  split
  · simp
  · split
    · simp [ascii, hexByte]
    · simp

theorem readQuoted_quote (text rest : Bytes) :
    readQuoted (quote text ++ rest) = some (text, rest) := by
  have hopen : strip [34] ([34] ++ (text.flatMap escape ++ 34 :: rest)) =
      some (text.flatMap escape ++ 34 :: rest) := strip_append _ _
  have hlength : text.length ≤ (text.flatMap escape).length := by
    induction text with
    | nil => exact le_rfl
    | cons byte text ih =>
        have hbyte := escape_length_pos byte
        have hrest := ih (strip_append _ _)
        rw [List.flatMap_cons, List.length_append, List.length_cons]
        omega
  have hquote : quote text ++ rest = [34] ++ (text.flatMap escape ++ 34 :: rest) := by
    simp [quote]
  rw [hquote, readQuoted, hopen]
  simp only [Option.bind_eq_bind, Option.bind_some]
  refine readText_escaped text rest ?_
  rw [List.length_append, List.length_cons]
  omega

theorem readName_quote {name : String} (hname : ∀ letter ∈ name.toList, letter.toNat < 128)
    (rest : Bytes) : readName (quote (ascii name) ++ [58] ++ rest) = some (name, rest) := by
  have hletters : (ascii name).map (fun byte => Char.ofNat byte.toNat) = name.toList := by
    rw [ascii, List.map_map]
    conv_rhs => rw [← List.map_id name.toList]
    refine List.map_congr_left fun letter hmem => ?_
    have hbyte : letter.toNat < 2 ^ 8 := Nat.lt_trans (hname letter hmem) (by decide)
    simp only [Function.comp_apply, UInt8.toNat_ofNat_of_lt' hbyte, Char.ofNat_toNat, id_eq]
  have hcolon : strip [58] ([58] ++ rest) = some rest := strip_append _ _
  rw [List.append_assoc, readName, readQuoted_quote]
  simp only [Option.bind_eq_bind, Option.bind_some, hcolon, hletters, String.ofList_toList,
    Option.pure_def]

/-- The first byte of a number is a digit, and no other value starts with one. -/
theorem decimal_head (value : Nat) (rest : Bytes) :
    ∃ byte, (decimal value ++ rest).head? = some byte ∧ isDigit byte = true := by
  cases hdigits : decimal value with
  | nil => exact absurd hdigits (decimal_ne_nil value)
  | cons byte digits =>
      have hmem : byte ∈ decimal value := by
        rw [hdigits]
        exact List.mem_cons_self
      exact ⟨byte, rfl, isDigit_of_mem_decimal hmem⟩

theorem printMembers_stops (members : List (String × Value)) (rest : Bytes) :
    Stops (printMembers members ++ 125 :: rest) := by
  cases members with
  | nil => exact stops_cons rfl rest
  | cons member members =>
      obtain ⟨name, value⟩ := member
      simp only [printMembers, List.append_assoc, List.singleton_append]
      exact stops_cons rfl _

mutual

/-- A printed value is read back, whatever stops it. -/
theorem readValue_print (value : Value) {fuel : Nat} {rest : Bytes} (hordered : value.Ordered)
    (hfuel : value.print.length ≤ fuel) (hpositive : 0 < fuel) (hrest : Stops rest) :
    readValue fuel (value.print ++ rest) = some (value, rest) := by
  obtain ⟨fuel, rfl⟩ := Nat.exists_eq_succ_of_ne_zero (Nat.ne_of_gt hpositive)
  cases value with
  | null =>
      rw [readValue, Value.print]
      have hhead : (ascii "null" ++ rest).head? = some 110 := rfl
      simp only [hhead, strip_append, Option.map_some]
  | bool value =>
      cases value with
      | false =>
          rw [readValue, Value.print, if_neg Bool.false_ne_true]
          have hhead : (ascii "false" ++ rest).head? = some 102 := rfl
          simp only [hhead, strip_append, Option.map_some]
      | true =>
          rw [readValue, Value.print, if_pos rfl]
          have hhead : (ascii "true" ++ rest).head? = some 116 := rfl
          simp only [hhead, strip_append, Option.map_some]
  | number value =>
      rw [readValue, Value.print]
      obtain ⟨byte, hhead, hdigit⟩ := decimal_head value.toNat rest
      have hread := readDecimal_decimal value.toNat hrest
      have hother : ∀ mark : UInt8, isDigit mark = false →
          (decimal value.toNat ++ rest).head? ≠ some mark := by
        intro mark hmark hsame
        rw [hhead] at hsame
        obtain rfl := Option.some.inj hsame
        rw [hdigit] at hmark
        cases hmark
      split
      · exact absurd ‹_› (hother 110 rfl)
      · exact absurd ‹_› (hother 116 rfl)
      · exact absurd ‹_› (hother 102 rfl)
      · exact absurd ‹_› (hother 34 rfl)
      · exact absurd ‹_› (hother 123 rfl)
      · simp only [hread, Option.bind_eq_bind, Option.bind_some, if_pos value.toNat_lt,
          UInt64.ofNat_toNat, Option.pure_def]
  | string text =>
      rw [readValue, Value.print]
      have hhead : (quote text.bytes ++ rest).head? = some 34 := rfl
      simp only [hhead, readQuoted_quote, Option.bind_eq_bind, Option.bind_some,
        Text.ofBytes_eq_some.mpr rfl, Option.pure_def]
  | object members =>
      rw [Value.Ordered] at hordered
      cases members with
      | nil => rfl
      | cons member members =>
          obtain ⟨name, value⟩ := member
          rw [OrderedMembers] at hordered
          obtain ⟨-, hname, hvalue, hmembers⟩ := hordered
          simp only [Value.print, List.length_append, List.length_cons, List.length_nil] at hfuel
          have hsplit : Value.print (.object ((name, value) :: members)) ++ rest =
              123 :: (quote (ascii name) ++ [58] ++
                (value.print ++ (printMembers members ++ 125 :: rest))) := by
            simp [Value.print]
          have hopen : (quote (ascii name) ++ [58] ++
              (value.print ++ (printMembers members ++ 125 :: rest))).head? ≠ some 125 := by
            simp [quote]
          have hinside : readValue fuel (value.print ++ (printMembers members ++ 125 :: rest)) =
              some (value, printMembers members ++ 125 :: rest) :=
            readValue_print value hvalue (by omega) (by omega) (printMembers_stops members rest)
          have hbehind : readMembers fuel (printMembers members ++ 125 :: rest) =
              some (members, rest) := readMembers_print members hmembers (by omega)
          rw [hsplit, readValue]
          simp only [List.head?_cons, List.tail_cons, if_neg hopen, readName_quote hname,
            Option.bind_eq_bind, Option.bind_some, hinside, hbehind, Option.pure_def]

theorem readMembers_print (members : List (String × Value)) {above : Option String} {fuel : Nat}
    {rest : Bytes} (hordered : OrderedMembers above members)
    (hfuel : (printMembers members).length < fuel) :
    readMembers fuel (printMembers members ++ 125 :: rest) = some (members, rest) := by
  obtain ⟨fuel, rfl⟩ := Nat.exists_eq_succ_of_ne_zero (Nat.ne_of_gt (Nat.zero_lt_of_lt hfuel))
  cases members with
  | nil => rfl
  | cons member members =>
      obtain ⟨name, value⟩ := member
      rw [OrderedMembers] at hordered
      obtain ⟨-, hname, hvalue, hmembers⟩ := hordered
      simp only [printMembers, List.length_append, List.length_cons, List.length_nil] at hfuel
      have hsplit : printMembers ((name, value) :: members) ++ 125 :: rest =
          44 :: (quote (ascii name) ++ [58] ++
            (value.print ++ (printMembers members ++ 125 :: rest))) := by
        simp [printMembers]
      have hinside : readValue fuel (value.print ++ (printMembers members ++ 125 :: rest)) =
          some (value, printMembers members ++ 125 :: rest) :=
        readValue_print value hvalue (by omega) (by omega) (printMembers_stops members rest)
      have hbehind : readMembers fuel (printMembers members ++ 125 :: rest) =
          some (members, rest) := readMembers_print members hmembers (by omega)
      rw [hsplit, readMembers]
      simp only [List.head?_cons, List.tail_cons, readName_quote hname, Option.bind_eq_bind,
        Option.bind_some, hinside, hbehind, Option.pure_def]

end

theorem print_length_pos (value : Value) : 0 < value.print.length := by
  cases value with
  | null => decide
  | bool value => cases value <;> decide
  | number value => exact List.length_pos_iff.mpr (decimal_ne_nil value.toNat)
  | string text => simp [Value.print, quote]
  | object members =>
      cases members with
      | nil => exact Nat.zero_lt_two
      | cons member members => simp [Value.print]

/-- The reader of exactly the printed documents. -/
def ValueReader.exact : ValueReader where
  fromSlice bytes := (readValue bytes.length bytes).bind fun found =>
    if found.2 = [] then some found.1 else none
  reads := by
    intro value hordered _
    have hread := readValue_print value hordered le_rfl (print_length_pos value) stops_nil
    rw [List.append_nil] at hread
    rw [hread, Option.bind_some]
    exact if_pos rfl

end EliotSearch.Library.Json
