import EliotSearch.Library.Json

/-!
# Hexadecimal texts and canonical identifiers

Lowercase hexadecimal digits and the canonical spelling of a 128-bit
identifier.  Both keep the order of the byte strings they spell, and the
identifier is read back from exactly its own spelling.
-/

namespace EliotSearch.Library.Hex

open EliotSearch.Library.Json
open EliotSearch.Library.Words

/-! ## Digits -/

def digits : Bytes := ascii "0123456789abcdef"

def digit (value : Nat) : UInt8 := digits.getD value 0

/-- A decimal digit or a letter from `a` to `f`. -/
def IsLowerHex (byte : UInt8) : Prop :=
  (48 ≤ byte.toNat ∧ byte.toNat ≤ 57) ∨ (97 ≤ byte.toNat ∧ byte.toNat ≤ 102)

instance (byte : UInt8) : Decidable (IsLowerHex byte) :=
  inferInstanceAs (Decidable (_ ∨ _))

def lowerHex (byte : UInt8) : Option Nat :=
  if 48 ≤ byte.toNat ∧ byte.toNat ≤ 57 then some (byte.toNat - 48)
  else if 97 ≤ byte.toNat ∧ byte.toNat ≤ 102 then some (byte.toNat - 97 + 10)
  else none

theorem digit_isLowerHex {value : Nat} (hvalue : value < 16) : IsLowerHex (digit value) := by
  decide +revert

theorem lowerHex_digit {value : Nat} (hvalue : value < 16) :
    lowerHex (digit value) = some value := by
  decide +revert

theorem digit_of_lowerHex {byte : UInt8} {value : Nat} (hbyte : lowerHex byte = some value) :
    value < 16 ∧ digit value = byte := by
  unfold lowerHex at hbyte
  split at hbyte
  · rename_i hdecimal
    obtain rfl := Option.some.inj hbyte
    obtain ⟨offset, hoffset⟩ := Nat.exists_eq_add_of_le hdecimal.1
    have hlt : offset < 10 := by omega
    have hspelled : ∀ offset < 10, digit offset = UInt8.ofNat (48 + offset) := by decide
    refine ⟨by omega, ?_⟩
    rw [hoffset, Nat.add_sub_cancel_left, hspelled offset hlt, ← hoffset, UInt8.ofNat_toNat]
  · split at hbyte
    · rename_i hletter
      obtain rfl := Option.some.inj hbyte
      obtain ⟨offset, hoffset⟩ := Nat.exists_eq_add_of_le hletter.1
      have hlt : offset < 6 := by omega
      have hspelled : ∀ offset < 6, digit (offset + 10) = UInt8.ofNat (97 + offset) := by decide
      refine ⟨by omega, ?_⟩
      rw [hoffset, Nat.add_sub_cancel_left, hspelled offset hlt, ← hoffset, UInt8.ofNat_toNat]
    · cases hbyte

theorem lowerHex_isSome {byte : UInt8} (hbyte : IsLowerHex byte) :
    ∃ value, lowerHex byte = some value := by
  unfold lowerHex
  rcases hbyte with hdecimal | hletter
  · exact ⟨_, if_pos hdecimal⟩
  · have hother : ¬ (48 ≤ byte.toNat ∧ byte.toNat ≤ 57) := by omega
    exact ⟨_, by rw [if_neg hother, if_pos hletter]⟩

theorem compare_digit {left right : Nat} (hleft : left < 16) (hright : right < 16) :
    compare (digit left) (digit right) = compare left right := by
  have hall : ∀ left < 16, ∀ right < 16,
      compare (digit left) (digit right) = compare left right := by decide
  exact hall left hleft right hright

/-! ## Byte strings -/

/-- Two digits, the high half first. -/
def hexByte (byte : UInt8) : Bytes := [digit (byte.toNat / 16), digit (byte.toNat % 16)]

def hex (bytes : Bytes) : Bytes := bytes.flatMap hexByte

/-- The bytes of a text two by two, without a last odd one. -/
def pairs : Bytes → List Bytes
  | high :: low :: rest => [high, low] :: pairs rest
  | _ => []

/-- Read pairs of digits. -/
def unhex : Bytes → Option Bytes
  | [] => some []
  | [_] => none
  | high :: low :: rest => do
      let high ← lowerHex high
      let low ← lowerHex low
      let rest ← unhex rest
      return UInt8.ofNat (16 * high + low) :: rest

theorem high_lt (byte : UInt8) : byte.toNat / 16 < 16 :=
  Nat.div_lt_of_lt_mul byte.toNat_lt

theorem low_lt (byte : UInt8) : byte.toNat % 16 < 16 :=
  Nat.mod_lt _ (by decide)

@[simp]
theorem hex_nil : hex [] = [] :=
  rfl

theorem hex_cons (byte : UInt8) (bytes : Bytes) :
    hex (byte :: bytes) =
      digit (byte.toNat / 16) :: digit (byte.toNat % 16) :: hex bytes :=
  rfl

@[simp]
theorem hex_append (first second : Bytes) : hex (first ++ second) = hex first ++ hex second :=
  List.flatMap_append

@[simp]
theorem hex_length (bytes : Bytes) : (hex bytes).length = 2 * bytes.length := by
  induction bytes with
  | nil => rfl
  | cons byte bytes ih =>
      rw [hex_cons, List.length_cons, List.length_cons, ih, List.length_cons]
      omega

theorem hex_isLowerHex {bytes : Bytes} {byte : UInt8} (hmem : byte ∈ hex bytes) :
    IsLowerHex byte := by
  obtain ⟨source, -, hbyte⟩ := List.mem_flatMap.mp hmem
  rw [hexByte, List.mem_cons, List.mem_singleton] at hbyte
  rcases hbyte with rfl | rfl
  · exact digit_isLowerHex (high_lt source)
  · exact digit_isLowerHex (low_lt source)

theorem hex_take (bytes : Bytes) (count : Nat) :
    (hex bytes).take (2 * count) = hex (bytes.take count) := by
  induction count generalizing bytes with
  | zero => rfl
  | succ count ih =>
      cases bytes with
      | nil => simp
      | cons byte bytes =>
          rw [hex_cons, List.take_succ_cons, hex_cons, ← ih bytes]
          rfl

theorem hex_drop (bytes : Bytes) (count : Nat) :
    (hex bytes).drop (2 * count) = hex (bytes.drop count) := by
  induction count generalizing bytes with
  | zero => rfl
  | succ count ih =>
      cases bytes with
      | nil => simp
      | cons byte bytes =>
          rw [hex_cons, List.drop_succ_cons, ← ih bytes]
          rfl

theorem pairs_hex (bytes : Bytes) : pairs (hex bytes) = bytes.map hexByte := by
  induction bytes with
  | nil => rfl
  | cons byte bytes ih => rw [hex_cons, pairs, ih, List.map_cons, hexByte]

theorem unhex_hex (bytes : Bytes) : unhex (hex bytes) = some bytes := by
  induction bytes with
  | nil => rfl
  | cons byte bytes ih =>
      have hbyte : 16 * (byte.toNat / 16) + byte.toNat % 16 = byte.toNat := Nat.div_add_mod _ _
      rw [hex_cons, unhex, lowerHex_digit (high_lt byte), lowerHex_digit (low_lt byte), ih]
      simp only [Option.bind_eq_bind, Option.bind_some, hbyte, UInt8.ofNat_toNat, Option.pure_def]

theorem hex_injective {first second : Bytes} (heq : hex first = hex second) : first = second := by
  have hfirst := unhex_hex first
  rw [heq, unhex_hex] at hfirst
  exact (Option.some.inj hfirst).symm

theorem hex_of_unhex {text bytes : Bytes} (hread : unhex text = some bytes) : hex bytes = text := by
  induction text using unhex.induct generalizing bytes with
  | case1 =>
      obtain rfl := Option.some.inj hread
      rfl
  | case2 => cases hread
  | case3 high low rest ih =>
      simp only [unhex, Option.bind_eq_bind, Option.bind_eq_some_iff, Option.pure_def,
        Option.some.injEq] at hread
      obtain ⟨first, hfirst, second, hsecond, tail, htail, rfl⟩ := hread
      obtain ⟨hfirstLt, rfl⟩ := digit_of_lowerHex hfirst
      obtain ⟨hsecondLt, rfl⟩ := digit_of_lowerHex hsecond
      have hvalue : (UInt8.ofNat (16 * first + second)).toNat = 16 * first + second :=
        UInt8.toNat_ofNat_of_lt' (by simp only [UInt8.size]; omega)
      have hhigh : (16 * first + second) / 16 = first := by omega
      have hlow : (16 * first + second) % 16 = second := by omega
      rw [hex_cons, hvalue, hhigh, hlow, ih htail]

theorem unhex_isSome {text : Bytes} {count : Nat} (hlength : text.length = 2 * count)
    (hdigits : ∀ byte ∈ text, IsLowerHex byte) :
    ∃ bytes, unhex text = some bytes ∧ bytes.length = count := by
  induction text using unhex.induct generalizing count with
  | case1 =>
      refine ⟨[], rfl, ?_⟩
      rw [List.length_nil] at hlength ⊢
      omega
  | case2 byte =>
      rw [List.length_singleton] at hlength
      omega
  | case3 high low rest ih =>
      obtain ⟨first, hfirst⟩ := lowerHex_isSome (hdigits high List.mem_cons_self)
      obtain ⟨second, hsecond⟩ :=
        lowerHex_isSome (hdigits low (List.mem_cons_of_mem _ List.mem_cons_self))
      rw [List.length_cons, List.length_cons] at hlength
      have hrest : rest.length = 2 * (count - 1) := by omega
      obtain ⟨tail, htail, hcount⟩ := ih hrest fun byte hmem =>
        hdigits byte (List.mem_cons_of_mem _ (List.mem_cons_of_mem _ hmem))
      refine ⟨UInt8.ofNat (16 * first + second) :: tail, ?_, ?_⟩
      · rw [unhex, hfirst, hsecond, htail]
        rfl
      · rw [List.length_cons, hcount]
        omega

/-- The order of texts of one length is the order of what they spell. -/
theorem compare_hex {first second : Bytes} (hlength : first.length = second.length) :
    compare (hex first) (hex second) = compare first second := by
  induction first generalizing second with
  | nil =>
      obtain rfl := List.length_eq_zero_iff.mp hlength.symm
      rfl
  | cons byte first ih =>
      cases second with
      | nil => cases hlength
      | cons other second =>
          have hbyte : compare byte other = compare byte.toNat other.toNat := by
            rw [← compare_ofNat byte.toNat_lt other.toNat_lt, UInt8.ofNat_toNat, UInt8.ofNat_toNat]
          rw [hex_cons, hex_cons, List.compare_cons_cons, List.compare_cons_cons,
            List.compare_cons_cons, compare_digit (high_lt byte) (high_lt other),
            compare_digit (low_lt byte) (low_lt other), ih (Nat.succ.inj hlength), hbyte,
            ← Ordering.then_assoc, compare_split (by decide)]

/-! ## Identifiers -/

def dash : UInt8 := 45

/-- The canonical spelling of an identifier: groups of 8, 4, 4, 4 and 12 digits. -/
def uuidText (id : Octets 16) : Bytes :=
  let text := hex id.bytes
  text.take 8 ++ dash :: (text.drop 8).take 4 ++ dash :: (text.drop 12).take 4 ++
    dash :: (text.drop 16).take 4 ++ dash :: text.drop 20

/-- The text without its four dashes. -/
def compact (text : Bytes) : Bytes :=
  text.take 8 ++ (text.drop 9).take 4 ++ (text.drop 14).take 4 ++ (text.drop 19).take 4 ++
    text.drop 24

/-- The text has the length and the dashes of an identifier. -/
def Grouped (text : Bytes) : Prop :=
  text.length = 36 ∧ text[8]? = some dash ∧ text[13]? = some dash ∧ text[18]? = some dash ∧
    text[23]? = some dash

instance (text : Bytes) : Decidable (Grouped text) :=
  inferInstanceAs (Decidable (_ ∧ _))

/-- Parses the canonical lowercase spelling. -/
def parseUuid (text : Bytes) : Option (Octets 16) :=
  if Grouped text then (unhex (compact text)).bind (Octets.ofBytes? 16) else none

/-- An identifier as its sixteen bytes. -/
theorem octets_sixteen (id : Octets 16) :
    ∃ b0 b1 b2 b3 b4 b5 b6 b7 b8 b9 b10 b11 b12 b13 b14 b15 : UInt8,
      id.bytes = [b0, b1, b2, b3, b4, b5, b6, b7, b8, b9, b10, b11, b12, b13, b14, b15] := by
  obtain ⟨bytes, hlength⟩ := id
  match bytes, hlength with
  | [b0, b1, b2, b3, b4, b5, b6, b7, b8, b9, b10, b11, b12, b13, b14, b15], _ =>
      exact ⟨b0, b1, b2, b3, b4, b5, b6, b7, b8, b9, b10, b11, b12, b13, b14, b15, rfl⟩

theorem grouped_uuidText (id : Octets 16) : Grouped (uuidText id) := by
  obtain ⟨b0, b1, b2, b3, b4, b5, b6, b7, b8, b9, b10, b11, b12, b13, b14, b15, hbytes⟩ :=
    octets_sixteen id
  rw [uuidText, hbytes]
  exact ⟨rfl, rfl, rfl, rfl, rfl⟩

theorem compact_uuidText (id : Octets 16) : compact (uuidText id) = hex id.bytes := by
  obtain ⟨b0, b1, b2, b3, b4, b5, b6, b7, b8, b9, b10, b11, b12, b13, b14, b15, hbytes⟩ :=
    octets_sixteen id
  rw [uuidText, hbytes]
  rfl

/-- Identifiers are ordered as their spellings. -/
theorem compare_uuidText (first second : Octets 16) :
    compare (uuidText first) (uuidText second) = compare first.bytes second.bytes := by
  have hlength : first.bytes.length = second.bytes.length := by
    rw [first.length_eq, second.length_eq]
  have hdash : compare dash dash = .eq := rfl
  rw [← compare_hex hlength, uuidText, uuidText]
  obtain ⟨b0, b1, b2, b3, b4, b5, b6, b7, b8, b9, b10, b11, b12, b13, b14, b15, hfirst⟩ :=
    octets_sixteen first
  obtain ⟨c0, c1, c2, c3, c4, c5, c6, c7, c8, c9, c10, c11, c12, c13, c14, c15, hsecond⟩ :=
    octets_sixteen second
  rw [hfirst, hsecond]
  simp only [hex_cons, hex_nil, List.take_succ_cons, List.take_zero, List.drop_succ_cons,
    List.drop_zero, List.cons_append, List.nil_append, List.compare_cons_cons, hdash,
    Ordering.eq_then]

/-- A text with the dashes of an identifier is its groups between them. -/
theorem Grouped.split {text : Bytes} (hgrouped : Grouped text) :
    text = text.take 8 ++ dash :: (text.drop 9).take 4 ++ dash :: (text.drop 14).take 4 ++
      dash :: (text.drop 19).take 4 ++ dash :: text.drop 24 := by
  have hcut {rest : Bytes} {index : Nat} (hdash : rest[index]? = some dash) :
      rest = rest.take index ++ dash :: rest.drop (index + 1) := by
    obtain ⟨hindex, hdash⟩ := List.getElem?_eq_some_iff.mp hdash
    rw [← hdash, ← List.drop_eq_getElem_cons hindex, List.take_append_drop]
  obtain ⟨-, hfirst, hsecond, hthird, hfourth⟩ := hgrouped
  have htail (start index : Nat) (hdash : text[start + index]? = some dash) :
      text.drop start = (text.drop start).take index ++ dash :: text.drop (start + index + 1) := by
    have hdropped : (text.drop start)[index]? = some dash := by rwa [List.getElem?_drop]
    have hrest := hcut hdropped
    rwa [List.drop_drop, ← Nat.add_assoc] at hrest
  rw [List.append_assoc, List.append_assoc, List.append_assoc, List.cons_append,
    List.cons_append, List.cons_append, ← htail 19 4 hfourth,
    ← htail 14 4 hthird, ← htail 9 4 hsecond]
  exact hcut hfirst

/-- The spelling of an identifier is read back, and nothing else is read as it. -/
theorem parseUuid_eq_some {text : Bytes} {id : Octets 16} :
    parseUuid text = some id ↔ uuidText id = text := by
  unfold parseUuid
  constructor
  · intro hparsed
    split at hparsed
    · rename_i hgrouped
      obtain ⟨bytes, hbytes, hid⟩ := Option.bind_eq_some_iff.mp hparsed
      obtain rfl := Octets.ofBytes?_eq_some.mp hid
      have hhex := hex_of_unhex hbytes
      have hlength := hgrouped.1
      have hgroups : (text.take 8).length = 8 ∧ ((text.drop 9).take 4).length = 4 ∧
          ((text.drop 14).take 4).length = 4 ∧ ((text.drop 19).take 4).length = 4 := by
        simp only [List.length_take, List.length_drop, hlength]
        decide
      rw [uuidText, hhex, compact]
      conv_rhs => rw [hgrouped.split]
      obtain ⟨hfirst, hsecond, hthird, hfourth⟩ := hgroups
      generalize text.take 8 = first at hfirst ⊢
      generalize (text.drop 9).take 4 = second at hsecond ⊢
      generalize (text.drop 14).take 4 = third at hthird ⊢
      generalize (text.drop 19).take 4 = fourth at hfourth ⊢
      simp [List.drop_append, hfirst, hsecond, hthird, hfourth, List.drop_eq_nil_of_le]
    · cases hparsed
  · rintro rfl
    rw [if_pos (grouped_uuidText id), compact_uuidText, unhex_hex, Option.bind_some,
      Octets.ofBytes?_bytes]

theorem uuidText_injective {first second : Octets 16} (heq : uuidText first = uuidText second) :
    first = second := by
  have hparsed := parseUuid_eq_some.mpr heq
  rw [parseUuid_eq_some.mpr rfl] at hparsed
  exact (Option.some.inj hparsed).symm

end EliotSearch.Library.Hex
