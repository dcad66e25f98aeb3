import Mathlib.Data.Nat.Digits.Lemmas
import Mathlib.Tactic.Ring

/-!
# Fixed-width words as byte strings

Little-endian and big-endian encodings of bounded natural numbers, the
machine-word addition that refuses to overflow, and byte strings of a fixed
length.  Big-endian encodings of one width are ordered lexicographically
exactly as the numbers they encode, which is what makes a numeric key usable
in an ordered table of byte strings.
-/

namespace EliotSearch.Library

abbrev Bytes := List UInt8

/-- What holds of every member is decided along the members, not over all values of
their type. -/
instance (priority := 2000) forallMemDecidable {α : Type} {p : α → Prop} [DecidablePred p]
    (list : List α) : Decidable (∀ element ∈ list, p element) :=
  List.decidableBAll p list

instance (priority := 2000) forallPresentDecidable {α : Type} {p : α → Prop} [DecidablePred p]
    (found : Option α) : Decidable (∀ element ∈ found, p element) :=
  Option.decidableForallMem found

instance (priority := 2000) bytesLawful : LawfulBEq Bytes := inferInstance

namespace Words

/-! ## Little-endian encoding -/

/-- The `width` low-order bytes of a number, least significant byte first. -/
def leBytes : Nat → Nat → Bytes
  | 0, _ => []
  | width + 1, value => UInt8.ofNat (value % 256) :: leBytes width (value / 256)

/-- The number written by a byte string, least significant byte first. -/
def leValue : Bytes → Nat
  | [] => 0
  | byte :: rest => byte.toNat + 256 * leValue rest

@[simp]
theorem leBytes_length (width value : Nat) : (leBytes width value).length = width := by
  induction width generalizing value with
  | zero => rfl
  | succ width ih => simp [leBytes, ih]

theorem leValue_leBytes (width value : Nat) :
    leValue (leBytes width value) = value % 256 ^ width := by
  induction width generalizing value with
  | zero => simp [leBytes, leValue, Nat.mod_one]
  | succ width ih =>
      have hbyte : (UInt8.ofNat (value % 256)).toNat = value % 256 := by
        simp [UInt8.toNat_ofNat']
      rw [leBytes, leValue, hbyte, ih, Nat.pow_succ, Nat.mul_comm (256 ^ width) 256,
        Nat.mod_mul]

theorem leValue_lt (bytes : Bytes) : leValue bytes < 256 ^ bytes.length := by
  induction bytes with
  | nil => simp [leValue]
  | cons byte rest ih =>
      have hbyte := byte.toNat_lt
      rw [leValue, List.length_cons, Nat.pow_succ]
      omega

theorem leBytes_leValue (bytes : Bytes) : leBytes bytes.length (leValue bytes) = bytes := by
  induction bytes with
  | nil => rfl
  | cons byte rest ih =>
      have hbyte := byte.toNat_lt
      have hlow : (byte.toNat + 256 * leValue rest) % 256 = byte.toNat := by omega
      have hhigh : (byte.toNat + 256 * leValue rest) / 256 = leValue rest := by omega
      rw [List.length_cons, leValue, leBytes, hlow, hhigh, ih]
      simp

theorem leBytes_inj {width left right : Nat} (hleft : left < 256 ^ width)
    (hright : right < 256 ^ width) (heq : leBytes width left = leBytes width right) :
    left = right := by
  have hvalue := congrArg leValue heq
  rwa [leValue_leBytes, leValue_leBytes, Nat.mod_eq_of_lt hleft, Nat.mod_eq_of_lt hright]
    at hvalue

/-! ## Big-endian encoding -/

/-- The `width` low-order bytes of a number, most significant byte first. -/
def beBytes (width value : Nat) : Bytes := (leBytes width value).reverse

/-- The number written by a byte string, most significant byte first. -/
def beValue (bytes : Bytes) : Nat := leValue bytes.reverse

@[simp]
theorem beBytes_length (width value : Nat) : (beBytes width value).length = width := by
  simp [beBytes]

theorem beValue_beBytes (width value : Nat) :
    beValue (beBytes width value) = value % 256 ^ width := by
  simp [beBytes, beValue, leValue_leBytes]

theorem beBytes_beValue (bytes : Bytes) : beBytes bytes.length (beValue bytes) = bytes := by
  have hround := leBytes_leValue bytes.reverse
  rw [List.length_reverse] at hround
  rw [beBytes, beValue, hround, List.reverse_reverse]

theorem beValue_lt (bytes : Bytes) : beValue bytes < 256 ^ bytes.length := by
  simpa [beValue] using leValue_lt bytes.reverse

theorem beBytes_inj {width left right : Nat} (hleft : left < 256 ^ width)
    (hright : right < 256 ^ width) (heq : beBytes width left = beBytes width right) :
    left = right :=
  leBytes_inj hleft hright (List.reverse_injective heq)

theorem beBytes_succ (width value : Nat) :
    beBytes (width + 1) value =
      UInt8.ofNat (value / 256 ^ width % 256) :: beBytes width (value % 256 ^ width) := by
  induction width generalizing value with
  | zero => simp [beBytes, leBytes]
  | succ width ih =>
      have hsplit : beBytes (width + 2) value =
          beBytes (width + 1) (value / 256) ++ [UInt8.ofNat (value % 256)] := by
        simp [beBytes, leBytes]
      have hlast : beBytes (width + 1) (value % 256 ^ (width + 1)) =
          beBytes width (value % 256 ^ (width + 1) / 256) ++
            [UInt8.ofNat (value % 256 ^ (width + 1) % 256)] := by
        simp [beBytes, leBytes]
      have hdigit : value % 256 ^ (width + 1) % 256 = value % 256 :=
        Nat.mod_mod_of_dvd value (Dvd.intro_left (256 ^ width) (Nat.pow_succ ..).symm)
      have htop : value / 256 / 256 ^ width = value / 256 ^ (width + 1) := by
        rw [Nat.div_div_eq_div_mul, Nat.pow_succ, Nat.mul_comm]
      have hrest : value / 256 % 256 ^ width = value % 256 ^ (width + 1) / 256 := by
        rw [Nat.pow_succ, Nat.mul_comm, Nat.mod_mul_right_div_self]
      rw [hsplit, ih, hlast, hdigit, htop, hrest, List.cons_append]

theorem compare_ofNat {left right : Nat} (hleft : left < 256) (hright : right < 256) :
    compare (UInt8.ofNat left) (UInt8.ofNat right) = compare left right := by
  have hl : (UInt8.ofNat left).toNat = left := by
    simpa [UInt8.toNat_ofNat'] using hleft
  have hr : (UInt8.ofNat right).toNat = right := by
    simpa [UInt8.toNat_ofNat'] using hright
  simp only [compare, compareOfLessAndEq, UInt8.lt_iff_toNat_lt, ← UInt8.toNat_inj, hl, hr]

theorem compare_split {base left right : Nat} (hbase : 0 < base) :
    (compare (left / base) (right / base)).then (compare (left % base) (right % base)) =
      compare left right := by
  have hl := Nat.div_add_mod left base
  have hr := Nat.div_add_mod right base
  have hlrest := Nat.mod_lt left hbase
  have hrrest := Nat.mod_lt right hbase
  rcases lt_trichotomy (left / base) (right / base) with htop | htop | htop
  · have hlt : left < right := Nat.lt_of_div_lt_div htop
    simp [Nat.compare_eq_lt.mpr htop, Nat.compare_eq_lt.mpr hlt]
  · have hmul : base * (left / base) = base * (right / base) := by rw [htop]
    rw [htop, Nat.compare_eq_eq.mpr rfl, Ordering.eq_then]
    rcases lt_trichotomy (left % base) (right % base) with hlow | hlow | hlow
    · rw [Nat.compare_eq_lt.mpr hlow, Nat.compare_eq_lt.mpr (by omega)]
    · rw [Nat.compare_eq_eq.mpr hlow, Nat.compare_eq_eq.mpr (by omega)]
    · rw [Nat.compare_eq_gt.mpr hlow, Nat.compare_eq_gt.mpr (by omega)]
  · have hlt : right < left := Nat.lt_of_div_lt_div htop
    simp [Nat.compare_eq_gt.mpr htop, Nat.compare_eq_gt.mpr hlt]

/-- Big-endian strings of one width compare as the numbers they encode. -/
theorem compare_beBytes {width left right : Nat} (hleft : left < 256 ^ width)
    (hright : right < 256 ^ width) :
    compare (beBytes width left) (beBytes width right) = compare left right := by
  induction width generalizing left right with
  | zero =>
      have hl : left = 0 := by simpa using hleft
      have hr : right = 0 := by simpa using hright
      subst hl hr
      rfl
  | succ width ih =>
      have hpos : 0 < 256 ^ width := Nat.pow_pos (by decide)
      have hltop : left / 256 ^ width < 256 :=
        Nat.div_lt_of_lt_mul (by rwa [Nat.pow_succ] at hleft)
      have hrtop : right / 256 ^ width < 256 :=
        Nat.div_lt_of_lt_mul (by rwa [Nat.pow_succ] at hright)
      rw [beBytes_succ, beBytes_succ, List.compare_cons_cons,
        ih (Nat.mod_lt left hpos) (Nat.mod_lt right hpos), Nat.mod_eq_of_lt hltop,
        Nat.mod_eq_of_lt hrtop, compare_ofNat hltop hrtop, compare_split hpos]

/-! ## Machine words -/

/-- Addition that refuses a sum outside the word. -/
def checkedAdd (left right : UInt64) : Option UInt64 :=
  if left.toNat + right.toNat < 2 ^ 64 then some (left + right) else none

theorem checkedAdd_eq_some {left right sum : UInt64} :
    checkedAdd left right = some sum ↔ sum.toNat = left.toNat + right.toNat := by
  unfold checkedAdd
  have hsum := UInt64.toNat_add left right
  have hbound := sum.toNat_lt
  split
  · rename_i hfits
    rw [Nat.mod_eq_of_lt hfits] at hsum
    rw [Option.some.injEq, ← UInt64.toNat_inj, hsum]
    exact eq_comm
  · simp only [reduceCtorEq, false_iff]
    omega

/-- A checked sum is the machine sum. -/
theorem checkedAdd_unique {left right sum : UInt64} (hsum : sum.toNat = left.toNat + right.toNat) :
    sum = left + right := by
  have hbound := sum.toNat_lt
  rw [← UInt64.toNat_inj, UInt64.toNat_add, ← hsum, Nat.mod_eq_of_lt hbound]

def le16 (value : UInt16) : Bytes := leBytes 2 value.toNat

def le32 (value : UInt32) : Bytes := leBytes 4 value.toNat

def le64 (value : UInt64) : Bytes := leBytes 8 value.toNat

def be64 (value : UInt64) : Bytes := beBytes 8 value.toNat

@[simp]
theorem le16_length (value : UInt16) : (le16 value).length = 2 := leBytes_length ..

@[simp]
theorem le32_length (value : UInt32) : (le32 value).length = 4 := leBytes_length ..

@[simp]
theorem le64_length (value : UInt64) : (le64 value).length = 8 := leBytes_length ..

@[simp]
theorem be64_length (value : UInt64) : (be64 value).length = 8 := beBytes_length ..

@[simp]
theorem ofNat_leValue_le16 (value : UInt16) : UInt16.ofNat (leValue (le16 value)) = value := by
  have hbound : value.toNat < 256 ^ 2 := value.toNat_lt
  rw [le16, leValue_leBytes, Nat.mod_eq_of_lt hbound, UInt16.ofNat_toNat]

@[simp]
theorem ofNat_leValue_le32 (value : UInt32) : UInt32.ofNat (leValue (le32 value)) = value := by
  have hbound : value.toNat < 256 ^ 4 := value.toNat_lt
  rw [le32, leValue_leBytes, Nat.mod_eq_of_lt hbound, UInt32.ofNat_toNat]

@[simp]
theorem ofNat_leValue_le64 (value : UInt64) : UInt64.ofNat (leValue (le64 value)) = value := by
  have hbound : value.toNat < 256 ^ 8 := value.toNat_lt
  rw [le64, leValue_leBytes, Nat.mod_eq_of_lt hbound, UInt64.ofNat_toNat]

@[simp]
theorem ofNat_beValue_be64 (value : UInt64) : UInt64.ofNat (beValue (be64 value)) = value := by
  have hbound : value.toNat < 256 ^ 8 := value.toNat_lt
  rw [be64, beValue_beBytes, Nat.mod_eq_of_lt hbound, UInt64.ofNat_toNat]

theorem be64_injective {left right : UInt64} (heq : be64 left = be64 right) : left = right :=
  UInt64.toNat_inj.mp (beBytes_inj left.toNat_lt right.toNat_lt heq)

/-- Every eight-byte string is the big-endian encoding of the word it denotes. -/
theorem be64_ofNat_beValue {bytes : Bytes} (hlength : bytes.length = 8) :
    be64 (UInt64.ofNat (beValue bytes)) = bytes := by
  have hvalue := beValue_lt bytes
  rw [hlength] at hvalue
  have hround := beBytes_beValue bytes
  rw [hlength] at hround
  rw [be64, UInt64.toNat_ofNat_of_lt' hvalue, hround]

theorem ofNat_leValue_round {width : Nat} {bytes : Bytes} (hlength : bytes.length = width) :
    leValue bytes < 256 ^ width ∧ leBytes width (leValue bytes) = bytes := by
  subst hlength
  exact ⟨leValue_lt bytes, leBytes_leValue bytes⟩

/-- Every two-byte string is the encoding of the word it denotes. -/
theorem le16_ofNat_leValue {bytes : Bytes} (hlength : bytes.length = 2) :
    le16 (UInt16.ofNat (leValue bytes)) = bytes := by
  obtain ⟨hvalue, hround⟩ := ofNat_leValue_round hlength
  rw [le16, UInt16.toNat_ofNat_of_lt' hvalue, hround]

theorem le32_ofNat_leValue {bytes : Bytes} (hlength : bytes.length = 4) :
    le32 (UInt32.ofNat (leValue bytes)) = bytes := by
  obtain ⟨hvalue, hround⟩ := ofNat_leValue_round hlength
  rw [le32, UInt32.toNat_ofNat_of_lt' hvalue, hround]

theorem le64_ofNat_leValue {bytes : Bytes} (hlength : bytes.length = 8) :
    le64 (UInt64.ofNat (leValue bytes)) = bytes := by
  obtain ⟨hvalue, hround⟩ := ofNat_leValue_round hlength
  rw [le64, UInt64.toNat_ofNat_of_lt' hvalue, hround]

end Words

/-! ## Byte strings of a fixed length -/

/-- A byte array whose length is part of its type. -/
structure Octets (length : Nat) where
  bytes : Bytes
  length_eq : bytes.length = length
  deriving DecidableEq

namespace Octets

attribute [simp] length_eq

@[ext]
theorem ext {length : Nat} {left right : Octets length} (heq : left.bytes = right.bytes) :
    left = right := by
  cases left
  cases right
  congr

/-- Reinterpret a byte string as an array of the required length. -/
def ofBytes? (length : Nat) (bytes : Bytes) : Option (Octets length) :=
  if hlength : bytes.length = length then some ⟨bytes, hlength⟩ else none

theorem ofBytes?_eq_some {length : Nat} {bytes : Bytes} {array : Octets length} :
    ofBytes? length bytes = some array ↔ array.bytes = bytes := by
  unfold ofBytes?
  split
  · rw [Option.some.injEq, Octets.ext_iff]
    exact eq_comm
  · rename_i hlength
    simp only [reduceCtorEq, false_iff]
    intro heq
    exact hlength (heq ▸ array.length_eq)

@[simp]
theorem ofBytes?_bytes {length : Nat} (array : Octets length) :
    ofBytes? length array.bytes = some array :=
  ofBytes?_eq_some.mpr rfl

/-- The array holding one byte repeated. -/
def replicate (length : Nat) (byte : UInt8) : Octets length :=
  ⟨List.replicate length byte, List.length_replicate⟩

/-- The array with one byte written. -/
def set {length : Nat} (array : Octets length) (index : Nat) (byte : UInt8) : Octets length :=
  ⟨array.bytes.set index byte, by rw [List.length_set, array.length_eq]⟩

/-- An array is filled front to back. -/
theorem set_bytes {length : Nat} {array : Octets length} {written rest : Bytes} {last : UInt8}
    (hbytes : array.bytes = written ++ last :: rest) (byte : UInt8) :
    (array.set written.length byte).bytes = (written ++ [byte]) ++ rest := by
  change array.bytes.set written.length byte = _
  rw [hbytes, List.set_append_right _ _ (Nat.le_refl _), Nat.sub_self, List.set_cons_zero,
    List.append_assoc, List.singleton_append]

end Octets

end EliotSearch.Library
