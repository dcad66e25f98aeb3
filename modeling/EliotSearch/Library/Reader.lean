import EliotSearch.Library.Results
import EliotSearch.Library.Words

/-!
# Cursors over byte strings

A reader consumes bytes from the front of its input and may stop with an
error.  `Reads reader bytes value` says that the reader takes exactly `bytes`
off any longer input and returns `value`; it composes along `do` blocks, so a
decoder is related to its encoder one field at a time.
-/

namespace EliotSearch.Library

open EliotSearch.Library.Results
open EliotSearch.Library.Words

/-- A computation over the unread suffix of an input. -/
abbrev Reader (ε : Type) := StateT Bytes (Except ε)

variable {ε α β : Type}

/-! ## Primitive readers -/

namespace Reader

/-- Run a check that reads nothing. -/
def lift (step : Except ε α) : Reader ε α := fun bytes => step.map fun value => (value, bytes)

def refuse (condition : Prop) [Decidable condition] (error : ε) : Reader ε Unit :=
  lift (Results.refuse condition error)

def okOr (value : Option α) (error : ε) : Reader ε α :=
  lift (Results.okOr value error)

/-- Take the next `count` bytes, or stop with `error` when fewer remain. -/
def take (error : ε) (count : Nat) : Reader ε Bytes := fun bytes =>
  if count ≤ bytes.length then .ok (bytes.take count, bytes.drop count) else .error error

/-- Take a byte array of a fixed length. -/
def array (error : ε) (length : Nat) : Reader ε (Octets length) := do
  let bytes ← take error length
  okOr (Octets.ofBytes? length bytes) error

/-- Take a little-endian number of `width` bytes into a machine word. -/
def word (error : ε) (width : Nat) (ofNat : Nat → α) : Reader ε α := do
  let bytes ← take error width
  return ofNat (leValue bytes)

def u8 (error : ε) : Reader ε UInt8 := word error 1 UInt8.ofNat

def u16 (error : ε) : Reader ε UInt16 := word error 2 UInt16.ofNat

def u32 (error : ε) : Reader ε UInt32 := word error 4 UInt32.ofNat

def u64 (error : ε) : Reader ε UInt64 := word error 8 UInt64.ofNat

/-- Read a value and stop with `error` unless it is the given one. -/
def expect [DecidableEq α] (error : ε) (reader : Reader ε α) (value : α) : Reader ε Unit := do
  let found ← reader
  refuse (found ≠ value) error

/-- Stop with `error` unless the whole input was consumed. -/
def done (error : ε) : Reader ε Unit := fun bytes =>
  if bytes = [] then .ok ((), []) else .error error

/-- Run a reader on an input. -/
def parse (reader : Reader ε α) (bytes : Bytes) : Except ε α :=
  (reader bytes).map Prod.fst

@[simp]
theorem done_nil (error : ε) : done error [] = .ok ((), []) :=
  rfl

theorem parse_eq_ok {reader : Reader ε α} {bytes : Bytes} {value : α} :
    parse reader bytes = .ok value ↔ ∃ rest, reader bytes = .ok (value, rest) := by
  unfold parse
  cases hread : reader bytes with
  | error error => simp [Except.map]
  | ok pair =>
      obtain ⟨found, rest⟩ := pair
      simp [Except.map]

/-- What `take` returns is the front of its input. -/
theorem take_eq_ok {error : ε} {count : Nat} {bytes value rest : Bytes} :
    take error count bytes = .ok (value, rest) ↔ bytes = value ++ rest ∧ value.length = count := by
  unfold take
  constructor
  · intro htake
    split at htake
    · rename_i hcount
      obtain ⟨rfl, rfl⟩ := Prod.mk.inj (Except.ok.inj htake)
      exact ⟨(List.take_append_drop _ _).symm, List.length_take_of_le hcount⟩
    · cases htake
  · rintro ⟨rfl, rfl⟩
    simp

theorem lift_eq_ok {step : Except ε α} {bytes rest : Bytes} {value : α} :
    lift step bytes = .ok (value, rest) ↔ step = .ok value ∧ rest = bytes := by
  cases step <;> simp [lift, Except.map, eq_comm]

/-- A sequence of readers succeeds exactly when each succeeds on what the
previous one left. -/
theorem bind_eq_ok {reader : Reader ε α} {next : α → Reader ε β} {bytes rest : Bytes}
    {result : β} :
    (reader >>= next) bytes = .ok (result, rest) ↔
      ∃ value middle, reader bytes = .ok (value, middle) ∧
        next value middle = .ok (result, rest) := by
  change (reader bytes >>= fun pair => next pair.1 pair.2) = _ ↔ _
  rw [Results.bind_eq_ok]
  exact ⟨fun ⟨pair, hread, hnext⟩ => ⟨pair.1, pair.2, hread, hnext⟩,
    fun ⟨value, middle, hread, hnext⟩ => ⟨(value, middle), hread, hnext⟩⟩

theorem pure_eq_ok {bytes rest : Bytes} {value result : α} :
    (Pure.pure value : Reader ε α) bytes = .ok (result, rest) ↔ value = result ∧ bytes = rest := by
  change Except.ok (value, bytes) = _ ↔ _
  rw [Except.ok.injEq, Prod.mk.injEq]

theorem refuse_eq_ok {condition : Prop} [Decidable condition] {error : ε} {bytes rest : Bytes}
    {result : Unit} :
    refuse condition error bytes = .ok (result, rest) ↔ ¬ condition ∧ rest = bytes := by
  rw [refuse, lift_eq_ok, Results.refuse_eq_ok]

theorem okOr_eq_ok {found : Option α} {error : ε} {bytes rest : Bytes} {value : α} :
    okOr found error bytes = .ok (value, rest) ↔ found = some value ∧ rest = bytes := by
  rw [okOr, lift_eq_ok, Results.okOr_eq_ok]

theorem expect_eq_ok [DecidableEq α] {error : ε} {reader : Reader ε α} {value : α}
    {bytes rest : Bytes} {result : Unit} :
    expect error reader value bytes = .ok (result, rest) ↔
      reader bytes = .ok (value, rest) := by
  rw [expect, bind_eq_ok]
  constructor
  · rintro ⟨found, middle, hread, hsame⟩
    obtain ⟨hvalue, rfl⟩ := refuse_eq_ok.mp hsame
    rwa [not_not.mp hvalue] at hread
  · intro hread
    exact ⟨value, rest, hread, refuse_eq_ok.mpr ⟨not_not.mpr rfl, rfl⟩⟩

theorem array_eq_ok {error : ε} {length : Nat} {bytes rest : Bytes} {value : Octets length} :
    array error length bytes = .ok (value, rest) ↔ bytes = value.bytes ++ rest := by
  rw [array, bind_eq_ok]
  constructor
  · rintro ⟨found, middle, htake, hfound⟩
    obtain ⟨rfl, -⟩ := take_eq_ok.mp htake
    obtain ⟨hvalue, rfl⟩ := okOr_eq_ok.mp hfound
    rw [Octets.ofBytes?_eq_some.mp hvalue]
  · intro hbytes
    exact ⟨value.bytes, rest, take_eq_ok.mpr ⟨hbytes, value.length_eq⟩,
      okOr_eq_ok.mpr ⟨Octets.ofBytes?_bytes value, rfl⟩⟩

/-- A word reader inverts its encoding when every string of the width is one. -/
theorem word_eq_ok {error : ε} {width : Nat} {ofNat : Nat → α} (toBytes : α → Bytes)
    (hlength : ∀ value, (toBytes value).length = width)
    (hvalue : ∀ value, ofNat (leValue (toBytes value)) = value)
    (hbytes : ∀ {bytes}, bytes.length = width → toBytes (ofNat (leValue bytes)) = bytes)
    {bytes rest : Bytes} {value : α} :
    word error width ofNat bytes = .ok (value, rest) ↔ bytes = toBytes value ++ rest := by
  rw [word, bind_eq_ok]
  constructor
  · rintro ⟨found, middle, htake, hfound⟩
    obtain ⟨rfl, hfoundLength⟩ := take_eq_ok.mp htake
    obtain ⟨rfl, rfl⟩ := pure_eq_ok.mp hfound
    rw [hbytes hfoundLength]
  · intro hinput
    exact ⟨toBytes value, rest, take_eq_ok.mpr ⟨hinput, hlength value⟩,
      pure_eq_ok.mpr ⟨hvalue value, rfl⟩⟩

theorem u8_eq_ok {error : ε} {bytes rest : Bytes} {value : UInt8} :
    u8 error bytes = .ok (value, rest) ↔ bytes = value :: rest := by
  have hsingle : ∀ {bytes : Bytes}, bytes.length = 1 → [UInt8.ofNat (leValue bytes)] = bytes := by
    intro bytes hlength
    obtain ⟨byte, rfl⟩ := List.length_eq_one_iff.mp hlength
    simp [leValue]
  exact word_eq_ok (fun value => [value]) (fun _ => rfl) (fun value => by simp [leValue]) hsingle

theorem u16_eq_ok {error : ε} {bytes rest : Bytes} {value : UInt16} :
    u16 error bytes = .ok (value, rest) ↔ bytes = le16 value ++ rest :=
  word_eq_ok le16 le16_length ofNat_leValue_le16 le16_ofNat_leValue

theorem u32_eq_ok {error : ε} {bytes rest : Bytes} {value : UInt32} :
    u32 error bytes = .ok (value, rest) ↔ bytes = le32 value ++ rest :=
  word_eq_ok le32 le32_length ofNat_leValue_le32 le32_ofNat_leValue

theorem u64_eq_ok {error : ε} {bytes rest : Bytes} {value : UInt64} :
    u64 error bytes = .ok (value, rest) ↔ bytes = le64 value ++ rest :=
  word_eq_ok le64 le64_length ofNat_leValue_le64 le64_ofNat_leValue

end Reader

/-! ## Exact consumption -/

/-- The reader takes exactly `bytes` off any longer input, returning `value`. -/
def Reads (reader : Reader ε α) (bytes : Bytes) (value : α) : Prop :=
  ∀ rest, reader (bytes ++ rest) = .ok (value, rest)

namespace Reads

theorem pure (value : α) : Reads (Pure.pure value : Reader ε α) [] value :=
  fun _ => rfl

theorem bind {reader : Reader ε α} {next : α → Reader ε β} {first second : Bytes}
    {value : α} {result : β} (hfirst : Reads reader first value)
    (hsecond : Reads (next value) second result) :
    Reads (reader >>= next) (first ++ second) result := by
  intro rest
  rw [Reader.bind_eq_ok, List.append_assoc]
  exact ⟨value, second ++ rest, hfirst _, hsecond rest⟩

/-- A final step that consumes nothing leaves the bytes of the first. -/
theorem bind_nil {reader : Reader ε α} {next : α → Reader ε β} {bytes : Bytes}
    {value : α} {result : β} (hfirst : Reads reader bytes value)
    (hsecond : Reads (next value) [] result) : Reads (reader >>= next) bytes result := by
  have hbind := hfirst.bind hsecond
  rwa [List.append_nil] at hbind

theorem lift {step : Except ε α} {value : α} (hstep : step = .ok value) :
    Reads (Reader.lift step) [] value := by
  subst hstep
  exact fun _ => rfl

/-- A step that consumes nothing and succeeds may be skipped. -/
theorem lift_bind {step : Except ε α} {next : α → Reader ε β} {bytes : Bytes}
    {value : α} {result : β} (hstep : step = .ok value)
    (hnext : Reads (next value) bytes result) :
    Reads (Reader.lift step >>= next) bytes result := by
  have hbind := (Reads.lift hstep).bind hnext
  rwa [List.nil_append] at hbind

theorem refuse_bind {condition : Prop} [Decidable condition] {error : ε}
    {next : Unit → Reader ε β} {bytes : Bytes} {result : β} (hpasses : ¬ condition)
    (hnext : Reads (next ()) bytes result) :
    Reads (Reader.refuse condition error >>= next) bytes result :=
  Reads.lift_bind (refuse_of_not hpasses) hnext

theorem okOr_bind {found : Option α} {error : ε} {next : α → Reader ε β} {bytes : Bytes}
    {value : α} {result : β} (hfound : found = some value)
    (hnext : Reads (next value) bytes result) :
    Reads (Reader.okOr found error >>= next) bytes result :=
  Reads.lift_bind (okOr_eq_ok.mpr hfound) hnext

theorem take (error : ε) {count : Nat} {bytes : Bytes} (hlength : bytes.length = count) :
    Reads (Reader.take error count) bytes bytes := by
  intro rest
  subst hlength
  simp [Reader.take]

theorem array (error : ε) {length : Nat} (value : Octets length) :
    Reads (Reader.array error length) value.bytes value := by
  have hstep : Results.okOr (Octets.ofBytes? length value.bytes) error = .ok value := by
    rw [Octets.ofBytes?_bytes, okOr_some]
  exact (Reads.take error value.length_eq).bind_nil (Reads.lift hstep)

theorem word (error : ε) {width : Nat} {ofNat : Nat → α} {bytes : Bytes} {value : α}
    (hlength : bytes.length = width) (hvalue : ofNat (leValue bytes) = value) :
    Reads (Reader.word error width ofNat) bytes value := by
  subst hvalue
  exact (Reads.take error hlength).bind_nil (Reads.pure _)

theorem u8 (error : ε) (value : UInt8) : Reads (Reader.u8 error) [value] value :=
  Reads.word error rfl (by simp [leValue])

theorem u16 (error : ε) (value : UInt16) : Reads (Reader.u16 error) (le16 value) value :=
  Reads.word error (le16_length value) (ofNat_leValue_le16 value)

theorem u32 (error : ε) (value : UInt32) : Reads (Reader.u32 error) (le32 value) value :=
  Reads.word error (le32_length value) (ofNat_leValue_le32 value)

theorem u64 (error : ε) (value : UInt64) : Reads (Reader.u64 error) (le64 value) value :=
  Reads.word error (le64_length value) (ofNat_leValue_le64 value)

theorem expect [DecidableEq α] (error : ε) {reader : Reader ε α} {bytes : Bytes} {value : α}
    (hreads : Reads reader bytes value) : Reads (Reader.expect error reader value) bytes () :=
  fun rest => Reader.expect_eq_ok.mpr (hreads rest)

/-- Reading the exact input leaves nothing behind. -/
theorem run {reader : Reader ε α} {bytes : Bytes} {value : α}
    (hreads : Reads reader bytes value) : reader bytes = .ok (value, []) := by
  simpa using hreads []

theorem parse {reader : Reader ε α} {bytes : Bytes} {value : α}
    (hreads : Reads reader bytes value) : Reader.parse reader bytes = .ok value :=
  Reader.parse_eq_ok.mpr ⟨[], hreads.run⟩

end Reads

end EliotSearch.Library
