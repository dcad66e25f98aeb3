import EliotSearch.Control.Settlement
import EliotSearch.Query.Values

/-!
# Identifier codecs

The parser of the contracts, the printer and the reader of the backend bridge
and the check of the wire place the hyphens of an identifier by schemes of
their own.  All of them know the one spelling that the contracts display.
-/

namespace EliotSearch.Query.Identifiers

open EliotSearch.Control (BackendError)
open EliotSearch.Library
open EliotSearch.Library.Hex
open EliotSearch.Library.Results
open EliotSearch.Library.Words

/-! ## The contracts -/

inductive ContractErrorKind where
  | malformedPayload
  | invalidCharacter
  deriving DecidableEq, Repr

structure ContractError where
  kind : ContractErrorKind
  field : String
  deriving DecidableEq, Repr

def ContractError.malformed (field : String) : ContractError := ⟨.malformedPayload, field⟩

/-- Storage shared by the identifiers; it is displayed as `Hex.uuidText`. -/
abbrev UuidBytes := Octets 16

/-- Copies a digit and passes over a dash. -/
def gather (state : Octets 32 × Nat) (entry : UInt8 × Nat) :
    Except ContractError (Octets 32 × Nat) :=
  if entry.2 ∈ [8, 13, 18, 23] then .ok state
  else do
    refuse (¬ IsLowerHex entry.1) ⟨.invalidCharacter, "uuid"⟩
    return (state.1.set state.2 entry.1, state.2 + 1)

/-- The bytes two by two. -/
def asChunks : Bytes → List (UInt8 × UInt8)
  | high :: low :: rest => (high, low) :: asChunks rest
  | _ => []

/-- Writes the byte of a pair of digits. -/
def assemble (output : UuidBytes) (entry : (UInt8 × UInt8) × Nat) :
    Except ContractError UuidBytes := do
  let high ← okOr (lowerHex entry.1.1) (.malformed "uuid")
  let low ← okOr (lowerHex entry.1.2) (.malformed "uuid")
  return output.set entry.2 (UInt8.ofNat (high <<< 4 ||| low))

def UuidBytes.parse (value : Bytes) : Except ContractError UuidBytes := do
  refuse (value.length ≠ 36 ∨ value[8]? ≠ some dash ∨ value[13]? ≠ some dash ∨
    value[18]? ≠ some dash ∨ value[23]? ≠ some dash) ⟨.invalidCharacter, "uuid"⟩
  let (compact, _) ← value.zipIdx.foldlM gather (Octets.replicate 32 0, 0)
  (asChunks compact.bytes).zipIdx.foldlM assemble (Octets.replicate 16 0)

/-! ## The bridge -/

namespace Codec

inductive PointIdOptions where
  | num (value : UInt64)
  | uuid (text : Bytes)
  deriving DecidableEq

structure PointId where
  pointIdOptions : Option PointIdOptions
  deriving DecidableEq

/-- A byte of an identifier as it is printed at its index. -/
def printed (entry : UInt8 × Nat) : Bytes :=
  (if entry.2 ∈ [4, 6, 8, 10] then [dash] else []) ++ hexByte entry.1

def uuidText (bytes : UuidBytes) : Bytes := bytes.bytes.zipIdx.flatMap printed

def pointId (bytes : UuidBytes) : PointId := ⟨some (.uuid (uuidText bytes))⟩

def hex (byte : UInt8) : Except BackendError Nat := okOr (lowerHex byte) .malformedResponse

/-- Passes over the dash before a group. -/
def passDash (bytes : Bytes) (cursor index : Nat) : Except BackendError Nat :=
  if index ∈ [4, 6, 8, 10] then do
    refuse (bytes[cursor]? ≠ some dash) .malformedResponse
    return cursor + 1
  else .ok cursor

/-- Reads the byte of one index at the cursor. -/
def decodeByte (bytes : Bytes) (state : UuidBytes × Nat) (index : Nat) :
    Except BackendError (UuidBytes × Nat) := do
  let cursor ← passDash bytes state.2 index
  let high ← okOr bytes[cursor]? .malformedResponse
  let high ← hex high
  let low ← okOr bytes[cursor + 1]? .malformedResponse
  let low ← hex low
  return (state.1.set index (UInt8.ofNat (high * 16 + low)), cursor + 2)

def decodeId (id : Option PointId) : Except BackendError UuidBytes :=
  match id.bind PointId.pointIdOptions with
  | some (.uuid text) => do
      refuse (text.length ≠ 36) .malformedResponse
      let (decoded, _) ← (List.range 16).foldlM (decodeByte text) (Octets.replicate 16 0, 0)
      return decoded
  | _ => .error .malformedResponse

end Codec

/-! ## Pairs of digits -/

/-- Two digits spell the one byte that is put together from their values. -/
theorem hexByte_eq {byte high low : UInt8} :
    hexByte byte = [high, low] ↔ ∃ first, lowerHex high = some first ∧
      ∃ second, lowerHex low = some second ∧ UInt8.ofNat (16 * first + second) = byte := by
  constructor
  · intro hspelled
    obtain ⟨rfl, hlow⟩ := List.cons_eq_cons.mp hspelled
    obtain ⟨rfl, -⟩ := List.cons_eq_cons.mp hlow
    refine ⟨_, lowerHex_digit (high_lt byte), _, lowerHex_digit (low_lt byte), ?_⟩
    rw [Nat.div_add_mod, UInt8.ofNat_toNat]
  · rintro ⟨first, hfirst, second, hsecond, rfl⟩
    have hread : unhex [high, low] = some [UInt8.ofNat (16 * first + second)] := by
      rw [unhex, hfirst, hsecond]
      rfl
    exact hex_of_unhex hread

theorem shift_or {first second : Nat} (hsecond : second < 16) :
    first <<< 4 ||| second = 16 * first + second := by
  rw [← Nat.shiftLeft_add_eq_or_of_lt hsecond, Nat.shiftLeft_eq, Nat.mul_comm]

/-! ## Parsing -/

/-- The bytes of a text that no dash position holds. -/
def sifted : (position : Nat) → Bytes → Bytes
  | _, [] => []
  | position, byte :: rest =>
      if position ∈ [8, 13, 18, 23] then sifted (position + 1) rest
      else byte :: sifted (position + 1) rest

theorem gather_eq_ok {state last : Octets 32 × Nat} {entry : UInt8 × Nat} :
    gather state entry = .ok last ↔
      if entry.2 ∈ [8, 13, 18, 23] then state = last
      else IsLowerHex entry.1 ∧ (state.1.set state.2 entry.1, state.2 + 1) = last := by
  unfold gather
  split
  · exact ⟨Except.ok.inj, congrArg Except.ok⟩
  · simp [bind_eq_ok]

/-- The digits of a text are copied to the front of the array. -/
theorem gathered {text written rest : Bytes} {position : Nat} {compact : Octets 32}
    {last : Octets 32 × Nat} (hbytes : compact.bytes = written ++ rest)
    (hroom : (sifted position text).length = rest.length) :
    (text.zipIdx position).foldlM gather (compact, written.length) = .ok last ↔
      (∀ byte ∈ sifted position text, IsLowerHex byte) ∧
        last.1.bytes = written ++ sifted position text ∧ last.2 = 32 := by
  induction text generalizing position written rest compact with
  | nil =>
      obtain rfl := List.length_eq_zero_iff.mp hroom.symm
      have hwhole : written.length = 32 := by
        rw [← compact.length_eq, hbytes, List.append_nil]
      have hcompact : last.1.bytes = written ↔ compact = last.1 := by
        rw [Octets.ext_iff, hbytes, List.append_nil]
        exact eq_comm
      simp [sifted, hcompact, hwhole, Prod.ext_iff, eq_comm]
  | cons byte text ih =>
      rw [List.zipIdx_cons, List.foldlM_cons]
      simp only [bind_eq_ok, gather_eq_ok]
      by_cases hdash : position ∈ [8, 13, 18, 23]
      · rw [sifted, if_pos hdash] at hroom ⊢
        simp only [if_pos hdash, exists_eq_left']
        exact ih hbytes hroom
      · rw [sifted, if_neg hdash] at hroom ⊢
        simp only [if_neg hdash]
        cases rest with
        | nil => cases hroom
        | cons first rest =>
            have hnext := ih (Octets.set_bytes hbytes byte) (Nat.succ.inj hroom)
            rw [List.length_append, List.length_singleton] at hnext
            simp only [and_assoc, exists_and_left, exists_eq_left', hnext, List.forall_mem_cons,
              List.append_assoc, List.singleton_append]

theorem assemble_eq_ok {output last : UuidBytes} {high low : UInt8} {index : Nat} :
    assemble output ((high, low), index) = .ok last ↔
      ∃ byte, hexByte byte = [high, low] ∧ output.set index byte = last := by
  simp only [assemble, bind_eq_ok, okOr_eq_ok, pure_eq_ok, Except.ok.injEq, hexByte_eq]
  constructor
  · rintro ⟨first, hfirst, second, hsecond, rfl⟩
    rw [shift_or (digit_of_lowerHex hsecond).1]
    exact ⟨_, ⟨first, hfirst, second, hsecond, rfl⟩, rfl⟩
  · rintro ⟨_, ⟨first, hfirst, second, hsecond, rfl⟩, rfl⟩
    exact ⟨first, hfirst, second, hsecond, by rw [shift_or (digit_of_lowerHex hsecond).1]⟩

/-- The bytes of the pairs are written to the front of the array. -/
theorem assembled {text written rest : Bytes} {output last : UuidBytes}
    (hbytes : output.bytes = written ++ rest) (hroom : text.length = 2 * rest.length) :
    ((asChunks text).zipIdx written.length).foldlM assemble output = .ok last ↔
      ∃ bytes, hex bytes = text ∧ last.bytes = written ++ bytes := by
  induction text using asChunks.induct generalizing written rest output with
  | case1 high low text ih =>
      cases rest with
      | nil => cases hroom
      | cons first rest =>
          have hshorter : text.length = 2 * rest.length := by
            simp only [List.length_cons] at hroom
            omega
          have hnext (byte : UInt8) := ih (Octets.set_bytes hbytes byte) hshorter
          simp only [List.length_append, List.length_singleton, List.append_assoc,
            List.singleton_append] at hnext
          rw [asChunks, List.zipIdx_cons, List.foldlM_cons]
          simp only [bind_eq_ok, assemble_eq_ok]
          constructor
          · rintro ⟨_, ⟨byte, hbyte, rfl⟩, hrest⟩
            obtain ⟨bytes, hspelled, hlast⟩ := (hnext byte).mp hrest
            refine ⟨byte :: bytes, ?_, hlast⟩
            rw [← hspelled, ← List.singleton_append, hex_append]
            exact congrArg (· ++ hex bytes) hbyte
          · rintro ⟨bytes, hspelled, hlast⟩
            cases bytes with
            | nil => cases hspelled
            | cons byte bytes =>
                rw [hex_cons, List.cons_eq_cons, List.cons_eq_cons] at hspelled
                obtain ⟨rfl, rfl, hspelled⟩ := hspelled
                exact ⟨_, ⟨byte, rfl, rfl⟩, (hnext byte).mpr ⟨bytes, hspelled, hlast⟩⟩
  | case2 text hshort =>
      have hempty : text = [] ∧ rest = [] := by
        match text, rest, hroom with
        | [], [], _ => exact ⟨rfl, rfl⟩
        | high :: low :: text, _, _ => exact (hshort high low text rfl).elim
        | [_], rest, hroom =>
            rw [List.length_singleton] at hroom
            omega
      obtain ⟨rfl, rfl⟩ := hempty
      rw [List.append_nil] at hbytes
      constructor
      · intro hlast
        obtain rfl := Except.ok.inj hlast
        exact ⟨[], rfl, by rw [hbytes, List.append_nil]⟩
      · rintro ⟨bytes, hspelled, hlast⟩
        have hnone : bytes = [] := hex_injective hspelled
        rw [hnone, List.append_nil, ← hbytes] at hlast
        exact congrArg Except.ok (Octets.ext hlast).symm

theorem sifted_dash {position : Nat} (hdash : position ∈ [8, 13, 18, 23]) (text : Bytes) :
    sifted position text = sifted (position + 1) (text.drop 1) := by
  cases text with
  | nil => rfl
  | cons byte text => rw [sifted, if_pos hdash, List.drop_succ_cons, List.drop_zero]

theorem sifted_run {position : Nat} (count : Nat) (text : Bytes)
    (hclear : ∀ dash ∈ [8, 13, 18, 23], dash < position ∨ position + count ≤ dash) :
    sifted position text = text.take count ++ sifted (position + count) (text.drop count) := by
  induction count generalizing position text with
  | zero => rfl
  | succ count ih =>
      cases text with
      | nil => rfl
      | cons byte text =>
          have hout : position ∉ [8, 13, 18, 23] := by
            intro hinside
            have hside := hclear _ hinside
            omega
          have hrest : ∀ dash ∈ [8, 13, 18, 23],
              dash < position + 1 ∨ position + 1 + count ≤ dash := by
            intro dash hmem
            have hside := hclear dash hmem
            have hne : position ≠ dash := fun heq => hout (heq ▸ hmem)
            omega
          rw [sifted, if_neg hout, ih text hrest, List.take_succ_cons, List.drop_succ_cons,
            List.cons_append, Nat.add_assoc, Nat.add_comm 1 count]

/-- The digits of a text of the length of an identifier. -/
theorem sifted_eq {text : Bytes} (hlength : text.length = 36) : sifted 0 text = compact text := by
  have htail : (text.drop 24).drop 12 = [] := by
    rw [List.drop_drop]
    exact List.drop_eq_nil_of_le hlength.le
  have hlast : (text.drop 24).take 12 = text.drop 24 :=
    List.take_of_length_le (by rw [List.length_drop, hlength])
  rw [sifted_run 8 text (by decide), sifted_dash (by decide),
    sifted_run 4 _ (by decide), sifted_dash (by decide),
    sifted_run 4 _ (by decide), sifted_dash (by decide),
    sifted_run 4 _ (by decide), sifted_dash (by decide),
    sifted_run 12 _ (by decide)]
  simp only [List.drop_drop, Nat.reduceAdd] at htail ⊢
  rw [htail, hlast]
  simp only [sifted, compact, List.append_nil, List.append_assoc]

theorem length_compact {text : Bytes} (hlength : text.length = 36) : (compact text).length = 32 := by
  simp only [compact, List.length_append, List.length_take, List.length_drop, hlength]
  decide

/-- The contracts parse the text that an identifier is displayed as, and no other. -/
theorem parse_eq_ok {text : Bytes} {id : UuidBytes} :
    UuidBytes.parse text = .ok id ↔ Hex.uuidText id = text := by
  have hdigits : (Octets.replicate 32 (0 : UInt8)).bytes = [] ++ List.replicate 32 0 := rfl
  have houtput : (Octets.replicate 16 (0 : UInt8)).bytes = [] ++ List.replicate 16 0 := rfl
  simp only [UuidBytes.parse, bind_eq_ok, refuse_eq_ok, not_or, not_not, Prod.exists]
  constructor
  · rintro ⟨-, (hgrouped : Grouped text), compacted, count, hgathered, hassembled⟩
    have hsifted := sifted_eq hgrouped.1
    have hroom : (sifted 0 text).length = (List.replicate 32 (0 : UInt8)).length := by
      rw [hsifted, length_compact hgrouped.1, List.length_replicate]
    obtain ⟨-, hcompacted, -⟩ := (gathered hdigits hroom).mp hgathered
    obtain ⟨bytes, hspelled, hid⟩ := (assembled houtput compacted.length_eq).mp hassembled
    rw [hsifted, List.nil_append] at hcompacted
    refine parseUuid_eq_some.mp ?_
    rw [parseUuid, if_pos hgrouped, ← hcompacted, ← hspelled, unhex_hex, Option.bind_some]
    exact Octets.ofBytes?_eq_some.mpr hid
  · rintro rfl
    have hgrouped := grouped_uuidText id
    have hsifted : sifted 0 (Hex.uuidText id) = hex id.bytes :=
      (sifted_eq hgrouped.1).trans (compact_uuidText id)
    have hcount : (hex id.bytes).length = 32 := by rw [hex_length, id.length_eq]
    have hroom : (sifted 0 (Hex.uuidText id)).length = (List.replicate 32 (0 : UInt8)).length := by
      rw [hsifted, hcount, List.length_replicate]
    refine ⟨(), hgrouped, ⟨hex id.bytes, hcount⟩, 32, ?_, ?_⟩
    · refine (gathered hdigits hroom).mpr ⟨?_, hsifted.symm, rfl⟩
      rw [hsifted]
      exact fun _ hmem => hex_isLowerHex hmem
    · exact (assembled houtput hcount).mpr ⟨id.bytes, rfl, rfl⟩

/-! ## The bridge's texts -/

namespace Codec

/-- The bytes of an identifier as they are printed from an index on. -/
def printing (index : Nat) (bytes : Bytes) : Bytes := (bytes.zipIdx index).flatMap printed

@[simp]
theorem printing_cons (index : Nat) (byte : UInt8) (bytes : Bytes) :
    printing index (byte :: bytes) = printed (byte, index) ++ printing (index + 1) bytes :=
  rfl

/-- The bridge prints an identifier as the contracts display it. -/
theorem uuidText_eq (id : UuidBytes) : uuidText id = Hex.uuidText id := by
  obtain ⟨b0, b1, b2, b3, b4, b5, b6, b7, b8, b9, b10, b11, b12, b13, b14, b15, hbytes⟩ :=
    octets_sixteen id
  rw [uuidText, Hex.uuidText, hbytes]
  rfl

theorem hex_eq_ok {byte : UInt8} {value : Nat} :
    hex byte = .ok value ↔ lowerHex byte = some value :=
  okOr_eq_ok

/-- The two digits at the cursor are read as the byte that they spell. -/
theorem digits_at {bytes : Bytes} {cursor : Nat} {byte : UInt8} :
    (∃ high, bytes[cursor]? = some high ∧ ∃ first, lowerHex high = some first ∧
      ∃ low, bytes[cursor + 1]? = some low ∧ ∃ second, lowerHex low = some second ∧
        UInt8.ofNat (first * 16 + second) = byte) ↔ hexByte byte <+: bytes.drop cursor := by
  rw [← Nat.add_zero cursor, ← List.getElem?_drop, Nat.add_zero, ← List.getElem?_drop]
  match bytes.drop cursor with
  | [] => simp [hexByte]
  | [_] => simp [hexByte]
  | high :: low :: rest =>
      have hspelled : hexByte byte <+: high :: low :: rest ↔ hexByte byte = [high, low] := by
        simp [hexByte, List.cons_prefix_cons]
      rw [hspelled, hexByte_eq]
      simp only [List.getElem?_cons_zero, List.getElem?_cons_succ, Option.some.injEq,
        exists_eq_left', Nat.mul_comm 16]

theorem append_isPrefix {first second whole : Bytes} :
    first ++ second <+: whole ↔ first <+: whole ∧ second <+: whole.drop first.length := by
  constructor
  · rintro ⟨rest, rfl⟩
    rw [List.append_assoc, List.drop_left]
    exact ⟨List.prefix_append _ _, List.prefix_append _ _⟩
  · rintro ⟨⟨rest, rfl⟩, hsecond⟩
    rw [List.drop_left] at hsecond
    exact (List.prefix_append_right_inj first).mpr hsecond

theorem passDash_eq_ok {bytes : Bytes} {cursor index last : Nat} :
    passDash bytes cursor index = .ok last ↔
      if index ∈ [4, 6, 8, 10] then bytes[cursor]? = some dash ∧ cursor + 1 = last
      else cursor = last := by
  unfold passDash
  split
  · simp [bind_eq_ok]
  · exact ⟨Except.ok.inj, congrArg Except.ok⟩

/-- One step reads what is printed of one byte. -/
theorem decodeByte_eq_ok {bytes : Bytes} {state last : UuidBytes × Nat} {index : Nat} :
    decodeByte bytes state index = .ok last ↔
      ∃ byte, printed (byte, index) <+: bytes.drop state.2 ∧
        (state.1.set index byte, state.2 + (printed (byte, index)).length) = last := by
  have hstep (cursor : Nat) : (∃ high, bytes[cursor]? = some high ∧
      ∃ first, lowerHex high = some first ∧ ∃ low, bytes[cursor + 1]? = some low ∧
        ∃ second, lowerHex low = some second ∧
          (state.1.set index (UInt8.ofNat (first * 16 + second)), cursor + 2) = last) ↔
      ∃ byte, hexByte byte <+: bytes.drop cursor ∧ (state.1.set index byte, cursor + 2) = last := by
    simp only [← digits_at]
    constructor
    · rintro ⟨high, hhigh, first, hfirst, low, hlow, second, hsecond, hlast⟩
      exact ⟨_, ⟨high, hhigh, first, hfirst, low, hlow, second, hsecond, rfl⟩, hlast⟩
    · rintro ⟨_, ⟨high, hhigh, first, hfirst, low, hlow, second, hsecond, rfl⟩, hlast⟩
      exact ⟨high, hhigh, first, hfirst, low, hlow, second, hsecond, hlast⟩
  simp only [decodeByte, bind_eq_ok, okOr_eq_ok, hex_eq_ok, passDash_eq_ok, pure_eq_ok,
    Except.ok.injEq]
  by_cases hdash : index ∈ [4, 6, 8, 10]
  · have hfront (byte : UInt8) : printed (byte, index) <+: bytes.drop state.2 ↔
        bytes[state.2]? = some dash ∧ hexByte byte <+: bytes.drop (state.2 + 1) := by
      rw [printed, if_pos hdash, List.singleton_append, ← Nat.add_zero state.2,
        ← List.getElem?_drop, Nat.add_zero, ← List.drop_drop]
      cases bytes.drop state.2 with
      | nil => simp
      | cons first rest => simp [List.cons_prefix_cons, eq_comm]
    have hlength (byte : UInt8) : (printed (byte, index)).length = 3 := by
      rw [printed, if_pos hdash]
      rfl
    simp only [if_pos hdash, and_assoc, exists_and_left, exists_eq_left', hstep, hfront, hlength,
      Nat.add_assoc]
  · have hfront (byte : UInt8) : printed (byte, index) = hexByte byte := by
      rw [printed, if_neg hdash, List.nil_append]
    simp only [if_neg hdash, exists_eq_left', hstep, hfront]
    rfl

/-- The loop reads what is printed of the remaining bytes. -/
theorem decoded {text written rest : Bytes} {output : UuidBytes} {cursor : Nat}
    {last : UuidBytes × Nat} (hbytes : output.bytes = written ++ rest) :
    (List.range' written.length rest.length).foldlM (decodeByte text) (output, cursor) =
        .ok last ↔
      ∃ bytes, bytes.length = rest.length ∧ printing written.length bytes <+: text.drop cursor ∧
        last.1.bytes = written ++ bytes ∧
        cursor + (printing written.length bytes).length = last.2 := by
  induction rest generalizing written output cursor with
  | nil =>
      rw [List.append_nil] at hbytes
      have hlast : Except.ok (output, cursor) = (Except.ok last : Except BackendError _) ↔
          last.1.bytes = written ∧ cursor = last.2 := by
        rw [Except.ok.injEq, Prod.ext_iff, Octets.ext_iff, hbytes]
        exact and_congr_left' eq_comm
      simpa [List.length_eq_zero_iff, printing] using hlast
  | cons first rest ih =>
      have hnext (byte : UInt8) (cursor : Nat) := @ih _ _ cursor (Octets.set_bytes hbytes byte)
      simp only [List.length_append, List.length_singleton, List.append_assoc,
        List.singleton_append] at hnext
      rw [List.length_cons, List.range'_succ, List.foldlM_cons]
      simp only [bind_eq_ok, decodeByte_eq_ok]
      constructor
      · rintro ⟨_, ⟨byte, hbyte, rfl⟩, hrest⟩
        obtain ⟨bytes, hcount, hprinted, hlast, hcursor⟩ := (hnext byte _).mp hrest
        refine ⟨byte :: bytes, congrArg Nat.succ hcount, ?_, hlast, ?_⟩
        · rw [printing_cons, append_isPrefix, List.drop_drop]
          exact ⟨hbyte, hprinted⟩
        · rw [printing_cons, List.length_append, ← Nat.add_assoc, hcursor]
      · rintro ⟨bytes, hcount, hprinted, hlast, hcursor⟩
        cases bytes with
        | nil => cases hcount
        | cons byte bytes =>
            rw [printing_cons, append_isPrefix, List.drop_drop] at hprinted
            rw [printing_cons, List.length_append, ← Nat.add_assoc] at hcursor
            refine ⟨_, ⟨byte, hprinted.1, rfl⟩, ?_⟩
            exact (hnext byte _).mpr ⟨bytes, Nat.succ.inj hcount, hprinted.2, hlast, hcursor⟩

/-- The bridge reads back the text that it prints of an identifier, and no other. -/
theorem decodeId_eq_ok {text : Bytes} {id : UuidBytes} :
    decodeId (some ⟨some (.uuid text)⟩) = .ok id ↔ uuidText id = text := by
  have houtput : (Octets.replicate 16 (0 : UInt8)).bytes = [] ++ List.replicate 16 0 := rfl
  have hwidth : (uuidText id).length = 36 := by
    rw [uuidText_eq]
    exact (grouped_uuidText id).1
  simp only [decodeId, Option.bind_some, bind_eq_ok, refuse_eq_ok, not_not, List.range_eq_range',
    Prod.exists, pure_eq_ok, Except.ok.injEq]
  constructor
  · rintro ⟨-, hlength, output, cursor, hdecoded, rfl⟩
    obtain ⟨bytes, -, hprinted, hbytes, -⟩ := (decoded houtput).mp hdecoded
    obtain rfl : output.bytes = bytes := hbytes
    exact hprinted.eq_of_length (hwidth.trans hlength.symm)
  · rintro rfl
    exact ⟨(), hwidth, id, _, (decoded houtput).mpr
      ⟨id.bytes, id.length_eq, List.prefix_rfl, rfl, rfl⟩, rfl⟩

end Codec

/-! ## The codecs -/

/-- Nil is the identifier of sixteen zeros. -/
def nil : UuidBytes := Octets.replicate 16 0

theorem canonicalUuid_iff {text : Bytes} :
    CanonicalUuid text ↔ ∃ id, Hex.uuidText id = text ∧ id ≠ nil := by
  constructor
  · intro hcanonical
    obtain ⟨id, hparsed⟩ := hcanonical.parse
    refine ⟨id, parseUuid_eq_some.mp hparsed, ?_⟩
    rintro rfl
    have hnil : ¬ CanonicalUuid (Hex.uuidText nil) := by decide
    rw [parseUuid_eq_some.mp hparsed] at hnil
    exact hnil hcanonical
  · rintro ⟨id, rfl, hid⟩
    exact canonicalUuid_uuidText hid

/-- Every reader of identifiers knows the spelling that is displayed and no other, and the
spellings are ordered as the identifiers. -/
theorem identifier_codecs :
    (∀ id : UuidBytes, UuidBytes.parse (Hex.uuidText id) = .ok id ∧
      Codec.decodeId (some (Codec.pointId id)) = .ok id) ∧
    (∀ text : Bytes,
      ((∃ id, UuidBytes.parse text = .ok id) ↔ Hyphenated text) ∧
      (∀ id, UuidBytes.parse text = .ok id → Hex.uuidText id = text) ∧
      (∀ id, Codec.decodeId (some ⟨some (.uuid text)⟩) = .ok id ↔ UuidBytes.parse text = .ok id) ∧
      (CanonicalUuid text ↔ ∃ id, UuidBytes.parse text = .ok id ∧ id ≠ nil)) ∧
    ∀ first second : UuidBytes,
      compare first.bytes second.bytes = compare (Hex.uuidText first) (Hex.uuidText second) := by
  refine ⟨fun id => ⟨parse_eq_ok.mpr rfl, Codec.decodeId_eq_ok.mpr rfl⟩, fun text => ?_,
    fun first second => (compare_uuidText first second).symm⟩
  refine ⟨?_, fun _ hparsed => parse_eq_ok.mp hparsed, fun id => ?_, ?_⟩
  · rw [hyphenated_iff]
    exact exists_congr fun _ => parse_eq_ok
  · rw [Codec.decodeId_eq_ok, Codec.uuidText_eq, parse_eq_ok]
  · rw [canonicalUuid_iff]
    exact exists_congr fun _ => and_congr_left' parse_eq_ok.symm

end EliotSearch.Query.Identifiers
