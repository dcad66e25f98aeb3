import EliotSearch.Library.Words
import Mathlib.Data.List.Infix

/-!
# UTF-8 texts

A text is a byte string that spells Unicode scalar values.  No byte inside the
spelling of a scalar can start one, so the positions between two scalars are
recognised by one byte, and a text that occurs in another one does so between
scalars.
-/

namespace EliotSearch.Library.Utf8

/-! ## Scalars -/

/-- The spelling of a sequence of scalar values. -/
def encode (scalars : List Char) : Bytes := scalars.flatMap String.utf8EncodeChar

/-- A byte that cannot start the spelling of a scalar. -/
def IsContinuation (byte : UInt8) : Prop := 128 ≤ byte.toNat ∧ byte.toNat < 192

instance (byte : UInt8) : Decidable (IsContinuation byte) :=
  inferInstanceAs (Decidable (_ ∧ _))

@[simp]
theorem encode_nil : encode [] = [] :=
  rfl

@[simp]
theorem encode_cons (scalar : Char) (scalars : List Char) :
    encode (scalar :: scalars) = String.utf8EncodeChar scalar ++ encode scalars :=
  rfl

@[simp]
theorem encode_append (first second : List Char) :
    encode (first ++ second) = encode first ++ encode second :=
  List.flatMap_append

/-- The spelling of a scalar starts with a byte that is no continuation, and
has only continuations behind it. -/
theorem encodeChar_shape (scalar : Char) :
    ∃ lead tail, String.utf8EncodeChar scalar = lead :: tail ∧ ¬ IsContinuation lead ∧
      ∀ byte ∈ tail, IsContinuation byte := by
  have hscalar : scalar.val.toNat < 1114112 := by
    have hvalid := scalar.valid
    simp only [UInt32.isValidChar, Nat.isValidChar] at hvalid
    omega
  have hcontinues (value : Nat) : IsContinuation (UInt8.ofNat (value % 64 + 128)) := by
    simp only [IsContinuation, UInt8.toNat_ofNat']
    omega
  simp only [String.utf8EncodeChar]
  split
  · refine ⟨_, _, rfl, ?_, by simp⟩
    simp only [IsContinuation, UInt8.toNat_ofNat']
    omega
  split
  · refine ⟨_, _, rfl, ?_, List.forall_mem_singleton.mpr (hcontinues _)⟩
    simp only [IsContinuation, UInt8.toNat_ofNat']
    omega
  split
  · refine ⟨_, _, rfl, ?_, List.forall_mem_cons.mpr ⟨hcontinues _,
      List.forall_mem_singleton.mpr (hcontinues _)⟩⟩
    simp only [IsContinuation, UInt8.toNat_ofNat']
    omega
  · refine ⟨_, _, rfl, ?_, List.forall_mem_cons.mpr ⟨hcontinues _,
      List.forall_mem_cons.mpr ⟨hcontinues _, List.forall_mem_singleton.mpr (hcontinues _)⟩⟩⟩
    simp only [IsContinuation, UInt8.toNat_ofNat']
    omega

theorem encode_length_pos {scalars : List Char} (hnonempty : scalars ≠ []) :
    0 < (encode scalars).length := by
  cases scalars with
  | nil => exact absurd rfl hnonempty
  | cons scalar scalars =>
      obtain ⟨lead, tail, hchar, -, -⟩ := encodeChar_shape scalar
      rw [encode_cons, hchar]
      exact Nat.succ_pos _

/-- The first scalar of a text is determined by its bytes. -/
theorem encodeChar_inj {first second : Char} {left right : Bytes}
    (heq : String.utf8EncodeChar first ++ left = String.utf8EncodeChar second ++ right) :
    first = second ∧ left = right := by
  have hdecode (scalar : Char) (rest : Bytes) :
      ByteArray.utf8DecodeChar? (String.utf8EncodeChar scalar ++ rest).toByteArray 0 =
        some scalar := by
    rw [List.toByteArray_append]
    exact ByteArray.utf8DecodeChar?_utf8EncodeChar_append
  have hsame : first = second := by
    have hfirst := hdecode first left
    rw [heq, hdecode second right] at hfirst
    exact (Option.some.inj hfirst).symm
  subst hsame
  exact ⟨rfl, List.append_cancel_left heq⟩

/-- A spelling in front of another one spells its first scalars. -/
theorem encode_front {front whole : List Char} (hfronts : encode front <+: encode whole) :
    ∃ rest, whole = front ++ rest := by
  induction front generalizing whole with
  | nil => exact ⟨whole, rfl⟩
  | cons scalar front ih =>
      obtain ⟨rest, hrest⟩ := hfronts
      cases whole with
      | nil =>
          have hlength := congrArg List.length hrest
          have hpositive := encode_length_pos (List.cons_ne_nil scalar front)
          rw [List.length_append, encode_nil, List.length_nil] at hlength
          omega
      | cons other whole =>
          rw [encode_cons, encode_cons, List.append_assoc] at hrest
          obtain ⟨hsame, hbehind⟩ := encodeChar_inj hrest
          subst hsame
          obtain ⟨behind, rfl⟩ := ih ⟨rest, hbehind⟩
          exact ⟨behind, rfl⟩

/-! ## Boundaries -/

/-- The index is the end of the byte string, or the byte there starts a scalar. -/
def IsBoundary (bytes : Bytes) (index : Nat) : Prop :=
  index = bytes.length ∨ ∃ byte ∈ bytes[index]?, ¬ IsContinuation byte

instance (bytes : Bytes) (index : Nat) : Decidable (IsBoundary bytes index) :=
  inferInstanceAs (Decidable (_ ∨ _))

theorem IsBoundary.le {bytes : Bytes} {index : Nat} (hboundary : IsBoundary bytes index) :
    index ≤ bytes.length := by
  rcases hboundary with rfl | ⟨byte, hbyte, -⟩
  · exact le_rfl
  · exact (List.getElem?_eq_some_iff.mp hbyte).1.le

/-- The boundaries of a text lie between its scalars. -/
theorem isBoundary_iff {scalars : List Char} {index : Nat} :
    IsBoundary (encode scalars) index ↔
      ∃ front back, scalars = front ++ back ∧ index = (encode front).length := by
  constructor
  · intro hboundary
    induction scalars generalizing index with
    | nil => exact ⟨[], [], rfl, Nat.le_zero.mp hboundary.le⟩
    | cons scalar scalars ih =>
        obtain ⟨lead, tail, hchar, -, htail⟩ := encodeChar_shape scalar
        have hbytes : encode (scalar :: scalars) = lead :: (tail ++ encode scalars) := by
          rw [encode_cons, hchar, List.cons_append]
        rw [hbytes] at hboundary
        cases index with
        | zero => exact ⟨[], scalar :: scalars, rfl, rfl⟩
        | succ index =>
            rcases Nat.lt_or_ge index tail.length with hinside | hbehind
            · rcases hboundary with hend | ⟨byte, hbyte, hstarts⟩
              · rw [List.length_cons, List.length_append] at hend
                omega
              · rw [List.getElem?_cons_succ, List.getElem?_append_left hinside] at hbyte
                exact absurd (htail byte (List.mem_of_getElem? hbyte)) hstarts
            · have hrest : IsBoundary (encode scalars) (index - tail.length) := by
                rcases hboundary with hend | ⟨byte, hbyte, hstarts⟩
                · rw [List.length_cons, List.length_append] at hend
                  exact Or.inl (by omega)
                · rw [List.getElem?_cons_succ, List.getElem?_append_right hbehind] at hbyte
                  exact Or.inr ⟨byte, hbyte, hstarts⟩
              obtain ⟨front, back, rfl, hindex⟩ := ih hrest
              refine ⟨scalar :: front, back, rfl, ?_⟩
              rw [encode_cons, hchar, List.length_append, List.length_cons]
              omega
  · rintro ⟨front, back, rfl, rfl⟩
    cases back with
    | nil => exact Or.inl (by rw [List.append_nil])
    | cons scalar back =>
        obtain ⟨lead, tail, hchar, hlead, -⟩ := encodeChar_shape scalar
        refine Or.inr ⟨lead, ?_, hlead⟩
        rw [encode_append, encode_cons, hchar, List.getElem?_append_right le_rfl, Nat.sub_self]
        rfl

/-- A boundary cuts a text into two texts. -/
theorem boundary_cut {front back : List Char} :
    (encode (front ++ back)).take (encode front).length = encode front ∧
      (encode (front ++ back)).drop (encode front).length = encode back := by
  rw [encode_append]
  exact ⟨List.take_left, List.drop_left⟩

/-- A scalar whose spelling starts with an ASCII byte is spelled by it alone. -/
theorem encodeChar_ascii {scalar : Char} {lead : UInt8} {tail : Bytes}
    (hchar : String.utf8EncodeChar scalar = lead :: tail) (hascii : lead.toNat < 128) :
    tail = [] := by
  have hlead (value base limit : Nat) (hbase : 128 ≤ base) (hfits : limit + base ≤ 256) :
      ¬ (UInt8.ofNat (value % limit + base)).toNat < 128 ∨ limit = 0 := by
    rcases Nat.eq_zero_or_pos limit with hzero | hpositive
    · exact Or.inr hzero
    · have hlt := Nat.mod_lt value hpositive
      refine Or.inl ?_
      rw [UInt8.toNat_ofNat']
      omega
  simp only [String.utf8EncodeChar] at hchar
  split at hchar
  · exact (List.cons.inj hchar).2.symm
  split at hchar
  · rw [← (List.cons.inj hchar).1] at hascii
    exact absurd hascii ((hlead _ 192 32 (by decide) (by decide)).resolve_right (by decide))
  split at hchar
  · rw [← (List.cons.inj hchar).1] at hascii
    exact absurd hascii ((hlead _ 224 16 (by decide) (by decide)).resolve_right (by decide))
  · rw [← (List.cons.inj hchar).1] at hascii
    exact absurd hascii ((hlead _ 240 8 (by decide) (by decide)).resolve_right (by decide))

/-- The position behind an ASCII byte is a boundary. -/
theorem boundary_after_ascii {scalars : List Char} {index : Nat} {byte : UInt8}
    (hbyte : (encode scalars)[index]? = some byte) (hascii : byte.toNat < 128) :
    IsBoundary (encode scalars) (index + 1) := by
  have hstarts : ¬ IsContinuation byte := fun hcontinues => absurd hcontinues.1 (not_le.mpr hascii)
  obtain ⟨front, back, rfl, rfl⟩ := isBoundary_iff.mp (Or.inr ⟨byte, hbyte, hstarts⟩)
  cases back with
  | nil =>
      rw [List.append_nil, List.getElem?_eq_none le_rfl] at hbyte
      cases hbyte
  | cons scalar back =>
      obtain ⟨lead, tail, hchar, -, -⟩ := encodeChar_shape scalar
      rw [encode_append, List.getElem?_append_right le_rfl, Nat.sub_self, encode_cons, hchar] at hbyte
      obtain rfl := Option.some.inj hbyte
      have hsingle := encodeChar_ascii hchar hascii
      refine isBoundary_iff.mpr ⟨front ++ [scalar], back, by simp, ?_⟩
      rw [encode_append, encode_cons, hchar, hsingle, encode_nil, List.length_append]
      rfl

/-! ## Texts -/

/-- The byte string spells scalar values. -/
def Valid (bytes : Bytes) : Prop := ∃ scalars, encode scalars = bytes

theorem valid_iff {bytes : Bytes} : Valid bytes ↔ bytes.toByteArray.IsValidUTF8 := by
  constructor
  · rintro ⟨scalars, rfl⟩
    exact ⟨scalars, rfl⟩
  · rintro ⟨scalars, hscalars⟩
    exact ⟨scalars, (List.toByteArray_inj.mp hscalars).symm⟩

instance (bytes : Bytes) : Decidable (Valid bytes) :=
  decidable_of_iff _ valid_iff.symm

/-- Two boundaries in order enclose a text. -/
theorem Valid.slice {bytes : Bytes} (hvalid : Valid bytes) {start stop : Nat}
    (hstart : IsBoundary bytes start) (hstop : IsBoundary bytes stop) :
    Valid ((bytes.take stop).drop start) := by
  obtain ⟨scalars, rfl⟩ := hvalid
  obtain ⟨front, back, rfl, rfl⟩ := isBoundary_iff.mp hstop
  rw [boundary_cut.1]
  rcases Nat.lt_or_ge (encode front).length start with hpast | hwithin
  · rw [List.drop_eq_nil_of_le hpast.le]
    exact ⟨[], rfl⟩
  · obtain ⟨first, rest, heq, rfl⟩ := isBoundary_iff.mp hstart
    have hfront : encode front <+: encode (front ++ back) := by
      rw [encode_append]
      exact List.prefix_append _ _
    have hfirst : encode first <+: encode (front ++ back) := by
      rw [heq, encode_append]
      exact List.prefix_append _ _
    have hmiddle := List.prefix_of_prefix_length_le hfirst hfront hwithin
    obtain ⟨middle, rfl⟩ := encode_front hmiddle
    rw [boundary_cut.2]
    exact ⟨middle, rfl⟩

/-- A text that occurs in another one does so between scalars. -/
theorem boundary_of_occurrence {pattern bytes : Bytes} (hpattern : Valid pattern)
    (hnonempty : pattern ≠ []) (hbytes : Valid bytes) {start : Nat}
    (hoccurs : pattern <+: bytes.drop start) :
    IsBoundary bytes start ∧ IsBoundary bytes (start + pattern.length) := by
  obtain ⟨symbols, rfl⟩ := hpattern
  obtain ⟨scalars, rfl⟩ := hbytes
  have hstart : IsBoundary (encode scalars) start := by
    cases symbols with
    | nil => exact absurd rfl hnonempty
    | cons symbol symbols =>
        obtain ⟨lead, tail, hchar, hlead, -⟩ := encodeChar_shape symbol
        obtain ⟨rest, hrest⟩ := hoccurs
        rw [encode_cons, hchar, List.cons_append, List.cons_append] at hrest
        have hbyte := congrArg (·[0]?) hrest
        simp only [List.getElem?_cons_zero, List.getElem?_drop, Nat.add_zero] at hbyte
        exact Or.inr ⟨lead, hbyte.symm, hlead⟩
  refine ⟨hstart, ?_⟩
  obtain ⟨front, back, rfl, rfl⟩ := isBoundary_iff.mp hstart
  rw [boundary_cut.2] at hoccurs
  obtain ⟨rest, rfl⟩ := encode_front hoccurs
  refine isBoundary_iff.mpr ⟨front ++ symbols, rest, (List.append_assoc _ _ _).symm, ?_⟩
  rw [encode_append, List.length_append]

/-- A byte string that spells scalar values. -/
structure Text where
  bytes : Bytes
  valid : Valid bytes
  deriving DecidableEq

namespace Text

@[ext]
theorem ext {first second : Text} (heq : first.bytes = second.bytes) : first = second := by
  cases first
  cases second
  cases heq
  rfl

/-- The text that a byte string spells, if it spells one. -/
def ofBytes (bytes : Bytes) : Option Text :=
  if hvalid : Valid bytes then some ⟨bytes, hvalid⟩ else none

/-- The text that spells scalar values. -/
def ofChars (scalars : List Char) : Text := ⟨encode scalars, scalars, rfl⟩

/-- The scalar values that a text spells. -/
def chars (text : Text) : List Char :=
  (String.ofByteArray text.bytes.toByteArray (valid_iff.mp text.valid)).toList

@[simp]
theorem chars_ofChars (scalars : List Char) : (ofChars scalars).chars = scalars :=
  String.toList_ofList

@[simp]
theorem encode_chars (text : Text) : encode text.chars = text.bytes :=
  List.toByteArray_inj.mp String.utf8Encode_toList

theorem ofChars_chars (text : Text) : ofChars text.chars = text :=
  ext text.encode_chars

/-- The part between two boundaries in order. -/
def get (text : Text) (start stop : Nat) : Option Text :=
  if hrange : start ≤ stop ∧ IsBoundary text.bytes start ∧ IsBoundary text.bytes stop then
    some ⟨(text.bytes.take stop).drop start, text.valid.slice hrange.2.1 hrange.2.2⟩
  else none

theorem ofBytes_eq_some {bytes : Bytes} {text : Text} :
    ofBytes bytes = some text ↔ text.bytes = bytes := by
  unfold ofBytes
  constructor
  · intro hfound
    split at hfound
    · exact (congrArg Text.bytes (Option.some.inj hfound)).symm
    · cases hfound
  · rintro rfl
    exact dif_pos text.valid

theorem get_eq_some {text part : Text} {start stop : Nat} :
    text.get start stop = some part ↔
      start ≤ stop ∧ IsBoundary text.bytes start ∧ IsBoundary text.bytes stop ∧
        part.bytes = (text.bytes.take stop).drop start := by
  unfold get
  constructor
  · intro hfound
    split at hfound
    · rename_i hrange
      obtain rfl := Option.some.inj hfound
      exact ⟨hrange.1, hrange.2.1, hrange.2.2, rfl⟩
    · cases hfound
  · rintro ⟨hle, hstart, hstop, hpart⟩
    rw [dif_pos ⟨hle, hstart, hstop⟩]
    exact congrArg some (ext hpart.symm)

theorem boundary_start (text : Text) : IsBoundary text.bytes 0 := by
  rw [← text.encode_chars]
  exact isBoundary_iff.mpr ⟨[], text.chars, rfl, rfl⟩

theorem boundary_end (text : Text) : IsBoundary text.bytes text.bytes.length := by
  rw [← text.encode_chars]
  exact isBoundary_iff.mpr ⟨text.chars, [], (List.append_nil _).symm, rfl⟩

/-- A text is the part from its start to its end. -/
theorem get_whole (text : Text) : text.get 0 text.bytes.length = some text :=
  get_eq_some.mpr ⟨Nat.zero_le _, text.boundary_start, text.boundary_end, by simp⟩

end Text

end EliotSearch.Library.Utf8
