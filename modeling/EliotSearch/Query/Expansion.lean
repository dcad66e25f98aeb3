import EliotSearch.Query.DecodedExact
import EliotSearch.Query.WindowItems
import EliotSearch.Session.Window

/-!
# Expansions

The context around an emitted item, read again from the representation that the
view pins.  A context that is not wholly there is refused and never clipped.
-/

namespace EliotSearch.Query

open EliotSearch.Control
open EliotSearch.Library
open EliotSearch.Library.Hex
open EliotSearch.Library.Json
open EliotSearch.Library.Results
open EliotSearch.Library.Slices
open EliotSearch.Library.Utf8
open EliotSearch.Library.Words
open EliotSearch.Preparation (PreparedUtf8 decodePreparedUtf8)
open EliotSearch.Session

namespace Expansion

def windowRange : QueryFailure := .code (ascii "WINDOW_RANGE_INVALID")

def bindingInvalid : QueryFailure := .code (ascii "EVIDENCE_BINDING_INVALID")

def textMismatch : QueryFailure := .code (ascii "EVIDENCE_TEXT_MISMATCH")

/-- What an item says about its place. -/
structure Anchor where
  id : Bytes
  sourceNamespaceId : Bytes
  input : ObjectRefDto
  source : Option RawSourceRef
  prepared : Option ObjectRefDto
  start : UInt64
  stop : UInt64
  original : Bytes

namespace Anchor

def fromItem : WindowItem → Except QueryFailure Anchor
  | .search (.hit hit) => return {
      id := hit.evidence.sourceId
      sourceNamespaceId := hit.evidence.sourceNamespaceId
      input := hit.evidence.input
      source := none
      prepared := some hit.evidence.prepared
      start := hit.evidence.start
      stop := hit.evidence.stop
      original := hit.unitText.bytes }
  | .raw (.matched hit) => return {
      id := hit.source.sourceId
      sourceNamespaceId := hit.source.sourceNamespaceId
      input := hit.source.input
      source := some hit.source
      prepared := none
      start := hit.start
      stop := hit.stop
      original := hit.bytesHex }
  | .decodedUtf8 (.matched hit) => return {
      id := hit.source.sourceId
      sourceNamespaceId := hit.source.sourceNamespaceId
      input := hit.source.input
      source := some hit.source
      prepared := some hit.prepared
      start := hit.representationStart
      stop := hit.representationEnd
      original := hit.text.bytes }
  | _ => .error (.code (ascii "WINDOW_ITEM_UNAVAILABLE"))

/-- The range of the context. -/
def context (before after : UInt64) (anchor : Anchor) : Except QueryFailure (Nat × Nat) := do
  refuse (anchor.start < before) windowRange
  let start := anchor.start - before
  let stop ← okOr (checkedAdd anchor.stop after) windowRange
  refuse (stop > anchor.input.bytes) windowRange
  refuse (anchor.start ≥ anchor.stop ∨ stop - start > maxExpansionBytes)
    (.code (ascii "WINDOW_EXPANSION_LIMIT"))
  return (start.toNat, stop.toNat)

end Anchor

/-- The context in the saved text of a prepared source. -/
def readText (anchor : Anchor) (expected : ObjectRefDto) (first last : Nat) (artifact : ObjectRef)
    (saved : PreparedUtf8) : Except QueryFailure (Option ObjectRefDto × ExpansionContent) := do
  refuse (objectRef artifact ≠ expected ∨
    (saved.text.get anchor.start.toNat anchor.stop.toNat).map Text.bytes ≠ some anchor.original)
    textMismatch
  -- exact byte counts are honored: a scalar-splitting request is refused
  let text ← okOr (saved.text.get first last) (.code (ascii "WINDOW_UTF8_BOUNDARY"))
  return (some (objectRef artifact), .utf8 text)

/-- The context in the bytes of a source. -/
def readBytes (anchor : Anchor) (first last : Nat) (bytes : Bytes) :
    Except QueryFailure (Option ObjectRefDto × ExpansionContent) := do
  let original ← okOr (slice bytes anchor.start.toNat anchor.stop.toNat) windowRange
  refuse (hex original ≠ anchor.original) textMismatch
  let context ← okOr (slice bytes first last) windowRange
  return (none, .raw (hex context))

/-- The context in the representation that the item comes from. -/
def read (store : Store) (env : Env) (captured : CapturedSource) (anchor : Anchor)
    (first last : Nat) : Except QueryFailure (Option ObjectRefDto × ExpansionContent) :=
  match anchor.prepared with
  | some expected => do
      match ← DecodedExact.visitRepresentation store env captured
          (readText anchor expected first last) with
      | .inl gap => .error (.code gap.code)
      | .inr found => return found
  | none => do
      let bytes ← (readObject store env captured.source.objectRef
        maxSourceObjectBytes).mapError DecodedExact.objectFailure
      readBytes anchor first last bytes

/-- Bounded context from an emitted item's original pinned representation. -/
def execute (store : Store) (env : Env) (view : PublishedView) (itemIndex : UInt8)
    (item : WindowItem) (before after : UInt64) : Except QueryFailure WindowExpansion := do
  check env 0
  let anchor ← Anchor.fromItem item
  let (first, last) ← anchor.context before after
  let id ← okOr (parseUuid anchor.id) bindingInvalid
  let captured ← (view.source (within env 1) id).mapError publicationFailure
  let source := sourceRef captured.source
  refuse (source.input ≠ anchor.input ∨ source.sourceNamespaceId ≠ anchor.sourceNamespaceId ∨
    ∃ expected ∈ anchor.source, expected ≠ source) bindingInvalid
  let (prepared, content) ← read store (within env 2) captured anchor first last
  let expansion : WindowExpansion := {
    windowId := sessionWindowId
    itemIndex
    source
    prepared
    representationStart := UInt64.ofNat first
    representationEnd := UInt64.ofNat last
    sourceStart := UInt64.ofNat first
    sourceEnd := UInt64.ofNat last
    content }
  check env 3
  expansion.validate.mapError fun error => .code error.code
  return expansion

/-! ## What a client knows of the place -/

/-- An anchor and a citation of one item. -/
structure Anchor.Of (anchor : Anchor) (cited : Cited) : Prop where
  id : anchor.id = cited.sourceId
  namespaceId : anchor.sourceNamespaceId = cited.sourceNamespaceId
  input : anchor.input = cited.input
  source : anchor.source = cited.source
  prepared : anchor.prepared = cited.prepared
  start : anchor.start = cited.start
  stop : anchor.stop = cited.stop
  original : match cited.prepared with
    | none => cited.text = none ∧ cited.bytesHex = some anchor.original
    | some _ => ∃ text, cited.text = some text ∧ cited.bytesHex = none ∧
        text.bytes = anchor.original

theorem fromItem_eq_ok {item : WindowItem} {anchor : Anchor}
    (hanchor : Anchor.fromItem item = .ok anchor) :
    ∃ cited, item.cited = some cited ∧ anchor.Of cited := by
  unfold Anchor.fromItem at hanchor
  split at hanchor
  · obtain rfl := Except.ok.inj hanchor
    exact ⟨_, rfl, rfl, rfl, rfl, rfl, rfl, rfl, rfl, _, rfl, rfl, rfl⟩
  · obtain rfl := Except.ok.inj hanchor
    exact ⟨_, rfl, rfl, rfl, rfl, rfl, rfl, rfl, rfl, rfl, rfl⟩
  · obtain rfl := Except.ok.inj hanchor
    exact ⟨_, rfl, rfl, rfl, rfl, rfl, rfl, rfl, rfl, _, rfl, rfl, rfl⟩
  · cases hanchor

/-- A range that is accepted is within the input and within the limit. -/
structure InRange (anchor : Anchor) (before after : UInt64) (first last : Nat) : Prop where
  begins : first + before.toNat = anchor.start.toNat
  ends : last = anchor.stop.toNat + after.toNat
  within : last ≤ anchor.input.bytes.toNat
  nonempty : anchor.start.toNat < anchor.stop.toNat
  bounded : last - first ≤ maxExpansionBytes.toNat

theorem context_eq_ok {anchor : Anchor} {before after : UInt64} {first last : Nat}
    (hcontext : anchor.context before after = .ok (first, last)) :
    InRange anchor before after first last := by
  simp only [Anchor.context, bind_eq_ok, refuse_eq_ok, okOr_eq_ok, checkedAdd_eq_some, not_or,
    UInt64.not_lt, UInt64.not_le, pure_eq_ok, Except.ok.injEq, Prod.mk.injEq] at hcontext
  obtain ⟨_, hbefore, stop, hstop, _, hwithin, _, ⟨hnonempty, hbounded⟩, rfl, rfl⟩ := hcontext
  rw [UInt64.le_iff_toNat_le] at hbefore hwithin hbounded
  rw [UInt64.lt_iff_toNat_lt] at hnonempty
  have hstart := UInt64.toNat_sub_of_le anchor.start before (UInt64.le_iff_toNat_le.mpr hbefore)
  have hle : anchor.start - before ≤ stop := UInt64.le_iff_toNat_le.mpr (by omega)
  rw [UInt64.toNat_sub_of_le stop _ hle] at hbounded
  exact ⟨by omega, hstop, hwithin, hnonempty, hbounded⟩

/-! ## What is read -/

/-- The saved representation of a source that was prepared into the artifact. -/
structure Saved (store : Store) (captured : CapturedSource) (artifact : ObjectRef)
    (text : Text) : Prop where
  ready : DecodedExact.Ready captured artifact
  source : store.Holds captured.source.objectRef text.bytes
  decoded : ∃ data env saved, store.Holds artifact data ∧
    decodePreparedUtf8 store.hash env data captured.source captured.preparation.settings
      DecodedExact.limits = .ok saved ∧ saved.text = text

theorem visitRepresentation_saved {α : Type} {store : Store} {env : Env}
    {captured : CapturedSource} {visit : ObjectRef → PreparedUtf8 → Except QueryFailure α}
    {value : α}
    (hvisited : DecodedExact.visitRepresentation store env captured visit = .ok (.inr value)) :
    ∃ artifact saved, Saved store captured artifact saved.text ∧
      visit artifact saved = .ok value := by
  unfold DecodedExact.visitRepresentation at hvisited
  simp only [bind_eq_ok, okOr_eq_ok] at hvisited
  obtain ⟨_, -, outcome, houtcome, hvisited⟩ := hvisited
  split at hvisited
  · cases hvisited
  · rename_i artifact hartifact
    obtain ⟨source, hsource, hvisited⟩ := bind_eq_ok.mp hvisited
    have hsource := DecodedExact.readRetained_eq_ok hsource
    cases source with
    | none => cases hvisited
    | some source =>
        obtain ⟨data, hdata, hvisited⟩ := bind_eq_ok.mp hvisited
        have hdata := DecodedExact.readRetained_eq_ok hdata
        cases data with
        | none => cases hvisited
        | some data =>
            simp only [bind_eq_ok, refuse_eq_ok, not_not, pure_eq_ok, Except.ok.injEq,
              mapError_eq_ok, Sum.inr.injEq] at hvisited
            obtain ⟨saved, hsaved, _, htext, _, -, _, hvalue, rfl⟩ := hvisited
            have hheld : store.Holds captured.source.objectRef saved.text.bytes := htext ▸ hsource
            exact ⟨artifact, saved, ⟨⟨outcome, houtcome, hartifact⟩, hheld, data, _, saved, hdata,
              hsaved, rfl⟩, hvalue⟩

/-- The context that a read gives, with the original at its place. -/
inductive Found (store : Store) (captured : CapturedSource) (anchor : Anchor) (first last : Nat) :
    Option ObjectRefDto × ExpansionContent → Prop where
  | text (artifact : ObjectRef) (text original context : Text)
      (hsaved : Saved store captured artifact text)
      (hprepared : anchor.prepared = some (objectRef artifact))
      (horiginal : text.get anchor.start.toNat anchor.stop.toNat = some original)
      (hsame : original.bytes = anchor.original)
      (hcontext : text.get first last = some context) :
      Found store captured anchor first last (some (objectRef artifact), .utf8 context)
  | bytes (bytes original context : Bytes)
      (hsource : store.Holds captured.source.objectRef bytes)
      (hprepared : anchor.prepared = none)
      (horiginal : slice bytes anchor.start.toNat anchor.stop.toNat = some original)
      (hsame : hex original = anchor.original)
      (hcontext : slice bytes first last = some context) :
      Found store captured anchor first last (none, .raw (hex context))

theorem read_eq_ok {store : Store} {env : Env} {captured : CapturedSource} {anchor : Anchor}
    {first last : Nat} {found : Option ObjectRefDto × ExpansionContent}
    (hread : read store env captured anchor first last = .ok found) :
    Found store captured anchor first last found := by
  unfold read at hread
  split at hread
  · rename_i expected hexpected
    obtain ⟨visited, hvisited, hread⟩ := bind_eq_ok.mp hread
    cases visited with
    | inl gap => cases hread
    | inr context =>
        obtain rfl := Except.ok.inj hread
        obtain ⟨artifact, saved, hsaved, htext⟩ := visitRepresentation_saved hvisited
        simp only [readText, bind_eq_ok, refuse_eq_ok, okOr_eq_ok, not_or, not_not, pure_eq_ok,
          Except.ok.injEq] at htext
        obtain ⟨_, ⟨rfl, horiginal⟩, text, htext, rfl⟩ := htext
        obtain ⟨original, hget, hsame⟩ := Option.map_eq_some_iff.mp horiginal
        exact .text artifact saved.text original text hsaved hexpected hget hsame htext
  · rename_i hexpected
    obtain ⟨bytes, hbytes, hread⟩ := bind_eq_ok.mp hread
    have hheld := (readObject_eq_ok (mapError_eq_ok.mp hbytes)).1
    simp only [readBytes, bind_eq_ok, refuse_eq_ok, okOr_eq_ok, not_not, pure_eq_ok,
      Except.ok.injEq] at hread
    obtain ⟨original, horiginal, _, hsame, context, hcontext, rfl⟩ := hread
    exact .bytes bytes original context hheld hexpected horiginal hsame hcontext

/-- Everything that an expansion which succeeds has met. -/
structure Met (store : Store) (view : PublishedView) (env : Env) (itemIndex : UInt8)
    (anchor : Anchor) (before after : UInt64) (expansion : WindowExpansion) (first last : Nat)
    (id : SourceId) (captured : CapturedSource) : Prop where
  range : InRange anchor before after first last
  named : uuidText id = anchor.id
  sourced : view.source (within env 1) id = .ok captured
  input : objectRef captured.source.objectRef = anchor.input
  namespaceId : (sourceRef captured.source).sourceNamespaceId = anchor.sourceNamespaceId
  source : ∀ expected ∈ anchor.source, expected = sourceRef captured.source
  found : Found store captured anchor first last (expansion.prepared, expansion.content)
  placed : expansion = {
    windowId := sessionWindowId
    itemIndex
    source := sourceRef captured.source
    prepared := expansion.prepared
    representationStart := UInt64.ofNat first
    representationEnd := UInt64.ofNat last
    sourceStart := UInt64.ofNat first
    sourceEnd := UInt64.ofNat last
    content := expansion.content }
  valid : expansion.validate = .ok ()

theorem execute_eq_ok {store : Store} {env : Env} {view : PublishedView} {itemIndex : UInt8}
    {item : WindowItem} {before after : UInt64} {expansion : WindowExpansion}
    (hexecute : execute store env view itemIndex item before after = .ok expansion) :
    ∃ anchor first last id captured, Anchor.fromItem item = .ok anchor ∧
      Met store view env itemIndex anchor before after expansion first last id captured := by
  simp only [execute, bind_eq_ok, refuse_eq_ok, okOr_eq_ok, mapError_eq_ok, not_or, not_not,
    not_exists, not_and, pure_eq_ok, Except.ok.injEq, Prod.exists] at hexecute
  obtain ⟨_, -, anchor, hanchor, first, last, hrange, id, hid, captured, hcaptured, _,
    ⟨hinput, hnamespace, hsource⟩, prepared, content, hread, _, -, _, hvalid, rfl⟩ := hexecute
  exact ⟨anchor, first, last, id, captured, hanchor, {
    range := context_eq_ok hrange
    named := parseUuid_eq_some.mp hid
    sourced := hcaptured
    input := hinput
    namespaceId := hnamespace
    source := hsource
    found := read_eq_ok hread
    placed := rfl
    valid := hvalid }⟩

/-! ## Exact contexts -/

/-- The bytes are the representation that the view pins for the place. -/
structure Pinned (store : Store) (view : PublishedView) (cited : Cited)
    (captured : CapturedSource) (bytes : Bytes) : Prop where
  id : uuidText captured.source.sourceId = cited.sourceId
  sourced : view.source Env.quiet captured.source.sourceId = .ok captured
  input : objectRef captured.source.objectRef = cited.input
  namespaceId : uuidText captured.source.sourceNamespaceId = cited.sourceNamespaceId
  source : ∀ expected ∈ cited.source, expected = sourceRef captured.source
  held : store.Holds captured.source.objectRef bytes
  saved : ∀ prepared ∈ cited.prepared, ∃ artifact text, prepared = objectRef artifact ∧
    Saved store captured artifact text ∧ text.bytes = bytes

/-- The whole context is there: it neither starts before the representation nor
ends after it, is within the limit and cuts no scalar of a text. -/
structure Fits (cited : Cited) (bytes : Bytes) (before after : UInt64) : Prop where
  begins : before.toNat ≤ cited.start.toNat
  ends : cited.stop.toNat + after.toNat ≤ bytes.length
  bounded : cited.stop.toNat + after.toNat - (cited.start.toNat - before.toNat) ≤
    maxExpansionBytes.toNat
  boundaries : cited.prepared ≠ none → IsBoundary bytes (cited.start.toNat - before.toNat) ∧
    IsBoundary bytes (cited.stop.toNat + after.toNat)

/-- The expansion is the part of the representation around the place, and the
original is in it where the place says. -/
structure Exact (cited : Cited) (bytes : Bytes) (before after : UInt64)
    (expansion : WindowExpansion) : Prop where
  begins : expansion.representationStart.toNat + before.toNat = cited.start.toNat
  ends : expansion.representationEnd.toNat = cited.stop.toNat + after.toNat
  source : expansion.sourceStart = expansion.representationStart ∧
    expansion.sourceEnd = expansion.representationEnd
  prepared : expansion.prepared = cited.prepared
  content : ∃ context original,
    slice bytes expansion.representationStart.toNat expansion.representationEnd.toNat =
      some context ∧
    expansion.content.Spells context ∧
    slice bytes cited.start.toNat cited.stop.toNat = some original ∧ cited.Spells original ∧
    slice context before.toNat (before.toNat + (cited.stop.toNat - cited.start.toNat)) =
      some original

theorem source_undisturbed {env : Env} {view : PublishedView} {id : SourceId}
    {captured : CapturedSource} (hsource : view.source env id = .ok captured) :
    view.source Env.quiet id = .ok captured ∧ captured.source.sourceId = id := by
  simp only [PublishedView.source, bind_eq_ok, pure_eq_ok, Except.ok.injEq] at hsource
  obtain ⟨_, -, found, hread, _, -, rfl⟩ := hsource
  have hcheck (site : Nat) : Env.quiet.check publicationFault site = .ok () := rfl
  refine ⟨?_, ?_⟩
  · rw [PublishedView.source, hcheck, ok_bind, hread, ok_bind, hcheck, ok_bind, pure_eq_ok]
  · simp only [readSavedSource, bind_eq_ok, refuse_eq_ok, not_or, not_not, pure_eq_ok,
      Except.ok.injEq] at hread
    obtain ⟨state, -, _, -, table, -, value, -, entry, -, _, ⟨-, hid⟩, rfl⟩ := hread
    exact hid

section Meeting

variable {store : Store} {view : PublishedView} {env : Env} {itemIndex : UInt8} {anchor : Anchor}
  {cited : Cited} {before after : UInt64} {expansion : WindowExpansion} {first last : Nat}
  {id : SourceId} {captured : CapturedSource}

/-- The representation of an expansion that succeeds, and what it shows. -/
theorem Found.shows (hfound : Found store captured anchor first last
      (expansion.prepared, expansion.content))
    (hof : anchor.Of cited) :
    ∃ bytes context original, store.Holds captured.source.objectRef bytes ∧
      (∀ prepared ∈ cited.prepared, ∃ artifact text, prepared = objectRef artifact ∧
        Saved store captured artifact text ∧ text.bytes = bytes) ∧
      expansion.prepared = cited.prepared ∧
      slice bytes first last = some context ∧ expansion.content.Spells context ∧
      slice bytes cited.start.toNat cited.stop.toNat = some original ∧ cited.Spells original ∧
      (cited.prepared ≠ none → IsBoundary bytes first ∧ IsBoundary bytes last) := by
  have horiginal := hof.original
  generalize hshown : (expansion.prepared, expansion.content) = shown at hfound
  cases hfound with
  | text artifact text original context hsaved hprepared hget hsame hcontext =>
      obtain ⟨hexpected, hkind⟩ := Prod.mk.inj hshown
      rw [hof.prepared] at hprepared
      rw [hprepared] at horiginal
      obtain ⟨known, htext, hdigits, hknown⟩ := horiginal
      obtain ⟨-, hfirst, hlast, -⟩ := Text.get_eq_some.mp hcontext
      rw [hof.start, hof.stop] at hget
      refine ⟨text.bytes, context.bytes, original.bytes, hsaved.source, ?_,
        hexpected.trans hprepared.symm, slice_of_get hcontext, ?_, slice_of_get hget, ?_,
        fun _ => ⟨hfirst, hlast⟩⟩
      · intro prepared hmem
        obtain rfl := Option.some.inj (hprepared.symm.trans hmem)
        exact ⟨artifact, text, rfl, hsaved, rfl⟩
      · rw [hkind]
        rfl
      · refine ⟨?_, ?_, Or.inl (by rw [htext]; exact Option.some_ne_none _)⟩
        · intro other hmem
          obtain rfl := Option.some.inj (htext.symm.trans hmem)
          rw [hknown, hsame]
        · rw [hdigits]
          rintro _ ⟨⟩
  | bytes bytes original context hsource hprepared hslice hsame hcontext =>
      obtain ⟨hexpected, hkind⟩ := Prod.mk.inj hshown
      rw [hof.prepared] at hprepared
      rw [hprepared] at horiginal
      obtain ⟨htext, hdigits⟩ := horiginal
      rw [hof.start, hof.stop] at hslice
      refine ⟨bytes, context, original, hsource, ?_, hexpected.trans hprepared.symm, hcontext, ?_,
        hslice, ?_, fun hsome => absurd hprepared hsome⟩
      · rw [hprepared]
        rintro _ ⟨⟩
      · rw [hkind]
        rfl
      · refine ⟨?_, ?_, Or.inr (by rw [hdigits]; exact Option.some_ne_none _)⟩
        · rw [htext]
          rintro _ ⟨⟩
        · intro other hmem
          obtain rfl := Option.some.inj (hdigits.symm.trans hmem)
          exact hsame.symm

/-- An expansion that succeeds is exact. -/
theorem Met.exact (hmet : Met store view env itemIndex anchor before after expansion first last id
      captured)
    (hof : anchor.Of cited) :
    ∃ bytes, Pinned store view cited captured bytes ∧ Fits cited bytes before after ∧
      Exact cited bytes before after expansion := by
  obtain ⟨hbegins, hends, hwithin, hnonempty, hbounded⟩ := hmet.range
  rw [hof.start, hof.stop] at hnonempty
  rw [hof.start] at hbegins
  rw [hof.stop] at hends
  obtain ⟨bytes, context, original, hheld, hsaved, hprepared, hcontext, hspells, horiginal, hspelled,
    hboundaries⟩ := hmet.found.shows hof
  obtain ⟨hquiet, rfl⟩ := source_undisturbed hmet.sourced
  obtain ⟨hle, hlength, -⟩ := slice_eq_some.mp hcontext
  have hfits : last < UInt64.size := by
    have hbound := anchor.input.bytes.toNat_lt
    exact hwithin.trans_lt hbound
  have hfirst : (UInt64.ofNat first).toNat = first := UInt64.toNat_ofNat_of_lt' (by omega)
  have hlast : (UInt64.ofNat last).toNat = last := UInt64.toNat_ofNat_of_lt' hfits
  have hstart : expansion.representationStart = UInt64.ofNat first :=
    congrArg WindowExpansion.representationStart hmet.placed
  have hstop : expansion.representationEnd = UInt64.ofNat last :=
    congrArg WindowExpansion.representationEnd hmet.placed
  have hsourceStart : expansion.sourceStart = UInt64.ofNat first :=
    congrArg WindowExpansion.sourceStart hmet.placed
  have hsourceEnd : expansion.sourceEnd = UInt64.ofNat last :=
    congrArg WindowExpansion.sourceEnd hmet.placed
  refine ⟨bytes, ?_, ?_, ?_⟩
  · exact {
      id := hmet.named.trans hof.id
      sourced := hquiet
      input := hmet.input.trans hof.input
      namespaceId := hmet.namespaceId.trans hof.namespaceId
      source := by
        intro expected hexpected
        rw [← hof.source] at hexpected
        exact hmet.source expected hexpected
      held := hheld
      saved := hsaved }
  · refine ⟨by omega, by omega, by omega, fun hsome => ?_⟩
    have hfirstEq : cited.start.toNat - before.toNat = first := by omega
    rw [hfirstEq, ← hends]
    exact hboundaries hsome
  · refine ⟨by rw [hstart, hfirst, hbegins], by rw [hstop, hlast, hends],
      ⟨hsourceStart.trans hstart.symm, hsourceEnd.trans hstop.symm⟩, hprepared, context, original,
      ?_, hspells, horiginal, hspelled, ?_⟩
    · rw [hstart, hstop, hfirst, hlast]
      exact hcontext
    · have hinside := slice_within hcontext horiginal (by omega) (by omega)
      have hfrom : cited.start.toNat - first = before.toNat := by omega
      have hto : cited.stop.toNat - first =
          before.toNat + (cited.stop.toNat - cited.start.toNat) := by omega
      rwa [hfrom, hto] at hinside

/-- The original is found in the content at its place. -/
theorem Found.holds (hfound : Found store captured anchor first last
      (expansion.prepared, expansion.content))
    (hof : anchor.Of cited) (hfirst : first ≤ cited.start.toNat) (hlast : cited.stop.toNat ≤ last) :
    match expansion.content, cited.text, cited.bytesHex with
    | .utf8 expanded, some known, none =>
        expanded.get (cited.start.toNat - first) (cited.stop.toNat - first) = some known
    | .raw bytesHex, none, some digits =>
        slice bytesHex ((cited.start.toNat - first) * 2) ((cited.stop.toNat - first) * 2) =
          some digits
    | _, _, _ => False := by
  have horiginal := hof.original
  generalize hshown : (expansion.prepared, expansion.content) = shown at hfound
  cases hfound with
  | text artifact text original context hsaved hprepared hget hsame hcontext =>
      obtain ⟨-, hkind⟩ := Prod.mk.inj hshown
      rw [hof.prepared] at hprepared
      rw [hprepared] at horiginal
      obtain ⟨known, htext, hdigits, hknown⟩ := horiginal
      rw [hof.start, hof.stop] at hget
      rw [hkind, htext, hdigits]
      dsimp only
      have hsameText : original = known := Text.ext (hsame.trans hknown.symm)
      rw [← hsameText]
      exact get_within hcontext hget hfirst hlast
  | bytes bytes original context hsource hprepared hslice hsame hcontext =>
      obtain ⟨-, hkind⟩ := Prod.mk.inj hshown
      rw [hof.prepared] at hprepared
      rw [hprepared] at horiginal
      obtain ⟨htext, hdigits⟩ := horiginal
      rw [hof.start, hof.stop] at hslice
      rw [hkind, htext, hdigits]
      dsimp only
      rw [← hsame]
      exact slice_hex (slice_within hcontext hslice hfirst hlast)

/-- The client accepts an expansion that succeeds. -/
theorem Met.accepted {item : WindowItem}
    (hmet : Met store view env itemIndex anchor before after expansion first last id captured)
    (hof : anchor.Of cited) (hcited : item.cited = some cited) (requestId remaining : UInt64) :
    expansion.validateRequest
      (.expand requestId remaining sessionWindowId itemIndex before after) item = .ok () := by
  obtain ⟨hbegins, hends, hwithin, hnonempty, hbounded⟩ := hmet.range
  rw [hof.start, hof.stop] at hnonempty
  rw [hof.start] at hbegins
  rw [hof.stop] at hends
  rw [hof.input] at hwithin
  have hholds := hmet.found.holds hof (by omega) (by omega)
  obtain ⟨_, _, _, _, _, hprepared, -⟩ := hmet.found.shows hof
  have hsourced := source_undisturbed hmet.sourced
  have hsource : expansion.source = sourceRef captured.source :=
    congrArg WindowExpansion.source hmet.placed
  have hfits : last < UInt64.size := hwithin.trans_lt cited.input.bytes.toNat_lt
  have hfirstWord : (UInt64.ofNat first).toNat = first :=
    UInt64.toNat_ofNat_of_lt' (by omega)
  have hlastWord : (UInt64.ofNat last).toNat = last := UInt64.toNat_ofNat_of_lt' hfits
  have hstart : saturatingSub cited.start before = UInt64.ofNat first := by
    have hle : before ≤ cited.start := UInt64.le_iff_toNat_le.mpr (by omega)
    rw [saturatingSub, if_pos hle, ← UInt64.toNat_inj, UInt64.toNat_sub_of_le _ _ hle, hfirstWord]
    omega
  have hstop : checkedAdd cited.stop after = some (UInt64.ofNat last) :=
    checkedAdd_eq_some.mpr (by rw [hlastWord, hends])
  have hmin : min (UInt64.ofNat last) cited.input.bytes = UInt64.ofNat last := by
    refine if_pos (UInt64.le_iff_toNat_le.mpr ?_)
    rw [hlastWord]
    exact hwithin
  have hfrom : (cited.start - UInt64.ofNat first).toNat = cited.start.toNat - first := by
    rw [UInt64.toNat_sub_of_le, hfirstWord]
    exact UInt64.le_iff_toNat_le.mpr (by omega)
  have hto : (cited.stop - UInt64.ofNat first).toNat = cited.stop.toNat - first := by
    rw [UInt64.toNat_sub_of_le, hfirstWord]
    exact UInt64.le_iff_toNat_le.mpr (by omega)
  have hbound : ¬ (sessionWindowId ≠ expansion.windowId ∨ itemIndex ≠ expansion.itemIndex ∨
      expansion.source.sourceNamespaceId ≠ cited.sourceNamespaceId ∨
      expansion.source.sourceId ≠ cited.sourceId ∨ expansion.source.input ≠ cited.input ∨
      expansion.prepared ≠ cited.prepared ∨
      (∃ source ∈ cited.source, source ≠ expansion.source) ∨
      expansion.representationStart ≠ UInt64.ofNat first ∨
      expansion.representationEnd ≠ UInt64.ofNat last) := by
    rintro (hother | hother | hother | hother | hother | hother | ⟨source, hmem, hother⟩ | hother |
      hother)
    · exact hother (congrArg WindowExpansion.windowId hmet.placed).symm
    · exact hother (congrArg WindowExpansion.itemIndex hmet.placed).symm
    · rw [hsource] at hother
      exact hother (hmet.namespaceId.trans hof.namespaceId)
    · rw [hsource] at hother
      refine hother (Eq.trans ?_ (hmet.named.trans hof.id))
      exact congrArg uuidText hsourced.2
    · rw [hsource] at hother
      exact hother (hmet.input.trans hof.input)
    · exact hother hprepared
    · rw [← hof.source] at hmem
      rw [hsource] at hother
      exact hother (hmet.source source hmem)
    · exact hother (congrArg WindowExpansion.representationStart hmet.placed)
    · exact hother (congrArg WindowExpansion.representationEnd hmet.placed)
  rw [WindowExpansion.validateRequest, hmet.valid, ok_bind]
  dsimp only
  rw [hcited, okOr_some, ok_bind, hstart, hstop, okOr_some, ok_bind, hmin, refuse_of_not hbound,
    ok_bind, hfrom, hto]
  split
  · rename_i expanded text hcontent htext hdigits
    rw [hcontent, htext, hdigits] at hholds
    exact refuse_of_not (not_not.mpr hholds)
  · rename_i bytesHex digits hcontent htext hdigits
    rw [hcontent, htext, hdigits] at hholds
    exact refuse_of_not (not_not.mpr hholds)
  · rename_i hutf8 hraw
    split at hholds
    · rename_i expanded text hcontent htext hdigits
      exact absurd hdigits (hutf8 expanded text hcontent htext)
    · rename_i bytesHex digits hcontent htext hdigits
      exact absurd hdigits (hraw bytesHex digits hcontent htext)
    · exact hholds.elim

end Meeting

/-- A view pins one representation for a place. -/
theorem Pinned.unique {store : Store} {view : PublishedView} {cited : Cited}
    {left right : CapturedSource} {first second : Bytes}
    (hfirst : Pinned store view cited left first) (hsecond : Pinned store view cited right second) :
    left = right ∧ first = second := by
  have hid : left.source.sourceId = right.source.sourceId :=
    uuidText_injective (hfirst.id.trans hsecond.id.symm)
  have hsourced := hfirst.sourced
  rw [hid] at hsourced
  obtain rfl := Except.ok.inj (hsourced.symm.trans hsecond.sourced)
  exact ⟨rfl, hfirst.held.unique hsecond.held⟩

/-! ## Windows -/

section Windows

variable {scoreText : Score → Bytes} {parseFrame : Bytes → Option (SessionClientFrame WindowQuery)}

/-- Expand an emitted item of the window. -/
def expand (store : Store) (env : Env) (view : PublishedView) (itemIndex : UInt8)
    (before after : UInt64) (window : Window (windowWire scoreText parseFrame)) :
    Except QueryFailure WindowExpansion := do
  let item ← window.emitted itemIndex
  execute store env view itemIndex item before after

/-- An expansion is exactly the part of the pinned representation around its
item, its reply fits in a frame and the client accepts it for the frame that
asked for it.  A context that is not wholly there is refused. -/
theorem expand_exact (store : Store) (view : PublishedView)
    (window : Window (windowWire scoreText parseFrame)) (itemIndex : UInt8)
    (before after : UInt64) :
    (∀ env expansion, expand store env view itemIndex before after window = .ok expansion →
      ∃ (item : WindowItem) (cited : Cited) (captured : CapturedSource) (bytes : Bytes),
        itemIndex < window.cursor ∧ window.items[itemIndex.toNat]? = some item ∧
        item.cited = some cited ∧ Pinned store view cited captured bytes ∧
        Fits cited bytes before after ∧ Exact cited bytes before after expansion ∧
        ∀ requestId remaining, requestId ≠ 0 →
          (∃ frame, (windowWire scoreText parseFrame).encodeSessionReply
            ⟨requestId, .expanded expansion⟩ = .ok frame ∧ frame.length ≤ maxFrameBytes) ∧
          expansion.validateRequest
            (.expand requestId remaining sessionWindowId itemIndex before after) item = .ok ()) ∧
    ∀ (item : WindowItem) (cited : Cited) (captured : CapturedSource) (bytes : Bytes),
      window.items[itemIndex.toNat]? = some item → item.cited = some cited →
      Pinned store view cited captured bytes → ¬ Fits cited bytes before after →
      ∀ env, ∃ reason, expand store env view itemIndex before after window = .error reason := by
  have hanswers (env : Env) (expansion : WindowExpansion)
      (hexpand : expand store env view itemIndex before after window = .ok expansion) :
      ∃ (item : WindowItem) (cited : Cited) (captured : CapturedSource) (bytes : Bytes),
        itemIndex < window.cursor ∧ window.items[itemIndex.toNat]? = some item ∧
        item.cited = some cited ∧ Pinned store view cited captured bytes ∧
        Fits cited bytes before after ∧ Exact cited bytes before after expansion ∧
        ∀ requestId remaining, requestId ≠ 0 →
          (∃ frame, (windowWire scoreText parseFrame).encodeSessionReply
            ⟨requestId, .expanded expansion⟩ = .ok frame ∧ frame.length ≤ maxFrameBytes) ∧
          expansion.validateRequest
            (.expand requestId remaining sessionWindowId itemIndex before after) item = .ok () := by
    obtain ⟨item, hitem, hexecute⟩ := bind_eq_ok.mp hexpand
    simp only [Window.emitted, bind_eq_ok, refuse_eq_ok, okOr_eq_ok] at hitem
    obtain ⟨_, hemitted, hitem⟩ := hitem
    obtain ⟨anchor, first, last, id, captured, hanchor, hmet⟩ := execute_eq_ok hexecute
    obtain ⟨cited, hcited, hof⟩ := fromItem_eq_ok hanchor
    obtain ⟨bytes, hpinned, hfits, hexact⟩ := hmet.exact hof
    refine ⟨item, cited, captured, bytes, UInt8.not_le.mp hemitted, hitem, hcited, hpinned, hfits,
      hexact, fun requestId remaining hid => ⟨?_, ?_⟩⟩
    · exact encodeSessionReply_expanded scoreText parseFrame hid hmet.valid
    · exact hmet.accepted hof hcited requestId remaining
  refine ⟨hanswers, ?_⟩
  intro item cited captured bytes hitem hcited hpinned hunfit env
  cases hexpand : expand store env view itemIndex before after window with
  | error reason => exact ⟨reason, rfl⟩
  | ok expansion =>
      obtain ⟨other, place, found, shown, -, hother, hplace, hshown, hfits, -⟩ :=
        hanswers env expansion hexpand
      obtain rfl := Option.some.inj (hitem.symm.trans hother)
      obtain rfl := Option.some.inj (hcited.symm.trans hplace)
      obtain ⟨rfl, rfl⟩ := hpinned.unique hshown
      exact absurd hfits hunfit

end Windows

/-! ## The context of one byte -/

namespace Sample

/-- The one occurrence of the searched byte. -/
def item : WindowItem :=
  .raw (RawExact.hitAt RawExact.Sample.present.captured.source (ascii "b") 1)

/-- A window that has emitted the occurrence. -/
def window : Window (windowWire (fun _ => ascii "1.0") fun _ => none) where
  items := [item]
  summary := ⟨1, 1, some 1, some false, some false, .outputLimit⟩
  cursor := 1
  retained := rfl
  bounded := le_rfl

def expansion : WindowExpansion where
  windowId := sessionWindowId
  itemIndex := 0
  source := sourceRef RawExact.Sample.present.captured.source
  prepared := none
  representationStart := 0
  representationEnd := 3
  sourceStart := 0
  sourceEnd := 3
  content := .raw (ascii "616263")

theorem sourced {env : Env} (hquiet : Undisturbed env) :
    RawExact.Sample.view.source env RawExact.Sample.present.captured.source.sourceId =
      .ok RawExact.Sample.present.captured := by
  have hcheck (site : Nat) : env.check publicationFault site = .ok () :=
    Env.check_eq_ok.mpr (hquiet site)
  have hstate : readState RawExact.Sample.view.transaction = .ok RawExact.Sample.state :=
    readState_withState RawExact.Sample.tables RawExact.Sample.state_readable
  have hread : readSavedSource RawExact.Sample.view.transaction RawExact.Sample.view.generation
      RawExact.Sample.present.captured.source.sourceId = .ok RawExact.Sample.present.captured := by
    rw [readSavedSource, hstate, ok_bind]
    decide +kernel
  rw [PublishedView.source, hcheck, ok_bind, hread, ok_bind, hcheck, ok_bind, pure_eq_ok]

def anchor : Anchor where
  id := uuidText RawExact.Sample.present.captured.source.sourceId
  sourceNamespaceId := uuidText RawExact.Sample.namespaceId
  input := objectRef RawExact.Sample.present.captured.source.objectRef
  source := some (sourceRef RawExact.Sample.present.captured.source)
  prepared := none
  start := 1
  stop := 2
  original := ascii "62"

theorem expanded :
    expand RawExact.Sample.store Env.quiet RawExact.Sample.view 0 1 1 window = .ok expansion := by
  have hanchor : Anchor.fromItem item = .ok anchor := rfl
  have hcontext : anchor.context 1 1 = .ok (0, 3) := by decide +kernel
  have hid : parseUuid anchor.id = some RawExact.Sample.present.captured.source.sourceId :=
    parseUuid_eq_some.mpr rfl
  have hemitted : window.emitted 0 = .ok item := rfl
  refine bind_eq_ok.mpr ⟨item, hemitted, ?_⟩
  rw [execute, check_ok undisturbed_quiet, ok_bind, hanchor, ok_bind, hcontext, ok_bind]
  dsimp only
  rw [hid, okOr_some, ok_bind, sourced (undisturbed_quiet.within 1)]
  decide +kernel

end Sample

theorem expand_exact_sample :
    ∃ expansion, expand RawExact.Sample.store Env.quiet RawExact.Sample.view 0 1 1 Sample.window =
        .ok expansion ∧ expansion.content = .raw (ascii "616263") ∧
      expansion.validateRequest (.expand 7 1000 sessionWindowId 0 1 1) Sample.item = .ok () := by
  obtain ⟨hanswers, -⟩ := expand_exact RawExact.Sample.store RawExact.Sample.view Sample.window 0 1 1
  obtain ⟨item, cited, captured, bytes, -, hitem, -, -, -, -, haccepted⟩ :=
    hanswers Env.quiet Sample.expansion Sample.expanded
  obtain rfl := Option.some.inj hitem
  exact ⟨Sample.expansion, Sample.expanded, rfl, (haccepted 7 1000 (by decide)).2⟩

end Expansion

end EliotSearch.Query
