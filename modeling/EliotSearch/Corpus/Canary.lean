import EliotSearch.Corpus.Batches
import EliotSearch.Library.Separated

/-!
# The canary word

A generation is proved ready with one complete word of a unit.  The publisher
splits the text of the unit and takes the first word it can; the backend takes a
word only if it finds it in that text, with a search of its own that goes on
behind each occurrence.  Which characters are alphanumeric is left to Unicode.
-/

namespace EliotSearch.Corpus

open EliotSearch.Control
open EliotSearch.Library
open EliotSearch.Library.Results
open EliotSearch.Library.Separated
open EliotSearch.Library.Utf8
open EliotSearch.Query
open EliotSearch.Session

/-- Fail-only execution allowances. -/
structure BackendLimits where
  maxBatchPoints : Nat
  maxRequestBytes : Nat
  maxResponseBytes : Nat
  maxQueryBytes : Nat
  maxHits : Nat

/-- The allowances of the publisher. -/
def backendLimits : BackendLimits where
  maxBatchPoints := maxPagePoints
  maxRequestBytes := maxRequestBytes
  maxResponseBytes := 2097152
  maxQueryBytes := maxQueryBytes
  maxHits := 64

section Words

variable (alphanumeric : Char → Bool)

def separator (character : Char) : Bool := !alphanumeric character && character != '_'

/-! ## The publisher's choice -/

/-- The first word of the text that is short enough and has an alphanumeric character. -/
def canaryQuery (text : Text) : Option Text :=
  ((text.chars.splitOnP (separator alphanumeric)).map Text.ofChars).find? fun word =>
    decide (word.bytes.length ≤ maxQueryBytes) && word.chars.any alphanumeric

/-! ## The backend's check -/

/-- Whether one of the occurrences stands between separators. -/
def savedWordFrom (env : Env) : (site : Nat) → List (List Char × List Char) →
    Except BackendError Bool
  | site, [] => do
      checkBackend env site
      return false
  | site, (before, after) :: found => do
      checkBackend env site
      if before.getLast?.all (separator alphanumeric) && after.head?.all (separator alphanumeric)
      then return true
      else savedWordFrom env (site + 1) found

def savedWord (env : Env) (text query : Text) : Except BackendError Bool :=
  savedWordFrom alphanumeric env 0 (matchIndices query.chars 0 [] text.chars)

/-- What is checked of a canary before it is sent. -/
def checkCanary (env : Env) (limits : BackendLimits) (name : Bytes) (expected : PointInput)
    (query : Text) : Except BackendError Unit := do
  checkBackend env 0
  collectionName name
  refuse (expected.retrievalText.bytes = [] ∨
    expected.retrievalText.bytes.length > maxPointTextBytes ∨ query.bytes = [] ∨
    ¬ query.chars.all (fun c => alphanumeric c || c == '_') ∨
    ¬ query.chars.any alphanumeric) .invalidInput
  refuse (query.bytes.length > limits.maxQueryBytes) .requestTooLarge
  let saved ← savedWord alphanumeric (within env 1) expected.retrievalText query
  refuse (saved = false) .invalidInput

end Words

/-! ## Agreement -/

section Agreement

variable {alphanumeric : Char → Bool}

theorem separator_eq_true {character : Char} :
    separator alphanumeric character = true ↔
      ¬ (alphanumeric character = true ∨ character = '_') := by
  simp [separator]

theorem separator_eq_false {character : Char} :
    separator alphanumeric character = false ↔
      alphanumeric character = true ∨ character = '_' := by
  rw [← Bool.not_eq_true, separator_eq_true, not_not]

theorem isWord_iff {before word after : List Char} :
    IsWord (separator alphanumeric) before word after ↔
      (∀ character ∈ word, alphanumeric character = true ∨ character = '_') ∧
      (∀ character ∈ before.getLast?, ¬ (alphanumeric character = true ∨ character = '_')) ∧
      ∀ character ∈ after.head?, ¬ (alphanumeric character = true ∨ character = '_') := by
  constructor
  · intro hword
    exact ⟨fun character hmem => separator_eq_false.mp (hword.inside character hmem),
      fun character hlast =>
        separator_eq_true.mp ((Option.all_eq_true _ _).mp hword.opened character hlast),
      fun character hhead =>
        separator_eq_true.mp ((Option.all_eq_true _ _).mp hword.closed character hhead)⟩
  · rintro ⟨hinside, hopened, hclosed⟩
    exact ⟨fun character hmem => separator_eq_false.mpr (hinside character hmem),
      (Option.all_eq_true _ _).mpr fun character hlast =>
        separator_eq_true.mpr (hopened character hlast),
      (Option.all_eq_true _ _).mpr fun character hhead =>
        separator_eq_true.mpr (hclosed character hhead)⟩

/-- A maximal run of word characters that can be the canary. -/
structure IsCandidate (alphanumeric : Char → Bool) (text run : Text) : Prop where
  maximal : ∃ before after, text.chars = before ++ run.chars ++ after ∧
    IsWord (separator alphanumeric) before run.chars after
  alphanumeric : ∃ character ∈ run.chars, alphanumeric character = true
  bounded : run.bytes.length ≤ maxQueryBytes

/-- The chosen word is a candidate. -/
theorem canaryQuery_eq_some {text query : Text}
    (hquery : canaryQuery alphanumeric text = some query) : IsCandidate alphanumeric text query := by
  have hchecked := List.find?_some hquery
  rw [Bool.and_eq_true, decide_eq_true_eq, List.any_eq_true] at hchecked
  obtain ⟨word, hmem, rfl⟩ := List.mem_map.mp (List.mem_of_find?_eq_some hquery)
  refine ⟨?_, hchecked.2, hchecked.1⟩
  rw [Text.chars_ofChars]
  exact mem_splitOnP.mp hmem

/-- No word is chosen exactly where there is no candidate. -/
theorem canaryQuery_eq_none {text : Text} :
    canaryQuery alphanumeric text = none ↔ ∀ run, ¬ IsCandidate alphanumeric text run := by
  constructor
  · intro hnone run hcandidate
    have hpiece : run ∈ (text.chars.splitOnP (separator alphanumeric)).map Text.ofChars :=
      List.mem_map.mpr ⟨run.chars, mem_splitOnP.mpr hcandidate.maximal, Text.ofChars_chars run⟩
    have hrefused := List.find?_eq_none.mp hnone run hpiece
    rw [Bool.and_eq_true, decide_eq_true_eq, List.any_eq_true] at hrefused
    exact hrefused ⟨hcandidate.bounded, hcandidate.alphanumeric⟩
  · intro hnone
    cases hquery : canaryQuery alphanumeric text with
    | none => rfl
    | some query => exact absurd (canaryQuery_eq_some hquery) (hnone query)

/-- What a check without a complaint of its own comes to. -/
def Accepts {α : Type} (env : Env) (value : α) (result : Except BackendError α) : Prop :=
  result = .ok value ∨
    ∃ error, result = .error error ∧ (error = .cancelled ∨ error = .deadline) ∧ ¬ Undisturbed env

theorem checkBackend_accepts (env : Env) (site : Nat) : Accepts env () (checkBackend env site) := by
  cases hcheck : checkBackend env site with
  | ok result => exact Or.inl rfl
  | error error => exact Or.inr ⟨error, rfl, checkWith_disturbed hcheck⟩

theorem Accepts.bind {α β : Type} {env : Env} {value : α} {last : β}
    {first : Except BackendError α} {next : α → Except BackendError β}
    (hfirst : Accepts env value first) (hnext : Accepts env last (next value)) :
    Accepts env last (first >>= next) := by
  rcases hfirst with rfl | ⟨error, rfl, hstopped⟩
  · exact hnext
  · exact Or.inr ⟨error, rfl, hstopped⟩

theorem Accepts.undisturbed {α : Type} {env : Env} {value : α} {result : Except BackendError α}
    (haccepts : Accepts env value result) (hquiet : Undisturbed env) : result = .ok value := by
  rcases haccepts with hresult | ⟨_, -, -, hdisturbed⟩
  · exact hresult
  · exact absurd hquiet hdisturbed

theorem Accepts.outside {α : Type} {env : Env} {value : α} {result : Except BackendError α}
    {site : Nat} (haccepts : Accepts (within env site) value result) :
    Accepts env value result := by
  rcases haccepts with hresult | ⟨error, hresult, herror, hdisturbed⟩
  · exact Or.inl hresult
  · exact Or.inr ⟨error, hresult, herror, fun hquiet => hdisturbed (hquiet.within site)⟩

/-- An enclosed occurrence is found. -/
theorem savedWordFrom_accepts (env : Env) (site : Nat) {found : List (List Char × List Char)}
    (henclosed : ∃ place ∈ found, place.1.getLast?.all (separator alphanumeric) = true ∧
      place.2.head?.all (separator alphanumeric) = true) :
    Accepts env true (savedWordFrom alphanumeric env site found) := by
  induction found generalizing site with
  | nil =>
      obtain ⟨_, hnone, -⟩ := henclosed
      cases hnone
  | cons place found ih =>
      obtain ⟨before, after⟩ := place
      rw [savedWordFrom]
      refine (checkBackend_accepts env site).bind ?_
      split
      · exact Or.inl rfl
      · rename_i hopen
        rw [List.exists_mem_cons_iff, ← Bool.and_eq_true] at henclosed
        exact ih (site + 1) (henclosed.resolve_left hopen)

/-- Every candidate of the text is found in it again. -/
theorem IsCandidate.savedWord {text query : Text} (hcandidate : IsCandidate alphanumeric text query)
    (env : Env) : Accepts env true (savedWord alphanumeric env text query) := by
  obtain ⟨before, after, hchars, hword⟩ := hcandidate.maximal
  obtain ⟨character, hmem, -⟩ := hcandidate.alphanumeric
  have hfound := @matchIndices_word _ _ _ _ [] before after _ (List.ne_nil_of_mem hmem)
    (Nat.zero_le _) hword
  rw [← List.append_assoc, ← hchars] at hfound
  exact savedWordFrom_accepts env 0 hfound

/-- The checks before a canary is sent complain of no candidate. -/
theorem IsCandidate.checked {expected : PointInput} {query : Text}
    (hcandidate : IsCandidate alphanumeric expected.retrievalText query)
    (hlength : expected.retrievalText.bytes.length ≤ maxPointTextBytes) {name : Bytes}
    (hname : collectionName name = .ok ()) (env : Env) :
    Accepts env () (checkCanary alphanumeric env backendLimits name expected query) := by
  obtain ⟨before, after, hchars, hword⟩ := hcandidate.maximal
  obtain ⟨character, hmem, halphanumeric⟩ := hcandidate.alphanumeric
  have hquery : query.bytes ≠ [] := by
    rw [← query.encode_chars]
    exact List.ne_nil_of_length_pos (encode_length_pos (List.ne_nil_of_mem hmem))
  have htext : expected.retrievalText.bytes ≠ [] := by
    rw [← expected.retrievalText.encode_chars]
    have hinText : character ∈ expected.retrievalText.chars := by
      rw [hchars]
      exact List.mem_append_left _ (List.mem_append_right _ hmem)
    exact List.ne_nil_of_length_pos (encode_length_pos (List.ne_nil_of_mem hinText))
  have hall : query.chars.all (fun c => alphanumeric c || c == '_') = true :=
    List.all_eq_true.mpr fun other hother => by
      simpa using separator_eq_false.mp (hword.inside other hother)
  have hany : query.chars.any alphanumeric = true :=
    List.any_eq_true.mpr ⟨character, hmem, halphanumeric⟩
  rw [checkCanary, hname, ok_bind]
  refine (checkBackend_accepts env 0).bind ?_
  have hbounded : ¬ query.bytes.length > backendLimits.maxQueryBytes :=
    Nat.not_lt.mpr hcandidate.bounded
  rw [refuse_of_not (by simp [htext, hlength, hquery, hall, hany]), ok_bind,
    refuse_of_not hbounded, ok_bind]
  exact (hcandidate.savedWord (within env 1)).outside.bind (Or.inl rfl)

end Agreement

/-- The word that the publisher chooses is accepted by the backend, which fails only in
disturbed surroundings.  No word is chosen exactly if the text has no maximal run of word
characters that is short enough and not of underscores alone. -/
theorem canary_agrees (alphanumeric : Char → Bool) (expected : PointInput)
    (hlength : expected.retrievalText.bytes.length ≤ 65536) :
    (∀ query, canaryQuery alphanumeric expected.retrievalText = some query →
      ∀ (env : Env) (name : Bytes), collectionName name = .ok () →
        Accepts env () (checkCanary alphanumeric env backendLimits name expected query) ∧
        Accepts env true (savedWord alphanumeric env expected.retrievalText query)) ∧
    (canaryQuery alphanumeric expected.retrievalText = none ↔
      ¬ ∃ (run : Text) (before after : List Char),
        expected.retrievalText.chars = before ++ run.chars ++ after ∧
        (∀ character ∈ run.chars, alphanumeric character = true ∨ character = '_') ∧
        (∀ character ∈ before.getLast?, ¬ (alphanumeric character = true ∨ character = '_')) ∧
        (∀ character ∈ after.head?, ¬ (alphanumeric character = true ∨ character = '_')) ∧
        (∃ character ∈ run.chars, alphanumeric character = true) ∧ run.bytes.length ≤ 4096) := by
  refine ⟨fun query hquery env name hname => ?_, ?_⟩
  · have hcandidate := canaryQuery_eq_some hquery
    exact ⟨hcandidate.checked hlength hname env, hcandidate.savedWord env⟩
  · rw [canaryQuery_eq_none]
    constructor
    · rintro hnone ⟨run, before, after, hchars, hinside, hopened, hclosed, hsome, hbounded⟩
      exact hnone run ⟨⟨before, after, hchars, isWord_iff.mpr ⟨hinside, hopened, hclosed⟩⟩, hsome,
        hbounded⟩
    · intro hnone run hcandidate
      obtain ⟨before, after, hchars, hword⟩ := hcandidate.maximal
      obtain ⟨hinside, hopened, hclosed⟩ := isWord_iff.mp hword
      exact hnone ⟨run, before, after, hchars, hinside, hopened, hclosed, hcandidate.alphanumeric,
        hcandidate.bounded⟩

namespace Sample

/-- A unit with a word that also starts the word behind it. -/
def repeating : PointInput :=
  ⟨Octets.replicate 16 1, Octets.replicate 16 2, Text.ofChars "__ an ana".toList⟩

end Sample

theorem canary_agrees_sample :
    ∃ query, canaryQuery Char.isAlphanum Sample.repeating.retrievalText = some query ∧
      checkCanary Char.isAlphanum Env.quiet backendLimits (Json.ascii "corpus") Sample.repeating
        query = .ok () := by
  have hquery : canaryQuery Char.isAlphanum Sample.repeating.retrievalText =
      some (Text.ofChars "an".toList) := by decide
  have hagrees := canary_agrees Char.isAlphanum Sample.repeating (by decide)
  obtain ⟨hchecked, -⟩ := hagrees.1 _ hquery Env.quiet (Json.ascii "corpus") (by decide)
  exact ⟨_, hquery, hchecked.undisturbed undisturbed_quiet⟩

end EliotSearch.Corpus
