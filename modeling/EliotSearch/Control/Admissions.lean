import EliotSearch.Control.Attempts
import EliotSearch.Control.Ceilings
import EliotSearch.Query.Objects
import Mathlib.Logic.Function.Basic

/-!
# Admissions over a run

A reader of the selections finds the last admitted kind of every locator that
was ever admitted, whatever sources were committed and removed in between.  An
admission is charged exactly what the next reader is charged.
-/

namespace EliotSearch.Control

open EliotSearch.Library
open EliotSearch.Library.Results
open EliotSearch.Query (Undisturbed)

/-! ## Stored selections -/

/-- The record of an admission. -/
def AdmittedSelection.row (selection : AdmittedSelection) : Bytes × Bytes :=
  (selectionKey selection.path, selectionText ⟨1, selection.path, selection.kind⟩)

/-- The bytes an admission is charged. -/
def AdmittedSelection.cost (selection : AdmittedSelection) : Nat :=
  selection.row.1.length + selection.row.2.length

/-- The selections of other locators. -/
def AdmittedSelection.others (selection : AdmittedSelection)
    (selections : List AdmittedSelection) : List AdmittedSelection :=
  selections.filter fun other => other.path ≠ selection.path

/-- An admission is within the ceilings together with the selections of other
locators. -/
structure AdmittedSelection.FitsBeside (selection : AdmittedSelection)
    (selections : List AdmittedSelection) : Prop where
  count : 1 + (selection.others selections).length ≤ maxCurrentSources
  bytes : selection.cost + ((selection.others selections).map cost).sum ≤ maxCurrentSourceBytes

/-- A path that can be stored as a locator. -/
structure Located (path : Bytes) : Prop where
  absolute : IsAbsolute path
  length : path.length ≤ maxLocatorBytes

instance (path : Bytes) : Decidable (Located path) :=
  decidable_of_iff (_ ∧ _) ⟨fun ⟨habsolute, hlength⟩ => ⟨habsolute, hlength⟩,
    fun hlocated => ⟨hlocated.absolute, hlocated.length⟩⟩

theorem IsAbsolute.ne_nil {path : Bytes} (habsolute : IsAbsolute path) : path ≠ [] := by
  rintro rfl
  cases habsolute

/-- Both refusals of a locator report the same error. -/
theorem sourceLocatorBytes_eq (path : Bytes) :
    sourceLocatorBytes path = (do refuse (¬ Located path) .invalidLocator; return path) := by
  by_cases hlocated : Located path
  · have habsolute : ¬ ¬ IsAbsolute path := not_not.mpr hlocated.absolute
    have hlength : ¬ (path = [] ∨ path.length > maxLocatorBytes) := by
      rw [not_or, Nat.not_lt]
      exact ⟨hlocated.absolute.ne_nil, hlocated.length⟩
    rw [sourceLocatorBytes, refuse_of_not habsolute, ok_bind, refuse_of_not hlength,
      refuse_of_not (not_not.mpr hlocated)]
  · rw [sourceLocatorBytes, refuse_of hlocated]
    by_cases habsolute : IsAbsolute path
    · have hlength : path = [] ∨ path.length > maxLocatorBytes := by
        by_contra hshort
        rw [not_or, Nat.not_lt] at hshort
        exact hlocated ⟨habsolute, hshort.2⟩
      rw [refuse_of_not (not_not.mpr habsolute), ok_bind, refuse_of hlength]
    · rw [refuse_of habsolute]
      rfl

theorem selectionKey_injective {left right : Bytes} (heq : selectionKey left = selectionKey right) :
    left = right := by
  have htext : left.flatMap hexByte = right.flatMap hexByte := List.append_cancel_left heq
  have hlength := congrArg List.length htext
  rw [flatMap_hexByte_length, flatMap_hexByte_length] at hlength
  exact flatMap_hexByte_injective (by omega) htext

/-- The reader decodes what an admission stored. -/
theorem decodeSelection_row {selection : AdmittedSelection} (hlocated : Located selection.path) :
    decodeSelection selection.row.1 selection.row.2 = .ok selection := by
  have hversion : ¬ ((1 : UInt8) ≠ 1 ∨
      selectionKey selection.path ≠ selectionKey selection.path) := by simp
  have hlength : ¬ (selection.path = [] ∨ selection.path.length > maxLocatorBytes) := by
    rw [not_or, Nat.not_lt]
    exact ⟨hlocated.absolute.ne_nil, hlocated.length⟩
  have habsolute : ¬ ¬ IsAbsolute selection.path := not_not.mpr hlocated.absolute
  rw [decodeSelection, AdmittedSelection.row, readSelectionText_selectionText, okOr_some, ok_bind,
    refuse_of_not hversion, ok_bind, sourcePathFromLocator, refuse_of_not hlength, ok_bind,
    refuse_of_not habsolute, ok_bind]
  rfl

theorem row_injective : Function.Injective AdmittedSelection.row := by
  rintro ⟨path, kind⟩ ⟨other, found⟩ heq
  obtain ⟨-, htext⟩ := Prod.mk.inj heq
  have hstored := congrArg readSelectionText htext
  rw [readSelectionText_selectionText, readSelectionText_selectionText] at hstored
  obtain ⟨-, rfl, rfl⟩ := StoredSelection.mk.inj (Option.some.inj hstored)
  rfl

theorem selectionCharge_rows (selections : List AdmittedSelection) :
    selectionCharge (selections.map AdmittedSelection.row) =
      (selections.map AdmittedSelection.cost).sum := by
  rw [selectionCharge, List.map_map]
  rfl

/-! ## Charges -/

section Charges

variable {env : Env} {key : Bytes} {rows : List (Bytes × Bytes)} {site count charged : Nat}

/-- Without interruptions an admission is only refused for its charge. -/
theorem chargeSelections_eq_error (hquiet : Undisturbed env) {error : SourceControlError}
    (hcharge : chargeSelections env key site (count, charged) rows = .error error) :
    error = .inventoryLimit := by
  induction rows generalizing site count charged with
  | nil => cases hcharge
  | cons row rows ih =>
      have hcheck : env.check sourceFault site = .ok () := by rw [Env.check, hquiet site]
      simp only [chargeSelections, hcheck, ok_bind, bind_eq_error, refuse_eq_error] at hcharge
      rcases hcharge with ⟨-, hlimit⟩ | ⟨_, _, hrest⟩
      · exact hlimit.symm
      · exact ih hrest

/-- An admission within the ceilings passes its charge. -/
theorem chargeSelections_ok (hquiet : Undisturbed env)
    (hcount : count + (otherSelections key rows).length ≤ maxCurrentSources)
    (hcharged : charged + selectionCharge (otherSelections key rows) ≤ maxCurrentSourceBytes) :
    chargeSelections env key site (count, charged) rows = .ok () := by
  induction rows generalizing site count charged with
  | nil => rfl
  | cons row rows ih =>
      obtain ⟨stored, value⟩ := row
      have hcheck : env.check sourceFault site = .ok () := by rw [Env.check, hquiet site]
      by_cases hother : selectionPrefix.isPrefixOf stored = true ∧ stored ≠ key
      · have hfilter : otherSelections key ((stored, value) :: rows) =
            (stored, value) :: otherSelections key rows :=
          List.filter_cons_of_pos (by simp [hother.1, hother.2])
        rw [hfilter, List.length_cons] at hcount
        rw [hfilter, selectionCharge_cons] at hcharged
        have hroom : ¬ (count + 1 > maxCurrentSources ∨
            charged + (stored.length + value.length) > maxCurrentSourceBytes) := by omega
        simp only [chargeSelections, hcheck, if_pos hother, ok_bind, refuse_of_not hroom]
        exact ih (by omega) (by omega)
      · have hfilter : otherSelections key ((stored, value) :: rows) = otherSelections key rows :=
          List.filter_cons_of_neg (by simpa using hother)
        rw [hfilter] at hcount hcharged
        have hroom : ¬ (count > maxCurrentSources ∨ charged > maxCurrentSourceBytes) := by omega
        simp only [chargeSelections, hcheck, if_neg hother, ok_bind, refuse_of_not hroom]
        exact ih hcount hcharged

/-- A reader within the ceilings decodes every selection in key order. -/
theorem readSelections_ok (hquiet : Undisturbed env)
    (hcount : count + (selectionRows rows).length ≤ maxCurrentSources)
    (hcharged : charged + selectionCharge (selectionRows rows) ≤ maxCurrentSourceBytes)
    (hrows : ∀ row ∈ selectionRows rows, ∃ selection : AdmittedSelection,
      Located selection.path ∧ row = selection.row) :
    ∃ selections, readSelections env site count charged rows = .ok selections ∧
      selections.map AdmittedSelection.row = selectionRows rows := by
  induction rows generalizing site count charged with
  | nil => exact ⟨[], rfl, rfl⟩
  | cons row rows ih =>
      obtain ⟨stored, value⟩ := row
      have hcheck : env.check sourceFault site = .ok () := by rw [Env.check, hquiet site]
      by_cases hselection : selectionPrefix.isPrefixOf stored = true
      · have hfilter : selectionRows ((stored, value) :: rows) =
            (stored, value) :: selectionRows rows := List.filter_cons_of_pos hselection
        rw [hfilter] at hcount hcharged hrows
        rw [List.length_cons] at hcount
        rw [selectionCharge_cons] at hcharged
        obtain ⟨selection, hlocated, hrow⟩ := hrows _ List.mem_cons_self
        have hdecode := decodeSelection_row hlocated
        rw [← hrow] at hdecode
        obtain ⟨rest, hrest, hmap⟩ := @ih (site + 1) (count + 1)
          (charged + (stored.length + value.length)) (by omega) (by omega)
          fun other hmem => hrows other (List.mem_cons_of_mem _ hmem)
        have hroom : ¬ (count ≥ maxCurrentSources ∨
            charged + (stored.length + value.length) > maxCurrentSourceBytes) := by omega
        refine ⟨selection :: rest, ?_, ?_⟩
        · simp only [readSelections, hcheck, if_pos hselection, ok_bind, refuse_of_not hroom,
            hdecode, hrest]
          rfl
        · rw [hfilter, List.map_cons, hmap, hrow]
      · have hfilter : selectionRows ((stored, value) :: rows) = selectionRows rows :=
          List.filter_cons_of_neg hselection
        rw [hfilter] at hcount hcharged hrows
        obtain ⟨selections, hread, hmap⟩ := @ih (site + 1) count charged hcount hcharged hrows
        refine ⟨selections, ?_, by rw [hfilter, hmap]⟩
        simp only [readSelections, hcheck, if_neg hselection, ok_bind, hread]

end Charges

/-! ## The admitted kinds -/

/-- The selection records are exactly those of the admitted kinds. -/
structure Db.Admits (db : Db) (kinds : Bytes → Option SelectionKind) : Prop where
  rows : ∀ row, row ∈ selectionRows (openTable db.sourceState).toList ↔
    ∃ selection : AdmittedSelection, kinds selection.path = some selection.kind ∧
      row = selection.row
  located : ∀ path, (kinds path).isSome = true → Located path
  fits : db.SelectionsFit

namespace Db

variable {db next : Db} {kinds : Bytes → Option SelectionKind}

theorem Admits.of_keeps (hadmits : db.Admits kinds) (hkeeps : db.KeepsSelections next) :
    next.Admits kinds where
  rows := fun row => hkeeps.mem_iff.trans (hadmits.rows row)
  located := hadmits.located
  fits := hadmits.fits.of_keeps hkeeps

theorem Admits.path_located (hadmits : db.Admits kinds) {selection : AdmittedSelection}
    (hkind : kinds selection.path = some selection.kind) : Located selection.path :=
  hadmits.located _ (by rw [hkind]; rfl)

/-- The record under the key of a locator. -/
theorem Admits.stored (hadmits : db.Admits kinds) (path : Bytes) :
    (openTable db.sourceState)[selectionKey path]? =
      (kinds path).map fun kind => (AdmittedSelection.row ⟨path, kind⟩).2 := by
  have hmem : ∀ value, (openTable db.sourceState)[selectionKey path]? = some value ↔
      (selectionKey path, value) ∈ selectionRows (openTable db.sourceState).toList := by
    intro value
    rw [selectionRows, List.mem_filter, Table.mem_rows]
    exact ⟨fun hvalue => ⟨hvalue, selectionPrefix_selectionKey path⟩, And.left⟩
  apply Option.ext
  intro value
  rw [hmem, hadmits.rows, Option.map_eq_some_iff]
  constructor
  · rintro ⟨⟨found, kind⟩, hkind, hrow⟩
    obtain ⟨hkey, rfl⟩ := Prod.mk.inj hrow
    obtain rfl := selectionKey_injective hkey
    exact ⟨kind, hkind, rfl⟩
  · rintro ⟨kind, hkind, rfl⟩
    exact ⟨⟨path, kind⟩, hkind, rfl⟩

/-- An admission finds its own record, or none. -/
theorem Admits.alreadyAdmitted (hadmits : db.Admits kinds) (selection : AdmittedSelection) :
    Control.alreadyAdmitted (openTable db.sourceState) (selectionKey selection.path) selection =
      .ok (decide (kinds selection.path = some selection.kind)) := by
  rw [Control.alreadyAdmitted, hadmits.stored]
  cases hkind : kinds selection.path with
  | none => rfl
  | some kind =>
      have hlocated := hadmits.located selection.path (by rw [hkind]; rfl)
      have hdecode := @decodeSelection_row ⟨selection.path, kind⟩ hlocated
      rw [AdmittedSelection.row] at hdecode
      simp only [Option.map_some, AdmittedSelection.row, hdecode, ok_bind, pure_eq_ok,
        Option.some.injEq, Except.ok.injEq, decide_eq_decide]
      obtain ⟨path, other⟩ := selection
      simp

/-- The tables an admission creates hold no selection. -/
theorem KeepsSelections.ensured {randomId : Octets 16} (hensured : SchemaEnsured db randomId next) :
    db.KeepsSelections next := by
  cases hensured with
  | existing _ => exact .of_state rfl
  | created _ =>
      rw [KeepsSelections, Db.withSchema, openTable_some]
      exact (selectionRows_insert _ (by decide)).trans (selectionRows_insert _ (by decide))

/-- The schema of a sound root is ready for an admission. -/
theorem Sound.ensure (hsound : db.Sound) (randomId : Octets 16) :
    ∃ middle, ensureAdmissionSchema db randomId = .ok middle := by
  rcases hsound.sources with hnone | ⟨namespaceId, hregistered⟩
  · have hnames := hnone.catalogue hsound.single hsound.publication
    exact ⟨_, by rw [ensureAdmissionSchema, hnames]; rfl⟩
  · have hnames := hregistered.catalogue hsound.single hsound.publication
    have hschema : ¬ ((openTable db.sourceState)[schemaVersionKey]? ≠ some sourceSchemaVersion ∨
        (openTable db.sourceState)[namespaceKey]?.all (fun stored => stored.length ≠ 16)) := by
      rw [hregistered.version, hregistered.stored]
      simp
    simp only [ensureAdmissionSchema, hnames, ok_bind, if_true, refuse_of_not hschema]
    exact ⟨_, rfl⟩

/-- What an admission does to a sound root. -/
theorem Admits.attempt (hadmits : db.Admits kinds) (hsound : db.Sound) (env : Env)
    (selection : AdmittedSelection) (randomId : Octets 16) :
    ∃ middle, SchemaEnsured db randomId middle ∧
      admitSelectionTransaction env db selection randomId = (do
        env.check sourceFault 0
        refuse (¬ Located selection.path) .invalidLocator
        if kinds selection.path = some selection.kind then return (none, ())
        chargeSelections env (selectionKey selection.path) 2 (1, selection.cost)
          (openTable middle.sourceState).toList
        env.check sourceFault 1
        return (some (middle.withSelection selection.row.1 selection.row.2), ())) := by
  obtain ⟨middle, hensure⟩ := hsound.ensure randomId
  have hensured := ensureAdmissionSchema_eq_ok hensure
  have hfound := (hadmits.of_keeps (.ensured hensured)).alreadyAdmitted selection
  refine ⟨middle, hensured, ?_⟩
  simp only [admitSelectionTransaction, sourceLocatorBytes_eq, bind_assoc, pure_bind, hensure,
    ok_bind, hfound, decide_eq_true_eq]
  rfl

/-- Only an admission that is in force succeeds without writing. -/
theorem Admits.in_force (hadmits : db.Admits kinds) (hsound : db.Sound) {env : Env}
    {selection : AdmittedSelection} {randomId : Octets 16}
    (hdropped : admitSelectionTransaction env db selection randomId = .ok (none, ())) :
    kinds selection.path = some selection.kind := by
  obtain ⟨middle, -, hattempt⟩ := hadmits.attempt hsound env selection randomId
  by_contra hkind
  rw [hattempt, if_neg hkind] at hdropped
  simp only [bind_eq_ok, pure_eq_ok, Except.ok.injEq, Prod.mk.injEq, reduceCtorEq, false_and,
    and_false, exists_false] at hdropped

/-- An admission that is in force writes nothing. -/
theorem Admits.readmitted (hadmits : db.Admits kinds) (hsound : db.Sound) (env : Env)
    {selection : AdmittedSelection} (hkind : kinds selection.path = some selection.kind)
    (randomId : Octets 16) :
    (admitSelection env db selection randomId).db = db ∧
      (Undisturbed env → (admitSelection env db selection randomId).reply = .ok ()) := by
  obtain ⟨middle, -, hattempt⟩ := hadmits.attempt hsound env selection randomId
  rw [refuse_of_not (not_not.mpr (hadmits.path_located hkind)), ok_bind, if_pos hkind] at hattempt
  rw [admitSelection, hattempt]
  constructor
  · cases env.check sourceFault 0 with
    | error error => rfl
    | ok _ => rfl
  · intro hquiet
    rw [Env.check, hquiet 0]
    rfl

/-- An admission that another kind, or none, precedes is refused without room. -/
theorem Admits.refused (hadmits : db.Admits kinds) (hsound : db.Sound) (env : Env)
    {selection : AdmittedSelection} (hkind : kinds selection.path ≠ some selection.kind)
    (randomId : Octets 16)
    (hfull : ∀ middle, SchemaEnsured db randomId middle →
      chargeSelections env (selectionKey selection.path) 2 (1, selection.cost)
        (openTable middle.sourceState).toList ≠ .ok ()) :
    (admitSelection env db selection randomId).db = db ∧
      ∃ error, (admitSelection env db selection randomId).reply = .error error ∧
        (Undisturbed env → Located selection.path → error = .inventoryLimit) := by
  obtain ⟨middle, hensured, hattempt⟩ := hadmits.attempt hsound env selection randomId
  rw [if_neg hkind] at hattempt
  have hcharge := hfull middle hensured
  rw [admitSelection, hattempt]
  cases hcheck : env.check sourceFault 0 with
  | error error =>
      refine ⟨rfl, error, rfl, fun hquiet => ?_⟩
      rw [Env.check, hquiet 0] at hcheck
      cases hcheck
  | ok _ =>
      by_cases hlocated : Located selection.path
      · rw [refuse_of_not (not_not.mpr hlocated)]
        cases hresult : chargeSelections env (selectionKey selection.path) 2 (1, selection.cost)
          (openTable middle.sourceState).toList with
        | error error =>
            exact ⟨rfl, error, rfl, fun hquiet _ => chargeSelections_eq_error hquiet hresult⟩
        | ok _ => exact absurd hresult hcharge
      · rw [refuse_of hlocated]
        exact ⟨rfl, _, rfl, fun _ hfound => absurd hfound hlocated⟩

/-- An admission with room is made. -/
theorem Admits.accepted (hadmits : db.Admits kinds) (hsound : db.Sound) {env : Env}
    (hquiet : Undisturbed env) (hfate : env.fate = .acknowledged) {selection : AdmittedSelection}
    (hlocated : Located selection.path) (hkind : kinds selection.path ≠ some selection.kind)
    (randomId : Octets 16)
    (hroom : ∀ middle, SchemaEnsured db randomId middle →
      chargeSelections env (selectionKey selection.path) 2 (1, selection.cost)
        (openTable middle.sourceState).toList = .ok ()) :
    (admitSelection env db selection randomId).reply = .ok () := by
  obtain ⟨middle, hensured, hattempt⟩ := hadmits.attempt hsound env selection randomId
  have hcheck : ∀ site, env.check sourceFault site = .ok () := by
    intro site
    rw [Env.check, hquiet site]
  rw [if_neg hkind, hcheck, ok_bind, refuse_of_not (not_not.mpr hlocated), ok_bind,
    hroom middle hensured, ok_bind, hcheck, ok_bind, pure_eq_ok] at hattempt
  rw [admitSelection, hattempt]
  simp only [settle, hfate]

/-- The selections a reader captures from a sound root. -/
theorem Admits.captured (hadmits : db.Admits kinds) (hsound : db.Sound) :
    ∃ selections : List AdmittedSelection,
      (∀ env, Undisturbed env → captureSelections env db = .ok selections) ∧
      selections.map AdmittedSelection.row = selectionRows (openTable db.sourceState).toList := by
  have hread : ∀ env, Undisturbed env → ∃ selections : List AdmittedSelection,
      captureSelections env db = .ok selections ∧
      selections.map AdmittedSelection.row = selectionRows (openTable db.sourceState).toList := by
    intro env hquiet
    have hcheck : ∀ site, env.check sourceFault site = .ok () := by
      intro site
      rw [Env.check, hquiet site]
    rcases hsound.sources with hnone | ⟨namespaceId, hregistered⟩
    · have hnames := hnone.catalogue hsound.single hsound.publication
      refine ⟨[], ?_, ?_⟩
      · rw [captureSelections, hcheck, ok_bind, hnames]
        rfl
      · rw [hnone.state, openTable_none, Table.rows_empty]
        rfl
    · have hnames := hregistered.catalogue hsound.single hsound.publication
      obtain ⟨state, hstate, htable⟩ := hregistered.exists_state
      have hrows : ∀ row ∈ selectionRows (openTable db.sourceState).toList,
          ∃ selection : AdmittedSelection, Located selection.path ∧ row = selection.row := by
        intro row hmem
        obtain ⟨selection, hkind, hrow⟩ := (hadmits.rows row).mp hmem
        exact ⟨selection, hadmits.path_located hkind, hrow⟩
      have hcount := hadmits.fits.count
      have hcharge := hadmits.fits.charge
      obtain ⟨selections, hselections, hmap⟩ := @readSelections_ok env _ 2 0 0 hquiet
        (by omega) (by omega) hrows
      refine ⟨selections, ?_, hmap⟩
      rw [htable] at hselections
      simp only [captureSelections, hcheck, hnames, hregistered.readNamespace, hstate, ok_bind,
        if_true, okOr_some, hselections]
      rfl
  obtain ⟨selections, hselections, hmap⟩ := hread Env.quiet Query.undisturbed_quiet
  refine ⟨selections, fun env hquiet => ?_, hmap⟩
  obtain ⟨found, hfound, hsame⟩ := hread env hquiet
  rwa [List.map_injective_iff.mpr row_injective (hmap.trans hsame.symm)]

/-- An admission that writes makes its kind the one of its locator. -/
theorem Admits.admitted (hadmits : db.Admits kinds) (hsound : db.Sound) {env : Env}
    {selection : AdmittedSelection} {randomId : Octets 16}
    (hadmitted : SelectionAdmitted env db next selection randomId) :
    next.Admits (Function.update kinds selection.path (some selection.kind)) := by
  have hfits := (hsound.admitted_fits hadmitted).2
  obtain ⟨habsolute, hlength, middle, hensured, -, rfl⟩ := hadmitted
  have hmiddle := hadmits.of_keeps (.ensured hensured)
  refine ⟨?_, ?_, hfits⟩
  · intro row
    have hmem := (@selectionRows_admitted (openTable middle.sourceState) _ selection.row.2
      (selectionPrefix_selectionKey selection.path)).mem_iff (a := row)
    have hother : row ∈ otherSelections (selectionKey selection.path)
        (openTable middle.sourceState).toList ↔
        row ∈ selectionRows (openTable middle.sourceState).toList ∧
          row.1 ≠ selectionKey selection.path := by
      rw [otherSelections, selectionRows, List.mem_filter, List.mem_filter, Bool.and_eq_true,
        decide_eq_true_iff, and_assoc]
    rw [Db.withSelection, openTable_some]
    refine hmem.trans ?_
    rw [List.mem_cons, hother, hmiddle.rows]
    constructor
    · rintro (rfl | ⟨⟨found, hkind, rfl⟩, hkey⟩)
      · exact ⟨selection, Function.update_self _ _ _, rfl⟩
      · have hpath : found.path ≠ selection.path := fun heq => hkey (congrArg selectionKey heq)
        exact ⟨found, by rwa [Function.update_of_ne hpath], rfl⟩
    · rintro ⟨found, hkind, rfl⟩
      by_cases hpath : found.path = selection.path
      · rw [hpath, Function.update_self] at hkind
        obtain ⟨path, kind⟩ := found
        obtain rfl := hpath
        obtain rfl := Option.some.inj hkind
        exact Or.inl rfl
      · rw [Function.update_of_ne hpath] at hkind
        exact Or.inr ⟨⟨found, hkind, rfl⟩, fun heq => hpath (selectionKey_injective heq)⟩
  · intro path hsome
    by_cases hpath : path = selection.path
    · exact hpath ▸ ⟨habsolute, hlength⟩
    · rw [Function.update_of_ne hpath] at hsome
      exact hadmits.located path hsome

/-! ## Room -/

/-- The selections an admission is charged with are the captured ones under
other locators. -/
theorem others_captured {selections : List AdmittedSelection}
    (hmap : selections.map AdmittedSelection.row = selectionRows (openTable db.sourceState).toList)
    (hkeeps : db.KeepsSelections next) (selection : AdmittedSelection) :
    (otherSelections (selectionKey selection.path) (openTable next.sourceState).toList).Perm
      ((selection.others selections).map AdmittedSelection.row) := by
  have hsplit : ∀ rows, otherSelections (selectionKey selection.path) rows =
      (selectionRows rows).filter fun row => decide (row.1 ≠ selectionKey selection.path) := by
    intro rows
    rw [otherSelections, selectionRows, List.filter_filter]
    exact List.filter_congr fun row _ => Bool.and_comm _ _
  have hothers : (selection.others selections).map AdmittedSelection.row =
      (selections.map AdmittedSelection.row).filter
        fun row => decide (row.1 ≠ selectionKey selection.path) := by
    rw [AdmittedSelection.others, List.filter_map]
    congr 1
    refine List.filter_congr fun other _ => decide_eq_decide.mpr (not_congr ?_)
    exact ⟨congrArg selectionKey, fun heq => selectionKey_injective heq⟩
  rw [hsplit, hothers, hmap]
  exact hkeeps.filter _

/-- The charge of an admission is that of the next reader. -/
theorem charged_captured {selections : List AdmittedSelection}
    (hmap : selections.map AdmittedSelection.row = selectionRows (openTable db.sourceState).toList)
    (hkeeps : db.KeepsSelections next) (selection : AdmittedSelection) :
    selection.FitsBeside selections ↔
      1 + (otherSelections (selectionKey selection.path)
        (openTable next.sourceState).toList).length ≤ maxCurrentSources ∧
      selection.cost + selectionCharge (otherSelections (selectionKey selection.path)
        (openTable next.sourceState).toList) ≤ maxCurrentSourceBytes := by
  have hperm := others_captured hmap hkeeps selection
  rw [hperm.length_eq, selectionCharge_perm hperm, List.length_map, selectionCharge_rows]
  exact ⟨fun hfits => ⟨hfits.count, hfits.bytes⟩, fun ⟨hcount, hbytes⟩ => ⟨hcount, hbytes⟩⟩

end Db

/-! ## Runs -/

/-- The kinds after one more admission. -/
def admitKind (kinds : Bytes → Option SelectionKind) (selection : AdmittedSelection) :
    Bytes → Option SelectionKind :=
  Function.update kinds selection.path (some selection.kind)

/-- The most recently admitted kind of every locator. -/
def lastAdmitted (selections : List AdmittedSelection) : Bytes → Option SelectionKind :=
  selections.foldl admitKind fun _ => none

theorem admit_self {kinds : Bytes → Option SelectionKind} {selection : AdmittedSelection}
    (hkind : kinds selection.path = some selection.kind) : admitKind kinds selection = kinds := by
  rw [admitKind, ← hkind]
  exact Function.update_eq_self _ _

/-- A write that keeps the selections when it happens keeps them however it ends. -/
theorem settle_keepsSelections {ε α : Type} {env : Env} {db : Db} {lost : ε}
    {attempt : Except ε (Option Db × α)}
    (hwrites : ∀ next value, attempt = .ok (some next, value) → db.KeepsSelections next) :
    db.KeepsSelections (settle env db lost attempt).db := by
  rcases settle_cases env db lost attempt with
    ⟨-, hsame, -⟩ | ⟨next, value, hattempt, hnext, -⟩
  · rw [hsame]
    exact .of_state rfl
  · rw [hnext]
    exact hwrites next value hattempt

namespace Registry

variable {registry : Registry} {kinds : Bytes → Option SelectionKind}

/-- The selection an action asks for. -/
def Action.requested (action : Action) : Option AdmittedSelection :=
  match action.command with
  | .admitSelection selection _ => some selection
  | _ => none

/-- The selection an action admits: the call succeeded, or it wrote and the
storage could not tell. -/
def admitted (registry : Registry) (action : Action) : Option AdmittedSelection :=
  match action.command with
  | .admitSelection selection randomId =>
      let outcome := Control.admitSelection action.env registry.db selection randomId
      if outcome.reply = .ok () ∨ outcome.written.isSome = true then some selection else none
  | _ => none

/-- Everything a sequence of actions admits, in order. -/
def admissions (registry : Registry) : List Action → List AdmittedSelection
  | [] => []
  | action :: actions =>
      (registry.admitted action).toList ++ admissions (registry.step action) actions

/-- An admission call reports success. -/
def Admitting (registry : Registry) (action : Action) : Prop :=
  action.requested.isSome = true → registry.reply action = .done (.ok ())

instance (registry : Registry) (action : Action) : Decidable (registry.Admitting action) :=
  inferInstanceAs (Decidable (_ → _))

/-- A run whose admission calls all succeed admits what they ask for. -/
theorem admissions_requested {actions : List Action}
    (hadmitting : Runs.Throughout step Admitting registry actions) :
    registry.admissions actions = actions.filterMap Action.requested := by
  induction actions generalizing registry with
  | nil => rfl
  | cons action actions ih =>
      obtain ⟨hfirst, hrest⟩ := hadmitting
      have hadmitted : registry.admitted action = action.requested := by
        obtain ⟨env, command⟩ := action
        cases command with
        | admitSelection selection randomId =>
            have hreply := Reply.done.inj (hfirst rfl)
            exact if_pos (Or.inl hreply)
        | _ => rfl
      rw [admissions, ih hrest, hadmitted, List.filterMap_cons]
      cases action.requested with
      | none => rfl
      | some selection => rfl

theorem finishPreparation_keepsSelections {env : Env} {owned : Bool}
    {attempt : Except PreparationControlError (Option Db × CurrentPreparation)}
    (hwrites : ∀ next row, attempt = .ok (some next, row) → registry.db.KeepsSelections next) :
    registry.db.KeepsSelections (registry.finishPreparation env owned attempt).1.db := by
  rw [(finishPreparation_frame registry env owned attempt).1]
  exact settle_keepsSelections hwrites

/-- Every other call keeps the selections. -/
theorem step_keepsSelections {action : Action} (hother : action.requested = none) :
    registry.db.KeepsSelections (registry.step action).db := by
  have hsame : registry.db.KeepsSelections registry.db := .of_state rfl
  obtain ⟨env, command⟩ := action
  cases command with
  | captureCurrentSource selectedFile draws =>
      simp only [step, execute, captureSource]
      split
      · exact hsame
      · exact hsame
  | commitCurrentSource slot fileKey object owned =>
      cases hslot : registry.sources[slot]?.join with
      | none =>
          simp only [step, execute, commitSource, hslot]
          exact hsame
      | some capture =>
          have hheld := Option.join_eq_some_iff.mp hslot
          rw [step, execute, (commitSource_frame env hheld fileKey object owned).1]
          exact settle_keepsSelections
            fun next record hattempt => .wroteSource (commitSourceTransaction_wrote hattempt)
  | captureCurrentSources => exact hsame
  | removeCurrentSources expected =>
      exact settle_keepsSelections
        fun next value hattempt => .erasedSources (removeSourcesTransaction_erased hattempt)
  | admitSelection selection randomId => cases hother
  | captureSelections => exact hsame
  | selectSettings id settings initializeOnly owned =>
      rw [step, execute, selectSettings_db]
      exact hsame
  | capturePreparation id =>
      simp only [step, execute, capturePreparation]
      split
      · exact hsame
      · exact hsame
  | commitPreparation capture result owned =>
      simp only [step, execute, commitPreparation]
      split
      · exact hsame
      · refine finishPreparation_keepsSelections fun next row hattempt => ?_
        obtain ⟨_, hwrite⟩ := commitPreparationTransaction_wrote hattempt
        exact .wroteOutcome hwrite
  | captureCorpus => exact hsame
  | advance call =>
      simp only [step, execute]
      split
      · exact hsame
      · rename_i found _
        cases found with
        | resolvingSource record => exact hsame
        | writingSettings id settings source previous owned =>
            exact finishPreparation_keepsSelections
              fun next row hattempt => .wroteSettings (writeSettingsTransaction_wrote hattempt)
        | resolvingPreparation proposed => exact hsame
  | abort call => exact hsame

/-- An admission call admits exactly what it reports. -/
theorem admitSelection_admits (hconsistent : registry.Consistent)
    (hadmits : registry.db.Admits kinds) (env : Env) (selection : AdmittedSelection)
    (randomId : Octets 16) :
    (registry.step ⟨env, .admitSelection selection randomId⟩).db.Admits
      ((registry.admitted ⟨env, .admitSelection selection randomId⟩).toList.foldl admitKind kinds) := by
  rcases settle_cases env registry.db SourceControlError.database
    (admitSelectionTransaction env registry.db selection randomId) with
    ⟨hwritten, hsame, hreply⟩ | ⟨next, value, hattempt, hnext, hwritten, -⟩
  · have hdb : (registry.step ⟨env, .admitSelection selection randomId⟩).db = registry.db := hsame
    have hkinds : (registry.admitted ⟨env, .admitSelection selection randomId⟩).toList.foldl
        admitKind kinds = kinds := by
      simp only [admitted, admitSelection, hwritten, Option.isSome_none, Bool.false_eq_true,
        or_false]
      split
      · rename_i hok
        exact admit_self (hadmits.in_force hconsistent.sound (hreply () hok))
      · rfl
    rw [hdb, hkinds]
    exact hadmits
  · have hadmitted := admitSelectionTransaction_admitted hattempt
    have hdb : (registry.step ⟨env, .admitSelection selection randomId⟩).db = next := hnext
    have hreported : registry.admitted ⟨env, .admitSelection selection randomId⟩ =
        some selection := by
      simp only [admitted, admitSelection, hwritten, Option.isSome_some, or_true, if_true]
    rw [hdb, hreported]
    exact hadmits.admitted hconsistent.sound hadmitted

/-- One action admits what it reports, and keeps everything admitted before. -/
theorem step_admits (hconsistent : registry.Consistent) (hadmits : registry.db.Admits kinds)
    (action : Action) :
    (registry.step action).db.Admits ((registry.admitted action).toList.foldl admitKind kinds) := by
  obtain ⟨env, command⟩ := action
  cases command with
  | admitSelection selection randomId =>
      exact admitSelection_admits hconsistent hadmits env selection randomId
  | _ => exact hadmits.of_keeps (step_keepsSelections rfl)

theorem run_admits (hconsistent : registry.Consistent) (hadmits : registry.db.Admits kinds)
    (actions : List Action) :
    (Runs.run step registry actions).db.Admits
      ((registry.admissions actions).foldl admitKind kinds) := by
  induction actions generalizing registry kinds with
  | nil => exact hadmits
  | cons action actions ih =>
      rw [Runs.run_cons, admissions, List.foldl_append]
      exact ih (hconsistent.step action) (step_admits hconsistent hadmits action)

theorem init_admits : (init Db.empty).db.Admits fun _ => none where
  rows := by simp [init, Db.empty, selectionRows]
  located := by simp
  fits := init_readable.selections

/-- What is admitted is what readers capture, in key order; removals of sources
lose nothing.  An admission in force is repeated without effect.  One without
room is refused without effect, at exactly the ceilings of the reader. -/
theorem admitted_selections (actions : List Action) :
    ∃ selections : List AdmittedSelection,
      (∀ env, Undisturbed env →
        Control.captureSelections env (run actions).db = .ok selections) ∧
      selections.Pairwise (fun earlier later =>
        compare (selectionKey earlier.path) (selectionKey later.path) = .lt) ∧
      (∀ selection, selection ∈ selections ↔
        lastAdmitted ((init Db.empty).admissions actions) selection.path = some selection.kind) ∧
      (Runs.Throughout step Admitting (init Db.empty) actions →
        (init Db.empty).admissions actions = actions.filterMap Action.requested) ∧
      ∀ (env : Env) (selection : AdmittedSelection) (randomId : Octets 16),
        (selection ∈ selections →
          (Control.admitSelection env (run actions).db selection randomId).db =
              (run actions).db ∧
            (Undisturbed env →
              (Control.admitSelection env (run actions).db selection randomId).reply = .ok ())) ∧
        (selection ∉ selections → ¬ selection.FitsBeside selections →
          (Control.admitSelection env (run actions).db selection randomId).db =
              (run actions).db ∧
            ∃ error,
              (Control.admitSelection env (run actions).db selection randomId).reply =
                .error error ∧
              (Undisturbed env → Located selection.path → error = .inventoryLimit)) ∧
        (selection ∉ selections → selection.FitsBeside selections → Located selection.path →
          Undisturbed env → env.fate = .acknowledged →
            (Control.admitSelection env (run actions).db selection randomId).reply = .ok ()) := by
  have hsound := (consistent_run actions).sound
  have hadmits : (run actions).db.Admits (lastAdmitted ((init Db.empty).admissions actions)) :=
    run_admits init_consistent init_admits actions
  obtain ⟨selections, hcapture, hmap⟩ := hadmits.captured hsound
  have hmember : ∀ selection, selection ∈ selections ↔
      lastAdmitted ((init Db.empty).admissions actions) selection.path = some selection.kind := by
    intro selection
    rw [← List.mem_map_of_injective row_injective, hmap, hadmits.rows]
    constructor
    · rintro ⟨found, hkind, hrow⟩
      obtain rfl := row_injective hrow
      exact hkind
    · exact fun hkind => ⟨selection, hkind, rfl⟩
  refine ⟨selections, hcapture, ?_, hmember, admissions_requested, ?_⟩
  · have hsorted := (Table.rows_sorted (openTable (run actions).db.sourceState)).filter
      fun row => selectionPrefix.isPrefixOf row.1
    rw [selectionRows] at hmap
    rw [← hmap, List.pairwise_map] at hsorted
    exact hsorted
  · intro env selection randomId
    refine ⟨?_, ?_, ?_⟩
    · intro hmem
      exact hadmits.readmitted hsound env ((hmember selection).mp hmem) randomId
    · intro hmem hfull
      refine hadmits.refused hsound env (fun hkind => hmem ((hmember selection).mpr hkind))
        randomId fun middle hensured hcharge => hfull ?_
      obtain ⟨⟨namespaceId, hregistered⟩, -, -⟩ := hsound.ensured hensured
      have hnonempty := List.ne_nil_of_mem (Table.mem_rows.mpr hregistered.version)
      exact (Db.charged_captured hmap (.ensured hensured) selection).mpr
        (chargeSelections_room hcharge hnonempty)
    · intro hmem hfits hlocated hquiet hfate
      refine hadmits.accepted hsound hquiet hfate hlocated
        (fun hkind => hmem ((hmember selection).mpr hkind)) randomId fun middle hensured => ?_
      obtain ⟨hcount, hbytes⟩ :=
        (Db.charged_captured hmap (.ensured hensured) selection).mp hfits
      exact chargeSelections_ok hquiet hcount hbytes

namespace Sample

def folder : Bytes := [47, 98]

def admitting (path : Bytes) (kind : SelectionKind) : Action :=
  ⟨Env.quiet, .admitSelection ⟨path, kind⟩ (Octets.replicate 16 1)⟩

def removing : Action :=
  ⟨Env.quiet, .removeCurrentSources [observed.record (.unix 1 1) object.reference 1 1]⟩

/-- A file is admitted, registered, removed and admitted again as a tree. -/
def admissions : List Action :=
  [admitting file .file, capturing Env.quiet file draws, commit, admitting folder .file, removing,
    admitting file .tree]

end Sample

/-- The removal loses no admission, and the later kind replaces the earlier. -/
theorem admitted_selections_sample :
    ∃ selections,
      Control.captureSelections Env.quiet (run Sample.admissions).db = .ok selections ∧
      ⟨Sample.file, .tree⟩ ∈ selections ∧ ⟨Sample.folder, .file⟩ ∈ selections ∧
      ⟨Sample.file, .file⟩ ∉ selections ∧
      (init Db.empty).admissions Sample.admissions =
        [⟨Sample.file, .file⟩, ⟨Sample.folder, .file⟩, ⟨Sample.file, .tree⟩] ∧
      (Control.admitSelection Env.quiet (run Sample.admissions).db ⟨Sample.file, .tree⟩
        (Octets.replicate 16 1)).reply = .ok () := by
  have hadmitting : Runs.Throughout step Admitting (init Db.empty) Sample.admissions := by
    decide +kernel
  obtain ⟨selections, hcapture, -, hmember, hrequested, hcalls⟩ :=
    admitted_selections Sample.admissions
  have hadmissions := hrequested hadmitting
  have htree : ⟨Sample.file, .tree⟩ ∈ selections := by
    rw [hmember, hadmissions]
    rfl
  refine ⟨selections, hcapture Env.quiet Query.undisturbed_quiet, htree, ?_, ?_, hadmissions, ?_⟩
  · rw [hmember, hadmissions]
    rfl
  · rw [hmember, hadmissions]
    decide
  · exact (((hcalls Env.quiet _ _).1 htree).2 Query.undisturbed_quiet)

end Registry

end EliotSearch.Control
