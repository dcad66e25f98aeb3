import EliotSearch.Library.Runs
import EliotSearch.Retention.Publication

/-!
# Stored objects

Storing the bytes of an object in the object directory, by one owner whose calls are
cut off anywhere.  Objects that are there are never changed, and whatever a call left
behind, a later call of the same bytes succeeds.
-/

namespace EliotSearch.Retention

open EliotSearch.Control
open EliotSearch.Library
open EliotSearch.Library.Crash
open EliotSearch.Library.Hex
open EliotSearch.Library.Json
open EliotSearch.Library.Results
open EliotSearch.Query
open EliotSearch.Roots (PlainRootError)

/-! ## Storing -/

/-- The failures of a read, and those that a publication adds. -/
inductive StoreError where
  | refused (error : ObjectStoreError)
  | immutableConflict
  | publishFailed
  deriving DecidableEq, Repr

def publicationError : PlainRootError → StoreError
  | .alreadyExists => .immutableConflict
  | .deadline => .refused .deadline
  | .cancelled => .refused .cancelled
  | _ => .publishFailed

/-- The file name of the stage of an object. -/
def stageOf (name : Bytes) : Bytes := ascii "." ++ name ++ ascii ".stage"

def placeOf (name : Bytes) (store : Store) : Place := ⟨store.find name, store.find (stageOf name)⟩

def putPlace (name : Bytes) (store : Store) (place : Place) : Store :=
  { store with
    find := fun other =>
      if other = name then place.final
      else if other = stageOf name then place.stage
      else store.find other }

def addressOf (hash : Bytes → Blake3Digest32) (kind : ObjectKind) (bytes : Bytes) : ObjectRef where
  formatVersion := sourceObjectFormatVersion
  kind := kind
  digest := hash bytes
  byteLength := UInt64.ofNat bytes.length

def referenceOf (hash : Bytes → Blake3Digest32) (kind : ObjectKind) (bytes : Bytes)
    (maximumBytes : UInt64) : Except ObjectStoreError ObjectRef := do
  refuse (bytes.length ≥ 2 ^ 64) .invalidReference
  refuse (UInt64.ofNat bytes.length > maximumBytes) .invalidReference
  let _ ← objectName (addressOf hash kind bytes) maximumBytes
  return addressOf hash kind bytes

abbrev StoreOp (α : Type) : Type := Op Store StoreError α

def inspect {α : Type} (look : Store → Except ObjectStoreError α) : StoreOp α :=
  Op.read fun store => (look store).mapError .refused

/-- Publish the bytes and read the final object back. -/
def storeObject (staging : Staging) (env : Env) (kind : ObjectKind) (bytes : Bytes)
    (maximumBytes : UInt64) : StoreOp ObjectRef := do
  inspect fun _ => checkWith .cancelled .deadline env 0
  let reference ← inspect fun store => referenceOf store.hash kind bytes maximumBytes
  let name ← inspect fun _ => objectName reference maximumBytes
  ((publishNoclobber staging (within env 1) bytes maximumBytes.toNat).zoom (placeOf name)
    (putPlace name)).mapError publicationError
  let readback ← inspect fun store => readObject store (within env 2) reference maximumBytes
  Op.refuse (readback.length ≠ reference.byteLength.toNat) (.refused .integrityFailure)
  return reference

/-! ## Names -/

section Names

variable {first second : ObjectRef} {name other : Bytes}

theorem nameOf_ne_stageOf (reference : ObjectRef) (name : Bytes) :
    nameOf reference ≠ stageOf name := by
  intro heq
  have hhead := congrArg List.head? heq
  cases hhead

theorem stageOf_injective (heq : stageOf name = stageOf other) : name = other :=
  List.append_cancel_left (List.append_cancel_right heq)

theorem kindName_injective {left right : ObjectKind} {behind behind' : Bytes}
    (heq : ObjectKind.name left ++ behind = ObjectKind.name right ++ behind') : left = right := by
  have hhead := congrArg List.head? heq
  cases left with
  | source =>
      cases right with
      | source => rfl
      | prepared => cases hhead
  | prepared =>
      cases right with
      | source => cases hhead
      | prepared => rfl

/-- The name of an object tells its kind and its digest. -/
theorem nameOf_injective (hversion : first.formatVersion = second.formatVersion)
    (heq : nameOf first = nameOf second) :
    first.kind = second.kind ∧ first.digest = second.digest := by
  simp only [nameOf, hversion, List.append_assoc] at heq
  have hrest := List.append_cancel_left (List.append_cancel_left (List.append_cancel_left heq))
  have hkind := kindName_injective hrest
  rw [hkind] at hrest
  have hdigest := List.append_cancel_left (List.append_cancel_left hrest)
  exact ⟨hkind, Octets.ext (hex_injective hdigest)⟩

end Names

/-! ## Places in the object directory -/

section Places

variable {store : Store} {name other : Bytes} {place : Place}

theorem placeOf_putPlace : placeOf name (putPlace name store place) = place := by
  have hne : stageOf name ≠ name := by
    intro heq
    have hlength := congrArg List.length heq
    simp only [stageOf, List.length_append] at hlength
    have hdot : (ascii ".").length = 1 := rfl
    omega
  rw [placeOf, putPlace]
  dsimp only
  rw [if_pos rfl, if_neg hne, if_pos rfl]

theorem putPlace_placeOf : putPlace name store (placeOf name store) = store := by
  obtain ⟨find, hash⟩ := store
  refine congrArg (fun find => Store.mk find hash) (funext fun other => ?_)
  dsimp only [placeOf]
  split
  · rename_i hname
    rw [hname]
  · split
    · rename_i hstage
      rw [hstage]
    · rfl

theorem putPlace_of_ne (hname : other ≠ name) (hstage : other ≠ stageOf name) :
    (putPlace name store place).find other = store.find other := by
  rw [putPlace]
  dsimp only
  rw [if_neg hname, if_neg hstage]

/-- The place of one object is none of another's. -/
theorem placeOf_putPlace_of_ne {first second : ObjectRef} (hne : nameOf second ≠ nameOf first) :
    placeOf (nameOf second) (putPlace (nameOf first) store place) =
      placeOf (nameOf second) store := by
  rw [placeOf, placeOf, putPlace_of_ne hne (nameOf_ne_stageOf _ _),
    putPlace_of_ne (nameOf_ne_stageOf _ _).symm fun heq => hne (stageOf_injective heq)]

end Places

/-! ## One call -/

section Call

variable {Inv : Store → Prop} {store : Store} {staging : Staging} {env : Env} {kind : ObjectKind}
  {bytes : Bytes} {maximumBytes : UInt64} {reference : ObjectRef}

theorem referenceOf_eq_ok {hash : Bytes → Blake3Digest32}
    (hreference : referenceOf hash kind bytes maximumBytes = .ok reference) :
    reference = addressOf hash kind bytes ∧ Admissible reference maximumBytes ∧
      bytes.length ≤ maximumBytes.toNat := by
  simp only [referenceOf, objectName, bind_eq_ok, refuse_eq_ok, pure_eq_ok, Except.ok.injEq,
    not_le, not_not, ge_iff_le, gt_iff_lt] at hreference
  obtain ⟨_, hfits, _, hbound, _, ⟨_, hadmissible, -⟩, rfl⟩ := hreference
  refine ⟨rfl, hadmissible, ?_⟩
  have hlength : (UInt64.ofNat bytes.length).toNat = bytes.length :=
    UInt64.toNat_ofNat_of_lt' hfits
  have hle := UInt64.le_iff_toNat_le.mp (UInt64.not_lt.mp hbound)
  rw [hlength] at hle
  exact hle

theorem inspect_preserves {α : Type} {look : Store → Except ObjectStoreError α}
    (hstore : Inv store) :
    Preserves Inv (inspect look) store fun value left =>
      look store = .ok value ∧ left = store := by
  refine (preserves_read hstore).mono ?_
  rintro value _ - ⟨hvalue, rfl⟩
  exact ⟨mapError_eq_ok.mp hvalue, rfl⟩

/-- A call changes its own place only, as its publication does, and a reference that it
returns is one of an object that is there with the bytes. -/
theorem storeObject_preserves (hstore : Inv store)
    (hinside : ∀ place,
      Published bytes (placeOf (nameOf (addressOf store.hash kind bytes)) store) place →
      Inv (putPlace (nameOf (addressOf store.hash kind bytes)) store place)) :
    Preserves Inv (storeObject staging env kind bytes maximumBytes) store fun reference left =>
      left.Holds reference bytes := by
  refine (inspect_preserves hstore).bind ?_
  rintro _ _ hstore ⟨-, rfl⟩
  refine (inspect_preserves hstore).bind ?_
  rintro reference _ hstore ⟨hreference, rfl⟩
  obtain ⟨rfl, -, -⟩ := referenceOf_eq_ok hreference
  refine (inspect_preserves hstore).bind ?_
  rintro name store hstore ⟨hname, rfl⟩
  obtain ⟨_, -, hname⟩ := bind_eq_ok.mp hname
  obtain rfl := Except.ok.inj hname
  have hpublished : Preserves Inv
      (((publishNoclobber staging (within env 1) bytes maximumBytes.toNat).zoom
        (placeOf (nameOf (addressOf store.hash kind bytes)))
        (putPlace (nameOf (addressOf store.hash kind bytes)))).mapError publicationError) store
      fun _ left => left.find (nameOf (addressOf store.hash kind bytes)) = some (.file bytes) ∧
        left.hash = store.hash := by
    refine Preserves.mapError (Preserves.zoom (publishNoclobber_preserves _ _ _ _ _) hinside ?_)
    rintro _ place - hfinal
    refine ⟨?_, rfl⟩
    have hplace := @placeOf_putPlace store (nameOf (addressOf store.hash kind bytes)) place
    exact (congrArg Place.final hplace).trans hfinal
  refine hpublished.bind ?_
  rintro _ _ hleft ⟨hfound, -⟩
  refine (inspect_preserves hleft).bind ?_
  rintro readback left hleft ⟨hread, rfl⟩
  obtain ⟨hholds, -⟩ := readObject_eq_ok hread
  have hsame := hholds.found.symm.trans hfound
  obtain rfl : readback = bytes := Stored.file.inj (Option.some.inj hsame)
  refine (preserves_refuse hleft).bind ?_
  rintro _ _ hleft ⟨-, rfl⟩
  exact preserves_pure hleft hholds

theorem inspect_completes {α : Type} {Anything : Store → Prop}
    {look : Store → Except ObjectStoreError α} {value : α} (hlook : look store = .ok value) :
    Completes Anything (inspect look) store fun found left => found = value ∧ left = store := by
  refine completes_read ?_
  rw [hlook]
  rfl

/-- Undisturbed, a call succeeds whose place is one to go on from. -/
theorem storeObject_completes (hquiet : Undisturbed env)
    (hreference : referenceOf store.hash kind bytes maximumBytes = .ok reference)
    (hsound : Sound bytes (placeOf (nameOf reference) store)) :
    (storeObject staging env kind bytes maximumBytes store).result = .ok reference := by
  obtain ⟨haddress, hadmissible, hlength⟩ := referenceOf_eq_ok hreference
  have hcompletes : Completes (fun _ => True) (storeObject staging env kind bytes maximumBytes)
      store fun found _ => found = reference := by
    have hname : objectName reference maximumBytes = .ok (nameOf reference) := by
      rw [objectName, refuse_of_not (not_not.mpr hadmissible), ok_bind, pure_eq_ok]
    refine Completes.bind (inspect_completes (checkWith_ok hquiet 0)) ?_
    rintro _ _ ⟨rfl, rfl⟩
    refine Completes.bind (inspect_completes hreference) ?_
    rintro reference _ ⟨rfl, rfl⟩
    refine Completes.bind (inspect_completes hname) ?_
    rintro _ store ⟨rfl, rfl⟩
    have hpublished : Completes (fun _ => True)
        (((publishNoclobber staging (within env 1) bytes maximumBytes.toNat).zoom
          (placeOf (nameOf reference)) (putPlace (nameOf reference))).mapError publicationError)
        store fun _ left => left.Holds reference bytes := by
      refine Completes.mapError (Completes.zoom
        (publishNoclobber_completes staging (hquiet.within 1) hlength hsound)
        (fun _ _ => trivial) ?_)
      rintro _ _ rfl
      refine ⟨if_pos rfl, ?_, ?_⟩
      · rw [haddress]
        exact (UInt64.toNat_ofNat_of_lt' (lt_of_le_of_lt hlength maximumBytes.toNat_lt)).symm
      · rw [haddress]
        rfl
    refine Completes.bind hpublished ?_
    rintro _ left hholds
    refine Completes.bind (inspect_completes (readObject_holds (hquiet.within 2) hadmissible
      hholds)) ?_
    rintro _ _ ⟨rfl, rfl⟩
    refine Completes.bind (completes_refuse (not_not.mpr hholds.length)) ?_
    rintro _ _ rfl
    exact completes_pure rfl
  obtain ⟨-, found, hresult, rfl⟩ := hcompletes
  exact hresult

end Call

/-! ## Sequences of calls -/

/-- One call of the owner, and the change behind which it is cut off, if it gets so far. -/
structure Call where
  staging : Staging
  env : Env
  kind : ObjectKind
  bytes : Bytes
  maximumBytes : UInt64
  point : Nat

def Call.store (call : Call) : StoreOp ObjectRef :=
  storeObject call.staging call.env call.kind call.bytes call.maximumBytes

/-- The object directory behind a call that is cut off. -/
def cutOff (store : Store) (call : Call) : Store := call.store.stopped call.point store

/-- The object directory behind a sequence of calls. -/
def afterCalls (store : Store) (calls : List Call) : Store := Runs.run cutOff store calls

/-- An object directory with nothing in it. -/
def Store.fresh (hash : Bytes → Blake3Digest32) : Store := ⟨fun _ => none, hash⟩

/-- Different contents have different digests. -/
def Distinct (hash : Bytes → Blake3Digest32) (contents : List Bytes) : Prop :=
  ∀ first ∈ contents, ∀ second ∈ contents, hash first = hash second → first = second

/-- The place of each content is one that publications of it left behind. -/
def AllSound (hash : Bytes → Blake3Digest32) (contents : List Bytes) (store : Store) : Prop :=
  store.hash = hash ∧ ∀ kind, ∀ bytes ∈ contents,
    Sound bytes (placeOf (nameOf (addressOf hash kind bytes)) store)

section Sequences

variable {hash : Bytes → Blake3Digest32} {contents : List Bytes} {store : Store} {call : Call}

/-- The object is there, in a directory with the digest. -/
def Keeps (hash : Bytes → Blake3Digest32) (reference : ObjectRef) (stored : Stored)
    (store : Store) : Prop :=
  store.hash = hash ∧ store.find (nameOf reference) = some stored

/-- An object that is there stays as it is, also where a call is cut off. -/
theorem cutOff_keeps {reference : ObjectRef} {stored : Stored}
    (hkeeps : Keeps hash reference stored store) :
    Keeps hash reference stored (cutOff store call) := by
  obtain ⟨rfl, hfound⟩ := hkeeps
  have hstore : Keeps store.hash reference stored store := ⟨rfl, hfound⟩
  refine (storeObject_preserves hstore fun place hpublished => ⟨rfl, ?_⟩).stopped hstore _
  by_cases hname : nameOf reference = nameOf (addressOf store.hash call.kind call.bytes)
  · rw [hname] at hfound ⊢
    have hplace :=
      @placeOf_putPlace store (nameOf (addressOf store.hash call.kind call.bytes)) place
    exact (congrArg Place.final hplace).trans (hpublished.final_eq hfound)
  · rw [putPlace_of_ne hname (nameOf_ne_stageOf _ _)]
    exact hfound

theorem afterCalls_keeps {reference : ObjectRef} {stored : Stored}
    (hkeeps : Keeps hash reference stored store) (calls : List Call) :
    Keeps hash reference stored (afterCalls store calls) :=
  Runs.run_invariant hkeeps (fun _ _ => cutOff_keeps) calls

theorem fresh_sound (hash : Bytes → Blake3Digest32) (contents : List Bytes) :
    AllSound hash contents (Store.fresh hash) :=
  ⟨rfl, fun _ bytes _ => Or.inl ⟨rfl, front_none bytes⟩⟩

/-- A call leaves every place as one to go on from, also where it is cut off. -/
theorem cutOff_sound (hdistinct : Distinct hash contents) (hcall : call.bytes ∈ contents)
    (hsound : AllSound hash contents store) : AllSound hash contents (cutOff store call) := by
  obtain ⟨rfl, hplaces⟩ := hsound
  refine (storeObject_preserves ⟨rfl, hplaces⟩ fun place hpublished => ⟨rfl, ?_⟩).stopped
    ⟨rfl, hplaces⟩ _
  intro kind bytes hbytes
  by_cases hname : nameOf (addressOf store.hash kind bytes) =
      nameOf (addressOf store.hash call.kind call.bytes)
  · have hversion : (addressOf store.hash kind bytes).formatVersion =
        (addressOf store.hash call.kind call.bytes).formatVersion := rfl
    obtain ⟨-, hdigest⟩ := nameOf_injective hversion hname
    obtain rfl := hdistinct bytes hbytes call.bytes hcall hdigest
    rw [hname, placeOf_putPlace]
    exact (hplaces call.kind _ hbytes).published hpublished
  · rw [placeOf_putPlace_of_ne hname]
    exact hplaces kind bytes hbytes

theorem afterCalls_sound (hdistinct : Distinct hash contents)
    (hsound : AllSound hash contents store) {calls : List Call}
    (hcalls : ∀ call ∈ calls, call.bytes ∈ contents) :
    AllSound hash contents (afterCalls store calls) := by
  induction calls generalizing store with
  | nil => exact hsound
  | cons call calls ih =>
      obtain ⟨hcall, hcalls⟩ := List.forall_mem_cons.mp hcalls
      exact ih (cutOff_sound hdistinct hcall hsound) hcalls

/-- Nothing but the stage of a name changed, and that at most disappeared. -/
structure StageGone (name : Bytes) (store left : Store) : Prop where
  others : ∀ other, other ≠ stageOf name → left.find other = store.find other
  stage : ∀ found, left.find (stageOf name) = some found → store.find (stageOf name) = some found

theorem StageGone.self (name : Bytes) (store : Store) : StageGone name store store :=
  ⟨fun _ _ => rfl, fun _ hfound => hfound⟩

theorem stageGone_withoutStage (name : Bytes) (store : Store) :
    StageGone name store (putPlace name store (placeOf name store).withoutStage) := by
  constructor
  · intro other hstage
    by_cases hother : other = name
    · subst hother
      exact congrArg Place.final placeOf_putPlace
    · exact putPlace_of_ne hother hstage
  · intro found hfound
    have hplace := congrArg Place.stage
      (@placeOf_putPlace store name (placeOf name store).withoutStage)
    cases hplace.symm.trans hfound

/-- Behind an object that is there a call removes its stage at most. -/
theorem storeObject_rewrites_nothing {stored : Stored}
    (hfound : store.find (nameOf (addressOf store.hash call.kind call.bytes)) = some stored)
    (point : Nat) :
    StageGone (nameOf (addressOf store.hash call.kind call.bytes)) store
      (call.store.stopped point store) := by
  have hself := StageGone.self (nameOf (addressOf store.hash call.kind call.bytes)) store
  refine (storeObject_preserves hself fun place hpublished => ?_).stopped hself point
  rcases hpublished.eq_or_withoutStage hfound with rfl | rfl
  · rw [putPlace_placeOf]
    exact hself
  · exact stageGone_withoutStage _ store

end Sequences

/-- However the calls of the owner are cut off: an object that is there is never changed; a
call of bytes that are there rewrites nothing; whatever earlier calls left behind, an
undisturbed call succeeds; and the reference that a call returns reads its bytes from then
on. -/
theorem object_store_crash_safe (hash : Bytes → Blake3Digest32) :
    (∀ (start : Store) (calls : List Call) (reference : ObjectRef) (stored : Stored),
      start.find (nameOf reference) = some stored →
      (afterCalls start calls).find (nameOf reference) = some stored) ∧
    (∀ (calls : List Call) (call : Call) (reference : ObjectRef),
      Distinct hash (call.bytes :: calls.map Call.bytes) → Undisturbed call.env →
      referenceOf hash call.kind call.bytes call.maximumBytes = .ok reference →
      (call.store (afterCalls (Store.fresh hash) calls)).result = .ok reference) ∧
    (∀ (start : Store) (call : Call) (point : Nat),
      start.find (nameOf (addressOf start.hash call.kind call.bytes)) = some (.file call.bytes) →
      StageGone (nameOf (addressOf start.hash call.kind call.bytes)) start
        (call.store.stopped point start)) ∧
    (∀ (start : Store) (call : Call) (reference : ObjectRef),
      (call.store start).result = .ok reference →
      ∀ (later : List Call) (env : Env) (maximumBytes : UInt64),
        Undisturbed env → Admissible reference maximumBytes →
        readObject (afterCalls (call.store start).left later) env reference maximumBytes =
          .ok call.bytes) := by
  refine ⟨?_, ?_, ?_, ?_⟩
  · intro start calls reference stored hfound
    have hkeeps : Keeps start.hash reference stored start := ⟨rfl, hfound⟩
    exact (afterCalls_keeps hkeeps calls).2
  · intro calls call reference hdistinct hquiet hreference
    have hcalls : ∀ earlier ∈ calls, earlier.bytes ∈ call.bytes :: calls.map Call.bytes :=
      fun _ hmem => List.mem_cons_of_mem _ (List.mem_map_of_mem hmem)
    obtain ⟨hhash, hplaces⟩ := afterCalls_sound hdistinct (fresh_sound hash _) hcalls
    refine storeObject_completes hquiet ?_ ?_
    · rw [hhash]
      exact hreference
    · obtain ⟨rfl, -, -⟩ := referenceOf_eq_ok hreference
      exact hplaces call.kind call.bytes List.mem_cons_self
  · intro start call point hfound
    exact storeObject_rewrites_nothing hfound point
  · intro start call reference hresult later env maximumBytes hquiet hadmissible
    have hanywhere : Preserves (fun _ => True) call.store start fun reference left =>
        left.Holds reference call.bytes :=
      storeObject_preserves trivial fun _ _ => trivial
    have hholds := hanywhere.post reference hresult
    have hkeeps : Keeps (call.store start).left.hash reference (.file call.bytes)
      (call.store start).left := ⟨rfl, hholds.found⟩
    obtain ⟨hhash, hfound⟩ := afterCalls_keeps hkeeps later
    refine readObject_holds hquiet hadmissible ⟨hfound, hholds.length, ?_⟩
    rw [hhash]
    exact hholds.digest

namespace Sample

def digest (_ : Bytes) : Blake3Digest32 := ⟨List.replicate 32 7, List.length_replicate⟩

/-- A call that is cut off in the middle of writing its stage. -/
def call : Call where
  staging := ⟨.links, true⟩
  env := Env.quiet
  kind := .source
  bytes := [1, 2]
  maximumBytes := 16
  point := 2

end Sample

/-- Behind half a stage the same bytes are stored. -/
theorem object_store_crash_safe_sample :
    (afterCalls (Store.fresh Sample.digest) [Sample.call]).find
        (stageOf (nameOf (addressOf Sample.digest .source [1, 2]))) = some (.file [1]) ∧
      (Sample.call.store (afterCalls (Store.fresh Sample.digest) [Sample.call])).result =
        .ok (addressOf Sample.digest .source [1, 2]) := by
  obtain ⟨-, hstored, -⟩ := object_store_crash_safe Sample.digest
  constructor
  · rfl
  · refine hstored [Sample.call] Sample.call _ ?_ undisturbed_quiet rfl
    intro first hfirst second hsecond _
    have hsame : ∀ bytes ∈ [Sample.call.bytes, Sample.call.bytes], bytes = Sample.call.bytes := by
      decide
    rw [hsame first hfirst, hsame second hsecond]

end EliotSearch.Retention
