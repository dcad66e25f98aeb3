import EliotSearch.Control.Database
import EliotSearch.Library.Hex
import EliotSearch.Session.Exchange

/-!
# Retained objects

Reading an immutable object by its reference.  The bytes are accepted only with
the declared length and digest; the digest function is a parameter.
-/

namespace EliotSearch.Query

open EliotSearch.Control
open EliotSearch.Library
open EliotSearch.Library.Hex
open EliotSearch.Library.Json
open EliotSearch.Library.Results
open EliotSearch.Session

/-! ## Surroundings -/

/-- The surroundings of a call made at one site. -/
def within (env : Env) (site : Nat) : Env := ⟨fun inner => env.probe (Nat.pair site inner), env.fate⟩

/-- Surroundings in which no deadline passes and no flag is set. -/
def Undisturbed (env : Env) : Prop := ∀ site, env.probe site = none

theorem Undisturbed.within {env : Env} (hquiet : Undisturbed env) (site : Nat) :
    Undisturbed (within env site) :=
  fun inner => hquiet (Nat.pair site inner)

/-- Undisturbed surroundings are the same at every site. -/
theorem Undisturbed.within_eq {env : Env} (hquiet : Undisturbed env) (site : Nat) :
    Query.within env site = env := by
  obtain ⟨probe, fate⟩ := env
  obtain rfl : probe = fun _ => none := funext hquiet
  rfl

theorem undisturbed_quiet : Undisturbed Env.quiet :=
  fun _ => rfl

/-- A check of the deadline and the flag. -/
def checkWith {ε : Type} (cancelled deadline : ε) (env : Env) (site : Nat) : Except ε Unit :=
  match env.probe site with
  | some .cancelled => .error cancelled
  | some .deadline => .error deadline
  | _ => .ok ()

theorem checkWith_ok {ε : Type} {cancelled deadline : ε} {env : Env} (hquiet : Undisturbed env)
    (site : Nat) : checkWith cancelled deadline env site = .ok () := by
  rw [checkWith, hquiet site]

theorem checkWith_eq_error {ε : Type} {cancelled deadline reason : ε} {env : Env} {site : Nat}
    (hcheck : checkWith cancelled deadline env site = .error reason) :
    reason = cancelled ∨ reason = deadline := by
  unfold checkWith at hcheck
  split at hcheck
  · exact Or.inl (Except.error.inj hcheck).symm
  · exact Or.inr (Except.error.inj hcheck).symm
  · cases hcheck

/-- Only disturbed surroundings fail a check. -/
theorem checkWith_disturbed {ε : Type} {cancelled deadline error : ε} {env : Env} {site : Nat}
    (hcheck : checkWith cancelled deadline env site = .error error) :
    (error = cancelled ∨ error = deadline) ∧ ¬ Undisturbed env := by
  refine ⟨checkWith_eq_error hcheck, fun hquiet => ?_⟩
  rw [checkWith_ok hquiet] at hcheck
  cases hcheck

def check (env : Env) (site : Nat) : Except QueryFailure Unit :=
  checkWith .cancelled .deadline env site

theorem check_ok {env : Env} (hquiet : Undisturbed env) (site : Nat) : check env site = .ok () :=
  checkWith_ok hquiet site

/-! ## Objects -/

/-- Closed immutable-object storage failures that a read can give. -/
inductive ObjectStoreError where
  | invalidReference
  | missing
  | notRegularFile
  | integrityFailure
  | io
  | deadline
  | cancelled
  deriving DecidableEq, Repr

def ObjectStoreError.code : ObjectStoreError → Bytes
  | invalidReference => ascii "OBJECT_REFERENCE_INVALID"
  | missing => ascii "OBJECT_MISSING"
  | notRegularFile => ascii "OBJECT_NOT_REGULAR_FILE"
  | integrityFailure => ascii "OBJECT_INTEGRITY_FAILURE"
  | io => ascii "OBJECT_IO"
  | deadline => ascii "OBJECT_DEADLINE"
  | cancelled => ascii "OBJECT_CANCELLED"

/-- What the object directory has under one name. -/
inductive Stored where
  | file (bytes : Bytes)
  | irregular
  | unreadable
  deriving DecidableEq

/-- The object directory, by file name, and the digest of its objects. -/
structure Store where
  find : Bytes → Option Stored
  hash : Bytes → Blake3Digest32

def ObjectKind.name : ObjectKind → Bytes
  | .source => ascii "source"
  | .prepared => ascii "prepared"

/-- The file name of an object. -/
def nameOf (reference : ObjectRef) : Bytes :=
  ascii "v" ++ decimal reference.formatVersion.toNat ++ ascii "-" ++
    ObjectKind.name reference.kind ++ ascii "-" ++ hex reference.digest.bytes

/-- The reference may be read under the bound. -/
def Admissible (reference : ObjectRef) (maximumBytes : UInt64) : Prop :=
  reference.formatVersion = sourceObjectFormatVersion ∧ maximumBytes ≠ 0 ∧
    reference.byteLength ≤ maximumBytes ∧
    (reference.kind = .source → reference.byteLength ≤ maxSourceObjectBytes)

instance (reference : ObjectRef) (maximumBytes : UInt64) :
    Decidable (Admissible reference maximumBytes) :=
  inferInstanceAs (Decidable (_ ∧ _))

def objectName (reference : ObjectRef) (maximumBytes : UInt64) : Except ObjectStoreError Bytes := do
  refuse (¬ Admissible reference maximumBytes) .invalidReference
  return nameOf reference

/-- Reads retained bytes only after verifying their declared length and digest. -/
def readObject (store : Store) (env : Env) (reference : ObjectRef) (maximumBytes : UInt64) :
    Except ObjectStoreError Bytes := do
  checkWith .cancelled .deadline env 0
  let name ← objectName reference maximumBytes
  match store.find name with
  | none => .error .missing
  | some .unreadable => .error .io
  | some .irregular => .error .notRegularFile
  | some (.file bytes) => do
      refuse (bytes.length ≠ reference.byteLength.toNat ∨ store.hash bytes ≠ reference.digest)
        .integrityFailure
      checkWith .cancelled .deadline env 1
      return bytes

namespace Store

/-- The object is present with its exact bytes. -/
structure Holds (store : Store) (reference : ObjectRef) (bytes : Bytes) : Prop where
  found : store.find (nameOf reference) = some (.file bytes)
  length : bytes.length = reference.byteLength.toNat
  digest : store.hash bytes = reference.digest

/-- The object is absent. -/
def Lacks (store : Store) (reference : ObjectRef) : Prop := store.find (nameOf reference) = none

variable {store : Store} {reference : ObjectRef}

theorem Holds.unique {first second : Bytes} (hfirst : store.Holds reference first)
    (hsecond : store.Holds reference second) : first = second := by
  have hfound := hfirst.found.symm.trans hsecond.found
  exact Stored.file.inj (Option.some.inj hfound)

theorem Holds.not_lacks {bytes : Bytes} (hholds : store.Holds reference bytes) :
    ¬ store.Lacks reference := by
  intro hlacks
  have hfound := hholds.found.symm.trans hlacks
  cases hfound

end Store

section Reading

variable {store : Store} {env : Env} {reference : ObjectRef} {maximum : UInt64}

/-- An object that is present is read. -/
theorem readObject_holds {bytes : Bytes} (hquiet : Undisturbed env)
    (hreference : Admissible reference maximum) (hholds : store.Holds reference bytes) :
    readObject store env reference maximum = .ok bytes := by
  have hintact : ¬ (bytes.length ≠ reference.byteLength.toNat ∨
      store.hash bytes ≠ reference.digest) := by
    rintro (hlength | hdigest)
    · exact hlength hholds.length
    · exact hdigest hholds.digest
  rw [readObject, checkWith_ok hquiet, ok_bind, objectName,
    refuse_of_not (not_not.mpr hreference), ok_bind, pure_eq_ok, ok_bind, hholds.found]
  dsimp only
  rw [refuse_of_not hintact, ok_bind, checkWith_ok hquiet, ok_bind, pure_eq_ok]

/-- An object that is absent is reported as missing. -/
theorem readObject_lacks (hquiet : Undisturbed env) (hreference : Admissible reference maximum)
    (hlacks : store.Lacks reference) :
    readObject store env reference maximum = .error .missing := by
  have hname : store.find (nameOf reference) = none := hlacks
  rw [readObject, checkWith_ok hquiet, ok_bind, objectName,
    refuse_of_not (not_not.mpr hreference), ok_bind, pure_eq_ok, ok_bind, hname]

/-- Bytes that are read are those of an object that is present. -/
theorem readObject_eq_ok {bytes : Bytes}
    (hread : readObject store env reference maximum = .ok bytes) :
    store.Holds reference bytes ∧ Admissible reference maximum := by
  simp only [readObject, objectName, bind_eq_ok, refuse_eq_ok, not_not, pure_eq_ok,
    Except.ok.injEq] at hread
  obtain ⟨_, -, name, ⟨_, hreference, rfl⟩, hread⟩ := hread
  cases hfind : store.find (nameOf reference) with
  | none =>
      rw [hfind] at hread
      cases hread
  | some stored =>
      rw [hfind] at hread
      cases stored with
      | file found =>
          simp only [bind_eq_ok, refuse_eq_ok, not_or, not_not, Except.ok.injEq] at hread
          obtain ⟨_, ⟨hlength, hdigest⟩, _, -, rfl⟩ := hread
          exact ⟨⟨hfind, hlength, hdigest⟩, hreference⟩
      | irregular => cases hread
      | unreadable => cases hread

/-- An object that is reported as missing is absent. -/
theorem readObject_eq_missing
    (hread : readObject store env reference maximum = .error .missing) :
    store.Lacks reference := by
  have hcheck (site : Nat) :
      checkWith ObjectStoreError.cancelled .deadline env site ≠ .error .missing := by
    intro hfailed
    rcases checkWith_eq_error hfailed with hother | hother
    · cases hother
    · cases hother
  unfold readObject at hread
  rcases bind_eq_error.mp hread with hstopped | ⟨_, -, hread⟩
  · exact absurd hstopped (hcheck 0)
  · rcases bind_eq_error.mp hread with hname | ⟨name, hname, hread⟩
    · simp only [objectName, bind_eq_error, refuse_eq_error, reduceCtorEq, and_false, pure_eq_ok,
        exists_const, or_self] at hname
    · simp only [objectName, bind_eq_ok, refuse_eq_ok, pure_eq_ok, Except.ok.injEq] at hname
      obtain ⟨_, -, rfl⟩ := hname
      cases hfind : store.find (nameOf reference) with
      | none => exact hfind
      | some stored =>
          rw [hfind] at hread
          cases stored with
          | file found =>
              rcases bind_eq_error.mp hread with hrefused | ⟨_, -, hread⟩
              · cases (refuse_eq_error.mp hrefused).2
              · rcases bind_eq_error.mp hread with hstopped | ⟨_, -, hdone⟩
                · exact absurd hstopped (hcheck 1)
                · cases hdone
          | irregular => cases hread
          | unreadable => cases hread

end Reading

end EliotSearch.Query
