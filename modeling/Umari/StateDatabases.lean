import Mathlib.Data.List.Basic

/-!
The state database of a module: one `module_meta` row beside the module's own
tables. `openDatabase` is the part of the actor's start that decides whether
the file is kept; a module whose major version changed starts on a new file.
The version text of the row is always one the runtime wrote, so the row holds
the version itself.
-/
namespace UmariStateDatabases

structure Version where
  major : Nat
  minor : Nat
  patch : Nat
  pre : String
  build : String
deriving DecidableEq, Repr

def release (major minor patch : Nat) : Version := ⟨major, minor, patch, "", ""⟩

structure MetaRow where
  name : String
  version : Version
  lastPosition : Option Nat
deriving DecidableEq, Repr

structure Database (T : Type) where
  row : Option MetaRow
  tables : T
deriving DecidableEq, Repr

variable {T : Type}

def majorChanged (row : Option MetaRow) (version : Version) : Bool :=
  (row.map (·.version.major)).any fun major => decide (major ≠ version.major)

/-- The insert that keeps `last_position` when the row is there already. -/
def upsertMeta (name : String) (version : Version) : Option MetaRow → MetaRow
  | none => ⟨name, version, none⟩
  | some row => { row with version := version }

def openDatabase (empty : T) (name : String) (version : Version) (db : Database T) :
    Database T :=
  let db := if majorChanged db.row version then ⟨none, empty⟩ else db
  { db with row := some (upsertMeta name version db.row) }

def storedPosition (row : Option MetaRow) : Option Nat := row.bind (·.lastPosition)

/-- The compare-and-set of `last_position`; `none` when no row was changed. -/
def updateLastPosition (new : Nat) (expected : Option Nat) (row : Option MetaRow) :
    Option (Option MetaRow) :=
  match row with
  | none => none
  | some current =>
    if current.lastPosition = expected then some (some { current with lastPosition := some new })
    else none

theorem updateLastPosition_some {new : Nat} {expected : Option Nat} {row row' : Option MetaRow}
    (updated : updateLastPosition new expected row = some row') :
    storedPosition row = expected ∧ storedPosition row' = some new ∧ row'.isSome = row.isSome := by
  unfold updateLastPosition at updated
  cases row with
  | none => exact absurd updated (by simp)
  | some current =>
    dsimp only at updated
    split at updated
    · rename_i same
      cases updated
      exact ⟨same, rfl, rfl⟩
    · exact absurd updated (by simp)

theorem updateLastPosition_major {new : Nat} {expected : Option Nat} {row row' : Option MetaRow}
    (updated : updateLastPosition new expected row = some row') :
    row'.map (·.version.major) = row.map (·.version.major) := by
  unfold updateLastPosition at updated
  cases row with
  | none => exact absurd updated (by simp)
  | some current =>
    dsimp only at updated
    split at updated
    · cases updated
      rfl
    · exact absurd updated (by simp)

section upsert
variable (name : String) (version : Version) (row : Option MetaRow)

theorem upsertMeta_position :
    storedPosition (some (upsertMeta name version row)) = storedPosition row := by
  cases row with
  | none => rfl
  | some row => rfl

theorem upsertMeta_major : (upsertMeta name version row).version.major = version.major := by
  cases row with
  | none => rfl
  | some row => rfl

end upsert

theorem openDatabase_position (empty : T) (name : String) (version : Version) (db : Database T) :
    storedPosition (openDatabase empty name version db).row =
      if majorChanged db.row version then none else storedPosition db.row := by
  unfold openDatabase
  by_cases changed : majorChanged db.row version = true
  · rw [if_pos changed, if_pos changed]
    exact upsertMeta_position name version none
  · rw [if_neg changed, if_neg changed]
    exact upsertMeta_position name version db.row

end UmariStateDatabases
