import Umari.StoredEvents
import Mathlib.Data.List.Pairwise

/-!
The table of encryption keys in the module store. A row is never removed: deleting a
scope's key clears the key of its active row, and the row of the next key of the
scope is a new one. The identifier and the key of a new row are random and come as
arguments.
-/
namespace UmariCryptoKeys
open UmariStoredEvents

/-- `key` is absent once `key` is NULL and `deleted_at` is set, which one UPDATE does. -/
structure KeyRow where
  id : Uuid
  scope : String
  key : Option CryptoKey
deriving DecidableEq, Repr

def KeyRow.active (row : KeyRow) : Bool := row.key.isSome

/-- The rows with the primary key and the unique index `crypto_keys_active_scope`. -/
structure CryptoKeys where
  rows : List KeyRow
  primary : rows.Pairwise fun a b => a.id ≠ b.id
  activeScope : rows.Pairwise fun a b => a.active → b.active → a.scope ≠ b.scope

def noKeys : CryptoKeys := ⟨[], List.Pairwise.nil, List.Pairwise.nil⟩

def getCryptoKey (keys : CryptoKeys) (scope : String) : Option (Uuid × CryptoKey) :=
  (keys.rows.find? fun row => decide (row.scope = scope) && row.active).bind fun row =>
    row.key.map fun key => (row.id, key)

def getCryptoKeyById (keys : CryptoKeys) (id : Uuid) : Option CryptoKey :=
  (keys.rows.find? fun row => decide (row.id = id) && row.active).bind (·.key)

theorem getCryptoKey_none {keys : CryptoKeys} {scope : String} :
    getCryptoKey keys scope = none ↔ ∀ row ∈ keys.rows, row.active → row.scope ≠ scope := by
  constructor
  · intro none row member active same
    cases found : keys.rows.find? fun row => decide (row.scope = scope) && row.active with
    | none =>
      have absent := List.find?_eq_none.mp found row member
      exact absent (by simp [same, active])
    | some other =>
      have live : other.active = true := by
        have passes := List.find?_some found
        simp only [Bool.and_eq_true] at passes
        exact passes.2
      obtain ⟨key, held⟩ := Option.isSome_iff_exists.mp live
      simp [getCryptoKey, found, held] at none
  · intro absent
    have found : (keys.rows.find? fun row => decide (row.scope = scope) && row.active) = none := by
      apply List.find?_eq_none.mpr
      intro row member passes
      simp only [Bool.and_eq_true, decide_eq_true_eq] at passes
      exact absent row member passes.2 passes.1
    rw [getCryptoKey, found]
    rfl

theorem insert_primary {keys : CryptoKeys} {row : KeyRow}
    (fresh : ∀ old ∈ keys.rows, old.id ≠ row.id) :
    (keys.rows ++ [row]).Pairwise fun a b => a.id ≠ b.id := by
  apply List.pairwise_append.mpr
  refine ⟨keys.primary, List.pairwise_singleton _ _, ?_⟩
  intro old member new here
  obtain rfl := List.mem_singleton.mp here
  exact fresh old member

theorem insert_activeScope {keys : CryptoKeys} {row : KeyRow}
    (free : getCryptoKey keys row.scope = none) :
    (keys.rows ++ [row]).Pairwise fun a b => a.active → b.active → a.scope ≠ b.scope := by
  apply List.pairwise_append.mpr
  refine ⟨keys.activeScope, List.pairwise_singleton _ _, ?_⟩
  intro old member new here active _
  obtain rfl := List.mem_singleton.mp here
  exact getCryptoKey_none.mp free old member active

/-- A scope keeps the key it has; otherwise `fresh` is inserted. -/
def createCryptoKey (keys : CryptoKeys) (scope : String) (fresh : Uuid × CryptoKey) :
    Except String (CryptoKeys × Uuid × CryptoKey) :=
  match free : getCryptoKey keys scope with
  | some made => .ok (keys, made)
  | none =>
    if unused : ∀ old ∈ keys.rows, old.id ≠ fresh.1 then
      .ok ({ rows := keys.rows ++ [⟨fresh.1, scope, some fresh.2⟩]
             primary := insert_primary unused
             activeScope := insert_activeScope free }, fresh)
    else .error "UNIQUE constraint failed: crypto_keys.id"

def KeyRow.wipe (scope : String) (row : KeyRow) : KeyRow :=
  if row.scope = scope then { row with key := none } else row

@[simp] theorem wipe_id (scope : String) (row : KeyRow) : (row.wipe scope).id = row.id := by
  unfold KeyRow.wipe
  split
  · rfl
  · rfl

@[simp] theorem wipe_scope (scope : String) (row : KeyRow) :
    (row.wipe scope).scope = row.scope := by
  unfold KeyRow.wipe
  split
  · rfl
  · rfl

theorem wipe_active {scope : String} {row : KeyRow} (active : (row.wipe scope).active) :
    row.active := by
  unfold KeyRow.wipe at active
  split at active
  · exact absurd active (by simp [KeyRow.active])
  · exact active

def deleteCryptoKey (keys : CryptoKeys) (scope : String) : CryptoKeys where
  rows := keys.rows.map (KeyRow.wipe scope)
  primary := List.pairwise_map.mpr (keys.primary.imp fun different => by simpa using different)
  activeScope := List.pairwise_map.mpr (keys.activeScope.imp fun different left right => by
    simpa using different (wipe_active left) (wipe_active right))

section rows
variable {keys : CryptoKeys}

theorem row_unique {a b : KeyRow} (left : a ∈ keys.rows) (right : b ∈ keys.rows)
    (same : a.id = b.id) : a = b := by
  have symm : Std.Symm fun a b : KeyRow => a.id ≠ b.id := ⟨fun _ _ apart => apart.symm⟩
  by_contra different
  exact keys.primary.forall left right different same

theorem getCryptoKeyById_row {row : KeyRow} (member : row ∈ keys.rows) :
    getCryptoKeyById keys row.id = row.key := by
  unfold getCryptoKeyById
  cases found : keys.rows.find? fun other => decide (other.id = row.id) && other.active with
  | none =>
    have absent := List.find?_eq_none.mp found row member
    cases held : row.key with
    | none => rfl
    | some key => exact absurd (by simp [KeyRow.active, held]) absent
  | some other =>
    have passes := List.find?_some found
    simp only [Bool.and_eq_true, decide_eq_true_eq] at passes
    rw [row_unique (List.mem_of_find?_eq_some found) member passes.1]
    rfl

theorem getCryptoKey_some {scope : String} {made : Uuid × CryptoKey}
    (found : getCryptoKey keys scope = some made) : ⟨made.1, scope, some made.2⟩ ∈ keys.rows := by
  obtain ⟨row, seen, same⟩ := Option.bind_eq_some_iff.mp found
  obtain ⟨key, held, rfl⟩ := Option.map_eq_some_iff.mp same
  have passes := List.find?_some seen
  simp only [Bool.and_eq_true, decide_eq_true_eq] at passes
  have member := List.mem_of_find?_eq_some seen
  obtain ⟨id, other, key'⟩ := row
  obtain rfl : other = scope := passes.1
  obtain rfl : key' = some key := held
  exact member

theorem createCryptoKey_ok {scope : String} {fresh made : Uuid × CryptoKey} {after : CryptoKeys}
    (created : createCryptoKey keys scope fresh = .ok (after, made)) :
    ⟨made.1, scope, some made.2⟩ ∈ after.rows ∧ ∀ row ∈ keys.rows, row ∈ after.rows := by
  unfold createCryptoKey at created
  split at created
  · rename_i held found
    obtain ⟨rfl, rfl⟩ := Prod.mk.inj (Except.ok.inj created)
    exact ⟨getCryptoKey_some found, fun _ member => member⟩
  · split at created
    · obtain ⟨rfl, rfl⟩ := Prod.mk.inj (Except.ok.inj created)
      constructor
      · simp
      · exact fun row member => List.mem_append_left _ member
    · exact absurd created (by simp)

end rows

inductive KeyRequest where
  | create (scope : String) (fresh : Uuid × CryptoKey)
  | delete (scope : String)
deriving DecidableEq, Repr

def handleRequest (keys : CryptoKeys) : KeyRequest → CryptoKeys
  | .create scope fresh =>
    match createCryptoKey keys scope fresh with
    | .ok (after, _) => after
    | .error _ => keys
  | .delete scope => deleteCryptoKey keys scope

theorem create_rows (keys : CryptoKeys) (scope : String) (fresh : Uuid × CryptoKey) :
    (handleRequest keys (.create scope fresh)).rows =
      if getCryptoKey keys scope = none ∧ ∀ old ∈ keys.rows, old.id ≠ fresh.1 then
        keys.rows ++ [⟨fresh.1, scope, some fresh.2⟩]
      else keys.rows := by
  show (match createCryptoKey keys scope fresh with
    | .ok (after, _) => after
    | .error _ => keys).rows = _
  unfold createCryptoKey
  split
  · rename_i after _ created
    split at created
    · rename_i made found
      obtain ⟨rfl, _⟩ := Prod.mk.inj (Except.ok.inj created)
      rw [if_neg (by simp [found])]
    · rename_i free
      split at created
      · rename_i unused
        obtain ⟨rfl, _⟩ := Prod.mk.inj (Except.ok.inj created)
        rw [if_pos ⟨free, unused⟩]
      · exact absurd created (by simp)
  · rename_i created
    split at created
    · exact absurd created (by simp)
    · split at created
      · exact absurd created (by simp)
      · rename_i used
        rw [if_neg fun both => used both.2]

theorem row_request {keys : CryptoKeys} {id : Uuid} {scope : String} {key : Option CryptoKey}
    (member : ⟨id, scope, key⟩ ∈ keys.rows) (request : KeyRequest) :
    ⟨id, scope, if request = .delete scope then none else key⟩ ∈
      (handleRequest keys request).rows := by
  cases request with
  | create other fresh =>
    rw [if_neg (by simp)]
    show _ ∈ (match createCryptoKey keys other fresh with
      | .ok (after, _) => after
      | .error _ => keys).rows
    cases created : createCryptoKey keys other fresh with
    | error err => exact member
    | ok result => exact (createCryptoKey_ok created).2 _ member
  | delete other =>
    apply List.mem_map.mpr
    refine ⟨_, member, ?_⟩
    by_cases same : scope = other
    · subst same
      simp [KeyRow.wipe]
    · simp [KeyRow.wipe, same, Ne.symm same]

/-- What a row holds after any later requests depends only on whether its scope was
    deleted among them, whatever keys the scope was given since. -/
theorem row_requests {keys : CryptoKeys} {id : Uuid} {scope : String} {key : Option CryptoKey}
    (member : ⟨id, scope, key⟩ ∈ keys.rows) (requests : List KeyRequest) :
    ⟨id, scope, if .delete scope ∈ requests then none else key⟩ ∈
      (requests.foldl handleRequest keys).rows := by
  induction requests generalizing keys key with
  | nil => simpa using member
  | cons request rest ih =>
    have next := ih (row_request member request)
    rw [List.foldl_cons]
    by_cases here : request = .delete scope
    · subst here
      simpa using next
    · rw [if_neg here] at next
      simpa [Ne.symm here] using next

end UmariCryptoKeys
