import Umari.CryptoKeys
import Umari.GuardedRuns
import Umari.ModuleStore

/-!
Histories of the key table. A key and the time of its deletion are two columns, which
both lookups and the unique index read apart from each other; they agree in every table
that requests lead to. A row is never removed, so the primary key keeps the identifier of
a deleted key from being given out again.
-/
namespace UmariKeyHistories
open FallibleFolds GuardedRuns UniqueTables UmariStoredEvents UmariModuleStore

inductive Request where
  | create (fails : Failures) (scope : String) (fresh : Uuid × CryptoKey)
  | get (failed : Bool) (scope : String)
  | getById (failed : Bool) (id : Uuid)
  | delete (failed : Bool) (scope : String) (now : Int)

def handle (keys : KeyTable) : Request → KeyTable
  | .create fails scope fresh => (createCryptoKey keys fails scope fresh).1
  | .get _ _ => keys
  | .getById _ _ => keys
  | .delete failed scope now => (deleteCryptoKey keys failed scope now).1

def step (keys : KeyTable) (request : Request) : Option KeyTable := some (handle keys request)

def Reveals (keys : KeyTable) (id : Uuid) : Request → Prop
  | .create fails scope fresh => ∃ key, (createCryptoKey keys fails scope fresh).2 = .ok (id, key)
  | .get failed scope => ∃ key, getCryptoKey keys failed scope = .ok (some (id, key))
  | .getById failed other => other = id ∧ ∃ key, getCryptoKeyById keys failed other = .ok (some key)
  | .delete _ _ _ => False

/-- What every deletion that succeeds brings about. -/
structure Deletion (keys after : KeyTable) (scope : String) : Prop where
  permanent : ∀ id key, getCryptoKey keys false scope = .ok (some (id, key)) →
    ∀ requests later, exec step after requests = some later →
      ∀ request, ¬ Reveals later id request
  renewed : ∀ id key, getCryptoKey keys false scope = .ok (some (id, key)) →
    ∀ requests later, exec step after requests = some later →
      ∀ fails fresh made, (createCryptoKey later fails scope fresh).2 = .ok made → made.1 ≠ id
  otherScopes : ∀ other, other ≠ scope → ∀ failed,
    getCryptoKey after failed other = getCryptoKey keys failed other
  otherIds : ∀ id, (∀ key, getCryptoKey keys false scope ≠ .ok (some (id, key))) → ∀ failed,
    getCryptoKeyById after failed id = getCryptoKeyById keys failed id

/-- The deletion of a scope's key, with its statement executed. -/
def Request.deletes (scope : String) : Request → Bool
  | .delete failed other _ => !failed && decide (other = scope)
  | _ => false

/-- What a create that succeeds brings about: its key is the scope's, until the scope is
    deleted. -/
structure Creation (after : KeyTable) (scope : String) (made : Uuid × CryptoKey) : Prop where
  found : ∀ requests later, (∀ request ∈ requests, request.deletes scope = false) →
    exec step after requests = some later → getCryptoKey later false scope = .ok (some made)
  foundById : ∀ requests later, (∀ request ∈ requests, request.deletes scope = false) →
    exec step after requests = some later →
      getCryptoKeyById later false made.1 = .ok (some made.2)
  again : ∀ requests later, (∀ request ∈ requests, request.deletes scope = false) →
    exec step after requests = some later → ∀ fails fresh, fails 0 = false →
      createCryptoKey later fails scope fresh = (later, .ok made)

structure KeyLaws (keys : KeyTable) : Prop where
  oneLive : ∀ a ∈ keys, ∀ b ∈ keys, a.live = true → b.live = true → a.scope = b.scope → a = b
  kept : ∀ fails scope fresh made, fails 0 = false →
    getCryptoKey keys false scope = .ok (some made) →
    createCryptoKey keys fails scope fresh = (keys, .ok made)
  creation : ∀ fails scope fresh after made,
    createCryptoKey keys fails scope fresh = (after, .ok made) → Creation after scope made
  deletion : ∀ scope now after, deleteCryptoKey keys false scope now = (after, .ok ()) →
    Deletion keys after scope

/-- A row has a key exactly while it is not deleted. -/
def Sound (keys : KeyTable) : Prop := ∀ row ∈ keys, row.live = row.key.isSome

section lookups
variable {keys : KeyTable} {scope : String} {id : Uuid} {key : CryptoKey}

theorem isScope_iff {row : KeyRow} :
    row.isScope scope = true ↔ row.scope = scope ∧ row.live = true := by
  simp [KeyRow.isScope]

theorem isId_iff {row : KeyRow} : row.isId id = true ↔ row.id = id ∧ row.live = true := by
  simp [KeyRow.isId]

theorem scope_row {row : KeyRow} : keys.find (KeyRow.isScope scope) = some row ↔
    row ∈ keys ∧ row.scope = scope ∧ row.live = true := by
  rw [Table.find_iff, isScope_iff]
  intro a b left right
  obtain ⟨sameA, liveA⟩ := isScope_iff.mp left
  obtain ⟨sameB, liveB⟩ := isScope_iff.mp right
  exact Or.inr ⟨liveA, liveB, sameA.trans sameB.symm⟩

theorem id_row {row : KeyRow} : keys.find (KeyRow.isId id) = some row ↔
    row ∈ keys ∧ row.id = id ∧ row.live = true := by
  rw [Table.find_iff, isId_iff]
  intro a b left right
  exact Or.inl ((isId_iff.mp left).1.trans (isId_iff.mp right).1.symm)

theorem sound_key (sound : Sound keys) {row : KeyRow} (member : row ∈ keys)
    (live : row.live = true) : ∃ key, row.key = some key := by
  apply Option.isSome_iff_exists.mp
  rw [← sound row member]
  exact live

theorem getCryptoKey_ok (sound : Sound keys) {found : Option (Uuid × CryptoKey)} :
    getCryptoKey keys false scope = .ok found ↔
      (keys.find (KeyRow.isScope scope)).bind
        (fun row => row.key.map fun key => (row.id, key)) = found := by
  unfold getCryptoKey
  cases looked : keys.find (KeyRow.isScope scope) with
  | none => simp [attempt, bind, Except.bind]
  | some row =>
    obtain ⟨member, _, live⟩ := scope_row.mp looked
    obtain ⟨key, held⟩ := sound_key sound member live
    simp [attempt, bind, Except.bind, keyColumn, held, Except.map]

theorem getCryptoKey_some (sound : Sound keys) :
    getCryptoKey keys false scope = .ok (some (id, key)) ↔
      ∃ row ∈ keys, row.scope = scope ∧ row.live = true ∧ row.id = id ∧ row.key = some key := by
  rw [getCryptoKey_ok sound, Option.bind_eq_some_iff]
  constructor
  · intro found
    obtain ⟨row, looked, made⟩ := found
    obtain ⟨other, held, same⟩ := Option.map_eq_some_iff.mp made
    obtain ⟨rfl, rfl⟩ := Prod.mk.inj same
    obtain ⟨member, inScope, live⟩ := scope_row.mp looked
    exact ⟨row, member, inScope, live, rfl, held⟩
  · intro listed
    obtain ⟨row, member, inScope, live, rfl, held⟩ := listed
    exact ⟨row, scope_row.mpr ⟨member, inScope, live⟩, by rw [held]; rfl⟩

theorem getCryptoKey_answered {failed : Bool} {found : Option (Uuid × CryptoKey)}
    (answered : getCryptoKey keys failed scope = .ok found) :
    failed = false ∧ getCryptoKey keys false scope = .ok found := by
  cases failed with
  | false => exact ⟨rfl, answered⟩
  | true => exact absurd answered (by simp [getCryptoKey, attempt, bind, Except.bind])

theorem getCryptoKeyById_answered {failed : Bool}
    (answered : getCryptoKeyById keys failed id = .ok (some key)) :
    ∃ row ∈ keys, row.id = id ∧ row.live = true := by
  unfold getCryptoKeyById at answered
  obtain ⟨looked, found, rest⟩ := do_ok.mp answered
  obtain ⟨_, same⟩ := attempt_ok.mp found
  obtain rfl := Except.ok.inj same
  cases here : keys.find (KeyRow.isId id) with
  | none =>
    rw [here] at rest
    exact absurd rest (by simp)
  | some row =>
    obtain ⟨member, own, live⟩ := id_row.mp here
    exact ⟨row, member, own, live⟩

theorem createCryptoKey_cases (fails : Failures) (fresh : Uuid × CryptoKey) :
    (∃ err, createCryptoKey keys fails scope fresh = (keys, .error err)) ∨
    (∃ made, getCryptoKey keys false scope = .ok (some made) ∧
      createCryptoKey keys fails scope fresh = (keys, .ok made)) ∨
    ∃ after, getCryptoKey keys false scope = .ok none ∧
      keys.insert ⟨fresh.1, scope, some fresh.2, none⟩ = some after ∧
      createCryptoKey keys fails scope fresh = (after, .ok fresh) := by
  unfold createCryptoKey transaction
  split
  · rename_i t a body
    obtain ⟨looked, answered, rest⟩ := do_ok.mp body
    obtain ⟨_, answered⟩ := getCryptoKey_answered answered
    cases looked with
    | some made =>
      obtain ⟨rfl, rfl⟩ := Prod.mk.inj (Except.ok.inj rest)
      exact Or.inr (Or.inl ⟨made, answered, rfl⟩)
    | none =>
      obtain ⟨inserted, done, rest⟩ := do_ok.mp rest
      obtain ⟨_, same⟩ := attempt_ok.mp done
      obtain rfl := Except.ok.inj same
      cases put : keys.insert ⟨fresh.1, scope, some fresh.2, none⟩ with
      | none =>
        rw [put] at rest
        exact absurd rest (by simp)
      | some after =>
        rw [put] at rest
        obtain ⟨rfl, rfl⟩ := Prod.mk.inj (Except.ok.inj rest)
        exact Or.inr (Or.inr ⟨after, answered, rfl, rfl⟩)
  · exact Or.inl ⟨_, rfl⟩

def wipe (scope : String) (now : Int) (row : KeyRow) : KeyRow :=
  if row.isScope scope then { row with key := none, deletedAt := some now } else row

theorem wipe_id (now : Int) (row : KeyRow) : (wipe scope now row).id = row.id := by
  unfold wipe
  split
  · rfl
  · rfl

theorem wipe_live {now : Int} {row : KeyRow} (live : (wipe scope now row).live = true) :
    row.isScope scope = false ∧ wipe scope now row = row := by
  unfold wipe at live ⊢
  by_cases own : row.isScope scope = true
  · rw [if_pos own] at live
    exact absurd live (by simp [KeyRow.live])
  · exact ⟨Bool.eq_false_iff.mpr own, if_neg own⟩

theorem deleteCryptoKey_wipes (keys : KeyTable) (scope : String) (now : Int) :
    ∃ after, deleteCryptoKey keys false scope now = (after, .ok ()) ∧
      after.rows = keys.rows.map (wipe scope now) := by
  have calm : ∀ a b : KeyRow, KeyRow.Clash (wipe scope now a) (wipe scope now b) →
      KeyRow.Clash a b := by
    intro a b clash
    rcases clash with same | both
    · rw [wipe_id, wipe_id] at same
      exact Or.inl same
    · obtain ⟨_, keptA⟩ := wipe_live both.1
      obtain ⟨_, keptB⟩ := wipe_live both.2.1
      rw [keptA, keptB] at both
      exact Or.inr both
  obtain ⟨after, updated, rows⟩ := Table.update_calm (t := keys) calm
  refine ⟨after, ?_, rows⟩
  unfold deleteCryptoKey
  rw [updated]
  rfl

theorem deleteCryptoKey_cases (failed : Bool) (now : Int) :
    (∃ err, deleteCryptoKey keys failed scope now = (keys, .error err)) ∨
    ∃ after, deleteCryptoKey keys failed scope now = (after, .ok ()) ∧
      after.rows = keys.rows.map (wipe scope now) := by
  cases failed with
  | true => exact Or.inl ⟨diskError, rfl⟩
  | false => exact Or.inr (deleteCryptoKey_wipes keys scope now)

end lookups

section histories
variable {keys after later : KeyTable} {scope : String} {id : Uuid} {now : Int}

theorem mem_wiped (rows : after.rows = keys.rows.map (wipe scope now)) {x : KeyRow} :
    x ∈ after ↔ ∃ row ∈ keys, wipe scope now row = x := by
  show x ∈ after.rows ↔ _
  rw [rows, List.mem_map]
  exact Iff.rfl

theorem sound_wiped (sound : Sound keys) (rows : after.rows = keys.rows.map (wipe scope now)) :
    Sound after := by
  intro x member
  obtain ⟨row, old, rfl⟩ := (mem_wiped rows).mp member
  unfold wipe
  split
  · rfl
  · exact sound row old

theorem sound_inserted {row : KeyRow} (sound : Sound keys) (inserted : keys.insert row = some after)
    (whole : row.live = row.key.isSome) : Sound after := by
  intro x member
  rcases ((Table.insert_some inserted).1 x).mp member with old | rfl
  · exact sound x old
  · exact whole

theorem sound_step {request : Request} (sound : Sound keys)
    (taken : step keys request = some after) : Sound after := by
  obtain rfl := Option.some.inj taken
  cases request with
  | create fails scope fresh =>
    rw [handle]
    rcases createCryptoKey_cases fails fresh with ⟨_, made⟩ | ⟨_, _, made⟩ | ⟨_, _, inserted, made⟩
    · rw [made]
      exact sound
    · rw [made]
      exact sound
    · rw [made]
      exact sound_inserted sound inserted rfl
  | get failed scope => exact sound
  | getById failed id => exact sound
  | delete failed scope now =>
    rw [handle]
    rcases deleteCryptoKey_cases failed now with ⟨_, deleted⟩ | ⟨_, deleted, rows⟩
    · rw [deleted]
      exact sound
    · rw [deleted]
      exact sound_wiped sound rows

def Dead (keys : KeyTable) (id : Uuid) : Prop := ∃ row ∈ keys, row.id = id ∧ row.live = false

theorem dead_step {request : Request} (dead : Dead keys id)
    (taken : step keys request = some after) : Dead after id := by
  obtain ⟨row, member, own, gone⟩ := dead
  obtain rfl := Option.some.inj taken
  cases request with
  | create fails scope fresh =>
    rw [handle]
    rcases createCryptoKey_cases fails fresh with ⟨_, made⟩ | ⟨_, _, made⟩ | ⟨_, _, inserted, made⟩
    · rw [made]
      exact ⟨row, member, own, gone⟩
    · rw [made]
      exact ⟨row, member, own, gone⟩
    · rw [made]
      exact ⟨row, ((Table.insert_some inserted).1 row).mpr (Or.inl member), own, gone⟩
  | get failed scope => exact ⟨row, member, own, gone⟩
  | getById failed id => exact ⟨row, member, own, gone⟩
  | delete failed scope now =>
    rw [handle]
    rcases deleteCryptoKey_cases failed now with ⟨_, deleted⟩ | ⟨_, deleted, rows⟩
    · rw [deleted]
      exact ⟨row, member, own, gone⟩
    · rw [deleted]
      have kept : wipe scope now row = row := if_neg (by simp [KeyRow.isScope, gone])
      exact ⟨row, (mem_wiped rows).mpr ⟨row, member, kept⟩, own, gone⟩

theorem dead_hidden (sound : Sound keys) (dead : Dead keys id) (request : Request) :
    ¬ Reveals keys id request := by
  obtain ⟨row, member, own, gone⟩ := dead
  have hidden : ∀ other ∈ keys, other.id = id → other.live = true → False := by
    intro other there same live
    obtain rfl := Table.eq_of_clash there member (Or.inl (same.trans own.symm))
    exact absurd (live.symm.trans gone) (by simp)
  have noScope : ∀ scope key, getCryptoKey keys false scope ≠ .ok (some (id, key)) := by
    intro scope key found
    obtain ⟨other, there, _, live, same, _⟩ := (getCryptoKey_some sound).mp found
    exact hidden other there same live
  intro reveals
  cases request with
  | create fails scope fresh =>
    obtain ⟨key, revealed⟩ := reveals
    rcases createCryptoKey_cases fails fresh with ⟨_, made⟩ | ⟨_, found, made⟩ |
      ⟨_, _, inserted, made⟩
    · rw [made] at revealed
      exact absurd revealed (by simp)
    · rw [made] at revealed
      rw [Except.ok.inj revealed] at found
      exact noScope scope key found
    · rw [made] at revealed
      have fresh := (Table.insert_some inserted).2 row member
      rw [Except.ok.inj revealed] at fresh
      exact fresh (Or.inl own)
  | get failed scope =>
    obtain ⟨key, revealed⟩ := reveals
    exact noScope scope key (getCryptoKey_answered revealed).2
  | getById failed other =>
    obtain ⟨rfl, key, revealed⟩ := reveals
    obtain ⟨found, there, same, live⟩ := getCryptoKeyById_answered revealed
    exact hidden found there same live
  | delete failed scope now => exact reveals

theorem dead_of_deleted (sound : Sound keys) {key : CryptoKey}
    (found : getCryptoKey keys false scope = .ok (some (id, key)))
    (rows : after.rows = keys.rows.map (wipe scope now)) : Dead after id := by
  obtain ⟨row, member, inScope, live, rfl, _⟩ := (getCryptoKey_some sound).mp found
  refine ⟨wipe scope now row, (mem_wiped rows).mpr ⟨row, member, rfl⟩, wipe_id now row, ?_⟩
  rw [wipe, if_pos (isScope_iff.mpr ⟨inScope, live⟩)]
  rfl

theorem later_hidden (sound : Sound keys) (dead : Dead keys id) {requests : List Request}
    (run : exec step keys requests = some later) (request : Request) :
    ¬ Reveals later id request :=
  dead_hidden (invariant sound_step sound run) (invariant dead_step dead run) request

theorem find_wiped {p : KeyRow → Bool} (rows : after.rows = keys.rows.map (wipe scope now))
    (apart : ∀ row ∈ keys, row.isScope scope = true → p row = false)
    (live : ∀ row, p row = true → row.live = true) : after.find p = keys.find p := by
  apply Table.find_mapped rows
  · intro row member
    by_cases own : row.isScope scope = true
    · rw [apart row member own]
      apply Bool.eq_false_iff.mpr
      intro passes
      have dead := live _ passes
      rw [wipe, if_pos own] at dead
      exact absurd dead (by simp [KeyRow.live])
    · rw [wipe, if_neg own]
  · intro row member passes
    apply if_neg
    intro own
    rw [apart row member own] at passes
    exact absurd passes (by simp)

theorem deletion_of_sound (sound : Sound keys)
    (deleted : deleteCryptoKey keys false scope now = (after, .ok ())) :
    Deletion keys after scope := by
  have rows : after.rows = keys.rows.map (wipe scope now) := by
    obtain ⟨other, done, rows⟩ := deleteCryptoKey_wipes keys scope now
    rw [done] at deleted
    rw [← (Prod.mk.inj deleted).1]
    exact rows
  constructor
  · intro id key found requests later run request
    exact later_hidden (sound_wiped sound rows) (dead_of_deleted sound found rows) run request
  · intro id key found requests later run fails fresh made created same
    apply later_hidden (sound_wiped sound rows) (dead_of_deleted sound found rows) run
      (.create fails scope fresh)
    exact ⟨made.2, by rw [created, ← same]⟩
  · intro other different failed
    unfold getCryptoKey
    rw [find_wiped rows]
    · intro row _ own
      have inScope := (isScope_iff.mp own).1
      simp [KeyRow.isScope, inScope, Ne.symm different]
    · exact fun row passes => (isScope_iff.mp passes).2
  · intro id unheld failed
    unfold getCryptoKeyById
    rw [find_wiped rows]
    · intro row member own
      obtain ⟨inScope, live⟩ := isScope_iff.mp own
      obtain ⟨key, held⟩ := sound_key sound member live
      apply Bool.eq_false_iff.mpr
      intro passes
      apply unheld key
      exact (getCryptoKey_some sound).mpr ⟨row, member, inScope, live, (isId_iff.mp passes).1, held⟩
    · exact fun row passes => (isId_iff.mp passes).2

def Held (keys : KeyTable) (scope : String) (made : Uuid × CryptoKey) : Prop :=
  ∃ row ∈ keys, row.scope = scope ∧ row.live = true ∧ row.id = made.1 ∧ row.key = some made.2

theorem held_step {made : Uuid × CryptoKey} {request : Request} (held : Held keys scope made)
    (kept : request.deletes scope = false) (taken : step keys request = some after) :
    Held after scope made := by
  obtain ⟨row, member, own, live, same⟩ := held
  obtain rfl := Option.some.inj taken
  cases request with
  | create fails other fresh =>
    rw [handle]
    rcases createCryptoKey_cases fails fresh with ⟨_, done⟩ | ⟨_, _, done⟩ | ⟨_, _, inserted, done⟩
    · rw [done]
      exact ⟨row, member, own, live, same⟩
    · rw [done]
      exact ⟨row, member, own, live, same⟩
    · rw [done]
      exact ⟨row, ((Table.insert_some inserted).1 row).mpr (Or.inl member), own, live, same⟩
  | get failed other => exact ⟨row, member, own, live, same⟩
  | getById failed id => exact ⟨row, member, own, live, same⟩
  | delete failed other now =>
    rw [handle]
    rcases deleteCryptoKey_cases failed now with ⟨_, deleted⟩ | ⟨_, deleted, rows⟩
    · rw [deleted]
      exact ⟨row, member, own, live, same⟩
    · cases failed with
      | true => exact absurd deleted (by simp [deleteCryptoKey, transaction, attempt, bind,
          Except.bind])
      | false =>
        have apart : scope ≠ other := by
          rintro rfl
          simp [Request.deletes] at kept
        rw [deleted]
        have stays : wipe other now row = row := if_neg (by simp [KeyRow.isScope, own, apart])
        exact ⟨row, (mem_wiped rows).mpr ⟨row, member, stays⟩, own, live, same⟩

theorem held_of_created {fails : Failures} {fresh made : Uuid × CryptoKey} (sound : Sound keys)
    (created : createCryptoKey keys fails scope fresh = (after, .ok made)) :
    Held after scope made := by
  rcases @createCryptoKey_cases keys scope fails fresh with
    ⟨_, done⟩ | ⟨_, found, done⟩ | ⟨_, _, inserted, done⟩
  · exact absurd (done.symm.trans created) (by simp)
  · obtain ⟨rfl, same⟩ := Prod.mk.inj (done.symm.trans created)
    obtain rfl := Except.ok.inj same
    exact (getCryptoKey_some sound).mp found
  · obtain ⟨rfl, same⟩ := Prod.mk.inj (done.symm.trans created)
    obtain rfl := Except.ok.inj same
    exact ⟨_, ((Table.insert_some inserted).1 _).mpr (Or.inr rfl), rfl, rfl, rfl, rfl⟩

theorem getCryptoKeyById_held {made : Uuid × CryptoKey} (held : Held keys scope made) :
    getCryptoKeyById keys false made.1 = .ok (some made.2) := by
  obtain ⟨row, member, _, live, own, key⟩ := held
  have looked : keys.find (KeyRow.isId made.1) = some row := id_row.mpr ⟨member, own, live⟩
  simp [getCryptoKeyById, attempt, bind, Except.bind, looked, keyColumn, key, Except.map]

theorem createCryptoKey_kept {fails : Failures} {made : Uuid × CryptoKey}
    (first : fails 0 = false) (found : getCryptoKey keys false scope = .ok (some made))
    (fresh : Uuid × CryptoKey) : createCryptoKey keys fails scope fresh = (keys, .ok made) := by
  unfold createCryptoKey
  rw [first, found]
  rfl

theorem creation_of_sound {fails : Failures} {fresh made : Uuid × CryptoKey} (sound : Sound keys)
    (created : createCryptoKey keys fails scope fresh = (after, .ok made)) :
    Creation after scope made := by
  have soundAfter : Sound after := by
    have taken : step keys (.create fails scope fresh) = some after := by
      rw [step, handle, created]
    exact sound_step sound taken
  have stays : ∀ requests later, (∀ request ∈ requests, request.deletes scope = false) →
      exec step after requests = some later →
      Held later scope made ∧ getCryptoKey later false scope = .ok (some made) := by
    intro requests later kept run
    have met : Meets step (fun _ request => request.deletes scope = false) after requests :=
      meets_of_mem (fun _ request member => kept request member) after
    have held : Held later scope made := guarded_invariant
      (fun held kept taken => held_step held kept taken) (held_of_created sound created) run met
    exact ⟨held, (getCryptoKey_some (invariant sound_step soundAfter run)).mpr held⟩
  constructor
  · exact fun requests later kept run => (stays requests later kept run).2
  · exact fun requests later kept run => getCryptoKeyById_held (stays requests later kept run).1
  · intro requests later kept run fails fresh first
    exact createCryptoKey_kept first (stays requests later kept run).2 fresh

theorem keyLaws_of_sound (sound : Sound keys) : KeyLaws keys where
  oneLive := fun _ left _ right liveA liveB same =>
    Table.eq_of_clash left right (Or.inr ⟨liveA, liveB, same⟩)
  kept := fun _ _ fresh _ first found => createCryptoKey_kept first found fresh
  creation := fun _ _ _ _ _ created => creation_of_sound sound created
  deletion := fun _ _ _ deleted => deletion_of_sound sound deleted

/-- Whatever requests came before, and whatever is random in them. -/
theorem keys_permanent_and_unique (requests : List Request) :
    Always step KeyLaws Table.empty requests := by
  have met : Meets step (fun _ _ => True) Table.empty requests :=
    meets_of_mem (fun _ _ _ => trivial) _
  have start : Sound Table.empty := fun row member => absurd member Table.not_mem_empty
  exact always_of_meets (fun sound _ taken => sound_step sound taken) keyLaws_of_sound start met

def createOne : Request := .create .never "user:1" (9, 7)

/-- Created, looked up, deleted and created again: the laws hold at each state, the first key
    is found while its scope lives, and the second has another identifier. -/
theorem renewed_after_deletion :
    Always step KeyLaws Table.empty
        [createOne, .delete false "user:1" 5, .create .never "user:1" (10, 8)] ∧
      (exec step Table.empty [createOne]).map
        (fun keys => (getCryptoKey keys false "user:1").toOption) = some (some (some (9, 7))) ∧
      (exec step Table.empty
        [createOne, .delete false "user:1" 5, .create .never "user:1" (10, 8)]).map
        (fun keys => ((getCryptoKey keys false "user:1").toOption,
          (getCryptoKeyById keys false 9).toOption)) = some (some (some (10, 8)), some none) :=
  ⟨keys_permanent_and_unique _, by decide +kernel, by decide +kernel⟩

end histories

section refinement
open UmariCryptoKeys (KeyRequest handleRequest)
variable {keys : KeyTable} {old : UmariCryptoKeys.CryptoKeys} {scope : String}

def plain (row : KeyRow) : UmariCryptoKeys.KeyRow := ⟨row.id, row.scope, row.key⟩

structure Matches (keys : KeyTable) (old : UmariCryptoKeys.CryptoKeys) : Prop where
  sound : Sound keys
  rows : old.rows = keys.rows.map plain

def Request.of (now : Int) : KeyRequest → Request
  | .create scope fresh => .create .never scope fresh
  | .delete scope => .delete false scope now

theorem matches_lookup (same : Matches keys old) (scope : String) :
    getCryptoKey keys false scope = .ok (UmariCryptoKeys.getCryptoKey old scope) := by
  rw [getCryptoKey_ok same.sound, UmariCryptoKeys.getCryptoKey, same.rows, List.find?_map]
  have found : keys.rows.find? (KeyRow.isScope scope) = keys.rows.find?
      ((fun row : UmariCryptoKeys.KeyRow => decide (row.scope = scope) && row.active) ∘ plain) := by
    apply List.find?_congr
    intro row member
    rw [KeyRow.isScope, same.sound row member]
    rfl
  rw [← found, Table.find]
  cases keys.rows.find? (KeyRow.isScope scope) with
  | none => rfl
  | some row => rfl

theorem create_clash (free : getCryptoKey keys false scope = .ok none) (sound : Sound keys)
    (fresh : Uuid × CryptoKey) :
    (∀ row ∈ keys, ¬ KeyRow.Clash row ⟨fresh.1, scope, some fresh.2, none⟩) ↔
      ∀ row ∈ keys, row.id ≠ fresh.1 := by
  constructor
  · exact fun apart row member same => apart row member (Or.inl same)
  · intro unused row member clash
    rcases clash with same | ⟨live, _, inScope⟩
    · exact unused row member same
    · obtain ⟨key, held⟩ := sound_key sound member live
      have found := (getCryptoKey_some sound).mpr ⟨row, member, inScope, live, rfl, held⟩
      exact absurd (free.symm.trans found) (by simp)

theorem matches_create {fresh : Uuid × CryptoKey} (same : Matches keys old) :
    Matches (createCryptoKey keys .never scope fresh).1
      (handleRequest old (.create scope fresh)) := by
  have looked := matches_lookup same scope
  have unused : (∀ row ∈ old.rows, row.id ≠ fresh.1) ↔ ∀ row ∈ keys, row.id ≠ fresh.1 := by
    rw [same.rows]
    exact List.forall_mem_map
  have rows := UmariCryptoKeys.create_rows old scope fresh
  rcases createCryptoKey_cases .never fresh with ⟨err, made⟩ | ⟨_, found, made⟩ |
    ⟨after, free, inserted, made⟩
  · rw [made]
    refine ⟨same.sound, ?_⟩
    rw [rows, if_neg, same.rows]
    intro fine
    have free : getCryptoKey keys false scope = .ok none := looked.trans (congrArg Except.ok fine.1)
    obtain ⟨after, inserted⟩ := Table.insert_free
      ((create_clash free same.sound fresh).mpr (unused.mp fine.2))
    unfold createCryptoKey at made
    rw [Failures.never_fails, free, inserted] at made
    exact absurd (Prod.mk.inj made).2 (by simp)
  · rw [made]
    refine ⟨same.sound, ?_⟩
    rw [rows, if_neg, same.rows]
    intro fine
    rw [looked, fine.1] at found
    exact absurd found (by simp)
  · rw [made]
    refine ⟨sound_inserted same.sound inserted rfl, ?_⟩
    obtain ⟨grown, apart⟩ := Table.insert_rows inserted
    rw [rows, if_pos, same.rows]
    · rw [grown, List.map_append]
      rfl
    · exact ⟨Except.ok.inj (looked.symm.trans free),
        unused.mpr ((create_clash free same.sound fresh).mp apart)⟩

theorem matches_delete {now : Int} (same : Matches keys old) :
    Matches (deleteCryptoKey keys false scope now).1 (handleRequest old (.delete scope)) := by
  obtain ⟨after, deleted, rows⟩ := deleteCryptoKey_wipes keys scope now
  rw [deleted]
  refine ⟨sound_wiped same.sound rows, ?_⟩
  show old.rows.map (UmariCryptoKeys.KeyRow.wipe scope) = _
  rw [same.rows, rows, List.map_map, List.map_map]
  apply List.map_congr_left
  intro row member
  have live := same.sound row member
  rw [Function.comp_apply, Function.comp_apply, wipe, UmariCryptoKeys.KeyRow.wipe, KeyRow.isScope,
    live]
  by_cases inScope : row.scope = scope
  · cases held : row.key with
    | none => simp [plain, inScope, held]
    | some key => simp [plain, inScope]
  · simp [plain, inScope]

theorem matches_requests (same : Matches keys old) (now : Int) (requests : List KeyRequest) :
    Matches ((requests.map (Request.of now)).foldl handle keys)
      (requests.foldl handleRequest old) := by
  induction requests generalizing keys old with
  | nil => exact same
  | cons request rest ih =>
    apply ih
    cases request with
    | create scope fresh => exact matches_create same
    | delete scope => exact matches_delete same

end refinement

end UmariKeyHistories
