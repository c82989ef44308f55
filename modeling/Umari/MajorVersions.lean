import Umari.GuardedRuns
import Umari.StateDatabases

/-!
Which starts the contents of a state database come from. An actor starts statement by
statement and may stop after each of them: it reads the stored version, removes a file of
another major version, makes the row, and only then runs the module. Actors of the name
run one after the other. A removal succeeds, and nothing of a removed file comes back.
-/
namespace UmariMajorVersions
open GuardedRuns UmariStateDatabases
variable {W : Type}

structure Start where
  number : Nat
  version : Version
deriving DecidableEq, Repr

inductive Change (W : Type) where
  | statement (sql : W)
  | lastPosition (position : Nat)
deriving DecidableEq, Repr

structure Write (W : Type) where
  start : Start
  change : Change W
deriving DecidableEq, Repr

def Write.position (w : Write W) : Option Nat :=
  match w.change with
  | .statement _ => none
  | .lastPosition position => some position

/-- The row of the runtime and what was committed to the file, in order. -/
abbrev StateDb (W : Type) := Database (List (Write W))

/-- How far an actor has come in `on_start`. -/
inductive Phase where
  | opened
  | initialized
  | checked (storedMajor : Option Nat)
  | removed
  | ready
  | named
  | constructing (lastPosition : Option Nat)
  | running (lastPosition : Option Nat)
deriving DecidableEq, Repr

/-- The statements of the transaction that is open, not committed yet, are `pending`. -/
structure ModuleActor (W : Type) where
  start : Start
  phase : Phase
  pending : List W
deriving DecidableEq, Repr

/-- There is no `file` while the path has none, or one without the table. Of all `starts`,
    those `past` the check have compared the stored major version with theirs, and have
    removed the file where it differs. -/
structure System (W : Type) where
  file : Option (StateDb W)
  actor : Option (ModuleActor W)
  starts : List Start
  past : List Start
deriving DecidableEq, Repr

def initial : System W := ⟨none, none, [], []⟩

def initSql (file : Option (StateDb W)) : StateDb W := file.getD ⟨none, []⟩

def storedMajor (db : StateDb W) : Option Nat := db.row.map (·.version.major)

def commitStatements (start : Start) (statements : List W) (db : StateDb W) : StateDb W :=
  { db with tables := db.tables ++ statements.map fun sql => ⟨start, .statement sql⟩ }

def onStart (name : String) (s : System W) (a : ModuleActor W) : Option (System W) :=
  match a.phase with
  | .opened => some { s with
      file := some (initSql s.file)
      actor := some { a with phase := .initialized } }
  | .initialized => some { s with
      actor := some { a with phase := .checked (s.file.bind storedMajor) } }
  | .checked stored =>
    if stored.any fun major => decide (major ≠ a.start.version.major) then some { s with
      file := none
      actor := some { a with phase := .removed }
      past := s.past ++ [a.start] }
    else some { s with
      actor := some { a with phase := .ready }
      past := s.past ++ [a.start] }
  | .removed => some { s with
      file := some (initSql s.file)
      actor := some { a with phase := .ready } }
  | .ready => some { s with
      file := s.file.map fun db =>
        { db with row := some (upsertMeta name a.start.version db.row) }
      actor := some { a with phase := .named } }
  | .named => some { s with
      actor := some { a with
        phase := .constructing (s.file.bind fun db => storedPosition db.row) } }
  | .constructing last => some { s with
      file := s.file.map (commitStatements a.start a.pending)
      actor := some { a with phase := .running last, pending := [] } }
  | .running _ => none

inductive Action (W : Type) where
  | start (version : Version)
  | next
  | execute (sql : W)
  | persist (position : Nat)
  | worker (statements : List W)
  | crash
deriving DecidableEq, Repr

def executeStep (s : System W) (a : ModuleActor W) (sql : W) : Option (System W) :=
  match a.phase with
  | .constructing _ | .running _ =>
    some { s with actor := some { a with pending := a.pending ++ [sql] } }
  | _ => none

/-- The end of a batch, and of an acknowledgement: the position is compared, set and
    committed. The actor stops when the comparison fails. -/
def persistStep (s : System W) (a : ModuleActor W) (position : Nat) : Option (System W) :=
  match a.phase, s.file with
  | .running last, some db =>
    if last = some position then some s
    else
      match updateLastPosition position last db.row with
      | none => some { s with actor := none }
      | some row =>
        let db := commitStatements a.start a.pending db
        some { s with
          file := some ⟨row, db.tables ++ [⟨a.start, .lastPosition position⟩]⟩
          actor := some { a with phase := .running (some position), pending := [] } }
  | _, _ => none

/-- A worker commits on its own connection, which the parent's open changes would block. -/
def workerStep (s : System W) (a : ModuleActor W) (statements : List W) : Option (System W) :=
  match a.phase with
  | .running _ =>
    if a.pending.isEmpty then
      some { s with file := s.file.map (commitStatements a.start statements) }
    else none
  | _ => none

def step (name : String) (s : System W) : Action W → Option (System W)
  | .start version =>
    if s.actor.isSome then none
    else
      let start : Start := ⟨s.starts.length, version⟩
      some { s with actor := some ⟨start, .opened, []⟩, starts := s.starts ++ [start] }
  | .next => s.actor.bind (onStart name s)
  | .execute sql => s.actor.bind fun a => executeStep s a sql
  | .persist position => s.actor.bind fun a => persistStep s a position
  | .worker statements => s.actor.bind fun a => workerStep s a statements
  | .crash => some { s with actor := none }

/-- The write was made by a start of the major version of this one, after every start of
    another major version. -/
def MadeSince (earlier : List Start) (current : Start) (w : Write W) : Prop :=
  w.start.version.major = current.version.major ∧
    ∀ other ∈ earlier, other.version.major ≠ current.version.major → other.number < w.start.number

/-- What an actor that has started finds in its database: every write was made since, and
    the position it holds is that of the last write of it. -/
structure FoundSince (earlier : List Start) (current : Start) (last : Option Nat)
    (db : StateDb W) : Prop where
  writes : ∀ w ∈ db.tables, MadeSince earlier current w
  position : storedPosition db.row = (db.tables.filterMap Write.position).getLast?
  held : last = storedPosition db.row

def IsolatedSince (earlier : List Start) (s : System W) : Prop :=
  ∀ a last db, s.actor = some a → a.phase = .running last → s.file = some db →
    FoundSince earlier a.start last db

section databases
variable {past : List Start} {start : Start} {db : StateDb W}

structure DbInv (past : List Start) (db : StateDb W) : Prop where
  writes : ∀ w ∈ db.tables, storedMajor db = some w.start.version.major ∧
    ∀ other ∈ past, other.version.major ≠ w.start.version.major → other.number < w.start.number
  position : storedPosition db.row = (db.tables.filterMap Write.position).getLast?

theorem dbInv_new : DbInv past (⟨none, []⟩ : StateDb W) where
  writes := fun _ member => absurd member List.not_mem_nil
  position := rfl

theorem dbInv_initSql {file : Option (StateDb W)} (held : ∀ db, file = some db → DbInv past db) :
    DbInv past (initSql file) := by
  cases file with
  | none => exact dbInv_new
  | some db => exact held db rfl

theorem dbInv_append {writes : List (Write W)} {row : Option MetaRow} (held : DbInv past db)
    (kept : row.map (·.version.major) = db.row.map (·.version.major))
    (position : storedPosition row =
      ((db.tables ++ writes).filterMap Write.position).getLast?)
    (major : storedMajor db = some start.version.major)
    (newest : ∀ other ∈ past, other = start ∨ other.number < start.number)
    (own : ∀ w ∈ writes, w.start = start) : DbInv past ⟨row, db.tables ++ writes⟩ := by
  have same : storedMajor (⟨row, db.tables ++ writes⟩ : StateDb W) = storedMajor db := kept
  constructor
  · intro w member
    rw [same]
    rcases List.mem_append.mp member with old | new
    · exact held.writes w old
    · rw [own w new]
      constructor
      · exact major
      · intro other passed differs
        rcases newest other passed with rfl | before
        · exact absurd rfl differs
        · exact before
  · exact position

theorem dbInv_commit (held : DbInv past db) (major : storedMajor db = some start.version.major)
    (newest : ∀ other ∈ past, other = start ∨ other.number < start.number)
    (statements : List W) : DbInv past (commitStatements start statements db) := by
  apply dbInv_append held rfl _ major newest
  · intro w member
    obtain ⟨sql, _, rfl⟩ := List.mem_map.mp member
    rfl
  · have silent : (statements.map fun sql => (⟨start, .statement sql⟩ : Write W)).filterMap
        Write.position = [] := by
      rw [List.filterMap_eq_nil_iff]
      intro w member
      obtain ⟨sql, _, rfl⟩ := List.mem_map.mp member
      rfl
    rw [List.filterMap_append, silent, List.append_nil]
    exact held.position

theorem dbInv_persist {position : Nat} {last : Option Nat} {row : Option MetaRow}
    (held : DbInv past db) (major : storedMajor db = some start.version.major)
    (newest : ∀ other ∈ past, other = start ∨ other.number < start.number)
    (updated : updateLastPosition position last db.row = some row) :
    DbInv past ⟨row, db.tables ++ [⟨start, .lastPosition position⟩]⟩ := by
  apply dbInv_append held (updateLastPosition_major updated) _ major newest
  · intro w member
    rw [List.mem_singleton.mp member]
  · rw [(updateLastPosition_some updated).2.1, List.filterMap_append]
    exact List.getLast?_concat.symm

theorem dbInv_upsert (held : DbInv past db)
    (agrees : ∀ major, storedMajor db = some major → major = start.version.major)
    (name : String) :
    DbInv past { db with row := some (upsertMeta name start.version db.row) } := by
  constructor
  · intro w member
    obtain ⟨stored, since⟩ := held.writes w member
    refine ⟨?_, since⟩
    rw [agrees _ stored]
    exact congrArg some (upsertMeta_major name start.version db.row)
  · rw [upsertMeta_position]
    exact held.position

theorem dbInv_past (held : DbInv past db)
    (agrees : ∀ major, storedMajor db = some major → major = start.version.major) :
    DbInv (past ++ [start]) db := by
  constructor
  · intro w member
    obtain ⟨stored, since⟩ := held.writes w member
    refine ⟨stored, ?_⟩
    intro other passed differs
    rcases List.mem_append.mp passed with old | new
    · exact since other old differs
    · rw [List.mem_singleton.mp new, agrees _ stored] at differs
      exact absurd rfl differs
  · exact held.position

end databases

section starts
variable {name : String} {s t : System W} {a : ModuleActor W}

def Secured (file : Option (StateDb W)) (start : Start) : Phase → Prop
  | .opened | .initialized => True
  | .checked stored => stored = file.bind storedMajor
  | .removed => file = none
  | .ready => ∀ db, file = some db →
    ∀ major, storedMajor db = some major → major = start.version.major
  | .named => ∀ db, file = some db → storedMajor db = some start.version.major
  | .constructing last | .running last => ∀ db, file = some db →
    storedMajor db = some start.version.major ∧ last = storedPosition db.row

structure ActorInv (s : System W) (a : ModuleActor W) : Prop where
  secured : Secured s.file a.start a.phase
  newest : ∀ other ∈ s.past, other = a.start ∨ other.number < a.start.number
  counted : a.start.number < s.starts.length

structure Inv (s : System W) : Prop where
  files : ∀ db, s.file = some db → DbInv s.past db
  actors : ∀ a, s.actor = some a → ActorInv s a
  counted : ∀ other ∈ s.past, other.number < s.starts.length

theorem inv_within {file : Option (StateDb W)} {phase : Phase} {pending : List W} (inv : Inv s)
    (live : s.actor = some a) (files : ∀ db, file = some db → DbInv s.past db)
    (secured : Secured file a.start phase) :
    Inv { s with file := file, actor := some { a with phase := phase, pending := pending } } := by
  obtain ⟨_, newest, counted⟩ := inv.actors a live
  constructor
  · exact files
  · intro other here
    cases here
    exact ⟨secured, newest, counted⟩
  · exact inv.counted

theorem inv_past {file : Option (StateDb W)} {phase : Phase} (inv : Inv s)
    (live : s.actor = some a) (files : ∀ db, file = some db → DbInv (s.past ++ [a.start]) db)
    (secured : Secured file a.start phase) :
    Inv { s with
      file := file
      actor := some { a with phase := phase }
      past := s.past ++ [a.start] } := by
  obtain ⟨_, newest, counted⟩ := inv.actors a live
  constructor
  · exact files
  · intro other here
    cases here
    refine ⟨secured, ?_, counted⟩
    intro other passed
    rcases List.mem_append.mp passed with old | new
    · exact newest other old
    · exact Or.inl (List.mem_singleton.mp new)
  · intro other passed
    rcases List.mem_append.mp passed with old | new
    · exact inv.counted other old
    · rw [List.mem_singleton.mp new]
      exact counted

theorem inv_stopped (inv : Inv s) : Inv { s with actor := none } where
  files := inv.files
  actors := fun _ here => absurd here (by simp)
  counted := inv.counted

theorem inv_start (inv : Inv s) (version : Version) :
    Inv { s with
      actor := some ⟨⟨s.starts.length, version⟩, .opened, []⟩
      starts := s.starts ++ [⟨s.starts.length, version⟩] } := by
  have longer : (s.starts ++ [⟨s.starts.length, version⟩] : List Start).length =
      s.starts.length + 1 := by
    rw [List.length_append, List.length_singleton]
  constructor
  · exact inv.files
  · intro a here
    cases here
    constructor
    · trivial
    · exact fun other passed => Or.inr (inv.counted other passed)
    · dsimp only
      omega
  · intro other passed
    have before := inv.counted other passed
    dsimp only
    omega

theorem inv_onStart (inv : Inv s) (live : s.actor = some a)
    (taken : onStart name s a = some t) : Inv t := by
  have secured := (inv.actors a live).secured
  unfold onStart at taken
  cases at_ : a.phase with
  | opened =>
    rw [at_] at taken
    cases taken
    apply inv_within inv live
    · intro db made
      cases made
      exact dbInv_initSql inv.files
    · trivial
  | initialized =>
    rw [at_] at taken
    cases taken
    exact inv_within inv live inv.files rfl
  | checked stored =>
    rw [at_] at taken secured
    dsimp only at taken
    split at taken
    · cases taken
      apply inv_past inv live
      · exact fun _ made => absurd made (by simp)
      · rfl
    · rename_i same
      have agrees : ∀ db, s.file = some db →
          ∀ major, storedMajor db = some major → major = a.start.version.major := by
        intro db held major found
        have known : stored = some major := by rw [secured, held, Option.bind_some, found]
        simpa [known] using same
      cases taken
      apply inv_past inv live
      · exact fun db held => dbInv_past (inv.files db held) (agrees db held)
      · exact agrees
  | removed =>
    rw [at_] at taken secured
    have gone : s.file = none := secured
    cases taken
    apply inv_within inv live
    · intro db made
      cases made
      exact dbInv_initSql inv.files
    · intro db made major found
      rw [gone] at made
      cases made
      exact absurd found (by simp [storedMajor, initSql])
  | ready =>
    rw [at_] at taken secured
    cases taken
    apply inv_within inv live
    · intro db made
      obtain ⟨old, held, rfl⟩ := Option.map_eq_some_iff.mp made
      exact dbInv_upsert (inv.files old held) (secured old held) name
    · intro db made
      obtain ⟨old, _, rfl⟩ := Option.map_eq_some_iff.mp made
      exact congrArg some (upsertMeta_major name a.start.version old.row)
  | named =>
    rw [at_] at taken secured
    cases taken
    apply inv_within inv live inv.files
    intro db held
    constructor
    · exact secured db held
    · rw [held, Option.bind_some]
  | constructing last =>
    rw [at_] at taken secured
    cases taken
    apply inv_within inv live
    · intro db made
      obtain ⟨old, held, rfl⟩ := Option.map_eq_some_iff.mp made
      exact dbInv_commit (inv.files old held) (secured old held).1 (inv.actors a live).newest
        a.pending
    · intro db made
      obtain ⟨old, held, rfl⟩ := Option.map_eq_some_iff.mp made
      exact secured old held
  | running last =>
    rw [at_] at taken
    exact absurd taken (by simp)

theorem exec_openDatabase (live : s.actor = some a) (opened : a.phase = .opened) :
    ∃ steps t, exec (step name) s (List.replicate steps .next) = some t ∧
      t.file = some (openDatabase [] name a.start.version (initSql s.file)) ∧
      t.actor = some { a with phase := .named } := by
  obtain ⟨file, actor, starts, past⟩ := s
  obtain ⟨start, phase, pending⟩ := a
  obtain rfl : actor = some ⟨start, phase, pending⟩ := live
  obtain rfl : phase = .opened := opened
  by_cases changed : majorChanged (initSql file).row start.version = true
  · refine ⟨5, ⟨_, _, starts, past ++ [start]⟩, ?_, rfl, rfl⟩
    apply exec_cons.mpr ⟨_, rfl, exec_cons.mpr ⟨_, rfl, exec_cons.mpr ⟨_, if_pos changed, _⟩⟩⟩
    unfold openDatabase
    rw [if_pos changed]
    rfl
  · refine ⟨4, ⟨_, _, starts, past ++ [start]⟩, ?_, rfl, rfl⟩
    apply exec_cons.mpr ⟨_, rfl, exec_cons.mpr ⟨_, rfl, exec_cons.mpr ⟨_, if_neg changed, _⟩⟩⟩
    unfold openDatabase
    rw [if_neg changed]
    rfl

theorem inv_execute {sql : W} (inv : Inv s) (live : s.actor = some a)
    (taken : executeStep s a sql = some t) : Inv t := by
  have secured := (inv.actors a live).secured
  unfold executeStep at taken
  split at taken
  · cases taken
    exact inv_within inv live inv.files secured
  · cases taken
    exact inv_within inv live inv.files secured
  · exact absurd taken (by simp)

theorem inv_persist {position : Nat} (inv : Inv s) (live : s.actor = some a)
    (taken : persistStep s a position = some t) : Inv t := by
  have own := inv.actors a live
  unfold persistStep at taken
  split at taken
  · rename_i last db phase file
    have secured := own.secured
    rw [phase] at secured
    obtain ⟨major, _⟩ := secured db file
    have committed := dbInv_commit (inv.files db file) major own.newest a.pending
    split at taken
    · cases taken
      exact inv
    · split at taken
      · cases taken
        exact inv_stopped inv
      · rename_i row updated
        cases taken
        apply inv_within inv live
        · intro other made
          cases made
          exact dbInv_persist committed major own.newest updated
        · intro other made
          cases made
          constructor
          · exact (updateLastPosition_major updated).trans major
          · exact (updateLastPosition_some updated).2.1.symm
  · exact absurd taken (by simp)

theorem inv_worker {statements : List W} (inv : Inv s) (live : s.actor = some a)
    (taken : workerStep s a statements = some t) : Inv t := by
  have own := inv.actors a live
  unfold workerStep at taken
  split at taken
  · rename_i last phase
    have secured := own.secured
    rw [phase] at secured
    split at taken
    · cases taken
      constructor
      · intro db made
        obtain ⟨old, held, rfl⟩ := Option.map_eq_some_iff.mp made
        exact dbInv_commit (inv.files old held) (secured old held).1 own.newest statements
      · intro other here
        obtain rfl := Option.some.inj (live.symm.trans here)
        refine ⟨?_, own.newest, own.counted⟩
        rw [phase]
        intro db made
        obtain ⟨old, held, rfl⟩ := Option.map_eq_some_iff.mp made
        exact secured old held
      · exact inv.counted
    · exact absurd taken (by simp)
  · exact absurd taken (by simp)

theorem inv_step {action : Action W} (inv : Inv s) (taken : step name s action = some t) :
    Inv t := by
  cases action with
  | start version =>
    dsimp only [step] at taken
    split at taken
    · exact absurd taken (by simp)
    · cases taken
      exact inv_start inv version
  | next =>
    obtain ⟨a, live, done⟩ := Option.bind_eq_some_iff.mp taken
    exact inv_onStart inv live done
  | execute sql =>
    obtain ⟨a, live, done⟩ := Option.bind_eq_some_iff.mp taken
    exact inv_execute inv live done
  | persist position =>
    obtain ⟨a, live, done⟩ := Option.bind_eq_some_iff.mp taken
    exact inv_persist inv live done
  | worker statements =>
    obtain ⟨a, live, done⟩ := Option.bind_eq_some_iff.mp taken
    exact inv_worker inv live done
  | crash =>
    cases taken
    exact inv_stopped inv

theorem inv_initial : Inv (initial : System W) where
  files := fun _ here => absurd here (by simp [initial])
  actors := fun _ here => absurd here (by simp [initial])
  counted := fun _ passed => absurd passed List.not_mem_nil

theorem isolated_of_inv (inv : Inv s) : IsolatedSince s.past s := by
  intro a last db live phase file
  have secured := (inv.actors a live).secured
  rw [phase] at secured
  obtain ⟨major, held⟩ := secured db file
  have own := inv.files db file
  constructor
  · intro w member
    obtain ⟨stored, since⟩ := own.writes w member
    have same : w.start.version.major = a.start.version.major :=
      Option.some.inj (stored.symm.trans major)
    constructor
    · exact same
    · rw [← same]
      exact since
  · exact own.position
  · exact held

end starts

/-- An upgrade that stops before the check, and the version that was there before. -/
def abandonedUpgrade : List (Action String) :=
  [.start (release 1 0 0), .next, .next, .next, .next, .next, .execute "INSERT", .next, .persist 1,
    .crash, .start (release 2 0 0), .crash,
    .start (release 1 0 0), .next, .next, .next, .next, .next, .next]

/-- The writes found may be older than the last start of another major version. -/
theorem found_older_writes : ¬ ∀ (name : String) (actions : List (Action String)),
    Always (step name) (fun s => IsolatedSince s.starts s) initial actions := by
  intro isolated
  have always := isolated "users" abandonedUpgrade
  have reached := always_iff_prefix.mp always abandonedUpgrade _ List.prefix_rfl rfl
  have found := reached _ _ _ rfl rfl rfl
  have later := (found.writes _ List.mem_cons_self).2 ⟨1, release 2 0 0⟩ (by decide) (by decide)
  exact absurd later (by decide)

/-- Whatever the order of versions, batches and crashes, an actor that has started finds
    only what its own major version wrote since the last start of another one that came
    past the check. -/
theorem major_versions_isolated (name : String) (actions : List (Action W)) :
    Always (step name) (fun s => IsolatedSince s.past s) initial actions := by
  have met : Meets (step name) (fun _ _ => True) (initial : System W) actions :=
    meets_of_mem (fun _ _ _ => trivial) _
  exact always_of_meets (fun inv _ taken => inv_step inv taken) isolated_of_inv inv_initial met

end UmariMajorVersions
