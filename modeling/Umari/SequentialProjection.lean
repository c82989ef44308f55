import Umari.GuardedRuns
import Umari.ModuleActor
import Mathlib.Data.List.ReduceOption

/-!
The sequential (projector) module actor. The connection's open transaction is
`working`; only `committed` survives a crash. A run interleaves the growth of
the log with start, construction, batch reads, the handling of one event, the
update of the cursor with its commit, and crashes at any point. The guest's
constructor and handler are functions of the tables and the event, and the key
store gives the same answers throughout.
-/
namespace UmariSequentialProjection
open PositionedLogs GuardedRuns UmariEventStore UmariStoredEvents
open UmariStateDatabases UmariModuleActor
variable {V T : Type}

/-- The guest's code; `none` is an error or a trap. -/
structure Guest (T : Type) where
  empty : T
  construct : T → Option T
  handle : T → WitStoredEvent → Option T

structure Config (V T : Type) where
  codec : Codec V
  getKey : Uuid → Except String (Option CryptoKey)
  query : Query
  name : String
  guest : Guest T

structure Projector (T : Type) where
  working : Database T
  lastPosition : Option Nat
  cursor : Nat
  constructed : Bool
  batch : Option (List (Nat × Event))

structure System (T : Type) where
  log : List Event
  committed : Database T
  actor : Option (Projector T)
  writes : List (Option Nat × Nat)

inductive Action where
  | append (events : List Event)
  | openFile (version : Version) (completes : Bool)
  | construct
  | nextBatch (upto : Nat)
  | handle
  | persist (commits : Bool)
  | crash

def initial (empty : T) (log : List Event) : System T := ⟨log, ⟨none, empty⟩, none, []⟩

/-- What the loop body hands to the handler; `none` skips a shredded event. -/
def prepareInput [DecidableEq V] (codec : Codec V)
    (getKey : Uuid → Except String (Option CryptoKey)) (entry : Nat × Event) :
    Except ModuleError (Option WitStoredEvent) :=
  match deserializeEvent codec entry with
  | .error err => .error err
  | .ok event =>
    let answer := (event.encryptionKeyId.map getKey).getD (.ok none)
    let event := decryptStoredEvent codec answer event
    if isShredded codec event then .ok none else .ok (some (event.toWit codec))

def applyEvent [DecidableEq V] (cfg : Config V T) (tables : T) (entry : Nat × Event) : Option T :=
  match prepareInput cfg.codec cfg.getKey entry with
  | .error _ => none
  | .ok none => some tables
  | .ok (some event) => cfg.guest.handle tables event

/-- Opening the file; a crash may follow the removal of an incompatible one. -/
def openStep (cfg : Config V T) (s : System T) (version : Version) (completes : Bool) :
    System T :=
  if completes then
    let db := openDatabase cfg.guest.empty cfg.name version s.committed
    { s with committed := db, actor := some ⟨db, storedPosition db.row, 0, false, none⟩ }
  else if majorChanged s.committed.row version then
    { s with committed := ⟨none, cfg.guest.empty⟩ }
  else s

def constructStep (cfg : Config V T) (s : System T) (a : Projector T) : System T :=
  match cfg.guest.construct a.working.tables with
  | none => { s with actor := none }
  | some tables =>
    let db := { a.working with tables := tables }
    { s with
      committed := db
      actor := some { a with
        working := db
        constructed := true
        cursor := resumePosition a.lastPosition } }

def handleStep [DecidableEq V] (cfg : Config V T) (s : System T) (a : Projector T)
    (entry : Nat × Event) (rest : List (Nat × Event)) : System T :=
  match applyEvent cfg a.working.tables entry with
  | none => { s with actor := none }
  | some tables =>
    { s with actor := some { a with
        working := { a.working with tables := tables }
        batch := some rest } }

/-- The end of a batch: the handlers' writes and the cursor commit together. -/
def persistStep (s : System T) (a : Projector T) (commits : Bool) : System T :=
  if a.lastPosition = some a.cursor then { s with actor := some { a with batch := none } }
  else
    match updateLastPosition a.cursor a.lastPosition a.working.row with
    | none => { s with actor := none }
    | some row =>
      let s := { s with writes := s.writes ++ [(storedPosition a.working.row, a.cursor)] }
      if commits then
        let db := { a.working with row := row }
        { s with
          committed := db
          actor := some { a with
            working := db
            lastPosition := some a.cursor
            batch := none } }
      else { s with actor := none }

def step [DecidableEq V] (cfg : Config V T) (s : System T) : Action → Option (System T)
  | .append events => some { s with log := s.log ++ events }
  | .openFile version completes =>
    match s.actor with
    | some _ => none
    | none => some (openStep cfg s version completes)
  | .construct =>
    match s.actor with
    | none => none
    | some a => if a.constructed then none else some (constructStep cfg s a)
  | .nextBatch upto =>
    match s.actor with
    | none => none
    | some a =>
      if a.constructed = true ∧ a.batch = none ∧ a.cursor ≤ upto ∧ upto ≤ s.log.length then
        let result := Subscription.nextBatch ⟨cfg.query, a.cursor⟩ s.log upto
        some { s with actor := some { a with
          cursor := result.2.position
          batch := some result.1 } }
      else none
  | .handle =>
    match s.actor with
    | none => none
    | some a =>
      match a.batch with
      | some (entry :: rest) => some (handleStep cfg s a entry rest)
      | _ => none
  | .persist commits =>
    match s.actor with
    | none => none
    | some a =>
      match a.batch with
      | some [] => some (persistStep s a commits)
      | _ => none
  | .crash => some { s with actor := none }

def handlerInputs [DecidableEq V] (cfg : Config V T) (log : List Event) (upto : Nat) :
    Except ModuleError (List WitStoredEvent) := do
  let inputs ← (window cfg.query.matches log 0 upto).mapM (prepareInput cfg.codec cfg.getKey)
  pure inputs.reduceOption

/-- The database is one run of the handler over exactly the matching events up to
    the stored position, none of them shredded, on a constructed database. -/
def ProjectionOf [DecidableEq V] (cfg : Config V T) (log : List Event) (db : Database T) : Prop :=
  match storedPosition db.row with
  | none => db.tables = cfg.guest.empty ∨ cfg.guest.construct cfg.guest.empty = some db.tables
  | some n => ∃ constructed inputs, cfg.guest.construct cfg.guest.empty = some constructed ∧
      handlerInputs cfg log n = .ok inputs ∧
      inputs.foldlM cfg.guest.handle constructed = some db.tables

/-- The tables of a database that the guest has constructed and then worked on. -/
inductive Built (guest : Guest T) : T → Prop where
  | fresh {tables : T} : guest.construct guest.empty = some tables → Built guest tables
  | handled {tables tables' : T} {event : WitStoredEvent} :
      Built guest tables → guest.handle tables event = some tables' → Built guest tables'

/-- The constructor leaves an existing database as it is. -/
def Idempotent (guest : Guest T) : Prop :=
  ∀ tables tables', Built guest tables → guest.construct tables = some tables' → tables' = tables

variable [DecidableEq V] {cfg : Config V T} {s t : System T}

def Replayed (cfg : Config V T) (log : List Event) (upto : Nat) (tables : T) : Prop :=
  ∃ constructed, cfg.guest.construct cfg.guest.empty = some constructed ∧
    (window cfg.query.matches log 0 upto).foldlM (applyEvent cfg) constructed = some tables

theorem applyEvent_built {tables tables' : T} {entry : Nat × Event}
    (built : Built cfg.guest tables) (applied : applyEvent cfg tables entry = some tables') :
    Built cfg.guest tables' := by
  unfold applyEvent at applied
  split at applied
  · exact absurd applied (by simp)
  · cases applied
    exact built
  · exact Built.handled built applied

theorem foldlM_built {entries : List (Nat × Event)} {tables tables' : T}
    (built : Built cfg.guest tables)
    (folded : entries.foldlM (applyEvent cfg) tables = some tables') : Built cfg.guest tables' := by
  induction entries generalizing tables with
  | nil =>
    cases folded
    exact built
  | cons entry rest ih =>
    rw [List.foldlM_cons] at folded
    obtain ⟨next, applied, tail⟩ := Option.bind_eq_some_iff.mp folded
    exact ih (applyEvent_built built applied) tail

theorem replayed_built {log : List Event} {upto : Nat} {tables : T}
    (replayed : Replayed cfg log upto tables) : Built cfg.guest tables := by
  obtain ⟨constructed, fresh, folded⟩ := replayed
  exact foldlM_built (Built.fresh fresh) folded

theorem replayed_append {log more : List Event} {upto : Nat} {tables : T}
    (replayed : Replayed cfg log upto tables) (within : upto ≤ log.length) :
    Replayed cfg (log ++ more) upto tables := by
  obtain ⟨constructed, fresh, folded⟩ := replayed
  exact ⟨constructed, fresh, by rw [window_append within]; exact folded⟩

theorem replayed_extend {log : List Event} {low high : Nat} {tables tables' : T}
    (replayed : Replayed cfg log low tables) (forward : low ≤ high)
    (folded : (window cfg.query.matches log low high).foldlM (applyEvent cfg) tables =
      some tables') : Replayed cfg log high tables' := by
  obtain ⟨constructed, fresh, before⟩ := replayed
  refine ⟨constructed, fresh, ?_⟩
  rw [window_split (Nat.zero_le low) forward, List.foldlM_append, before]
  exact folded

theorem replayed_unique {log : List Event} {upto : Nat} {left right : T}
    (first : Replayed cfg log upto left) (second : Replayed cfg log upto right) : left = right := by
  obtain ⟨a, freshA, foldedA⟩ := first
  obtain ⟨b, freshB, foldedB⟩ := second
  obtain rfl : a = b := Option.some.inj (freshA.symm.trans freshB)
  exact Option.some.inj (foldedA.symm.trans foldedB)

theorem inputs_of_foldlM {entries : List (Nat × Event)} {tables tables' : T}
    (folded : entries.foldlM (applyEvent cfg) tables = some tables') :
    ∃ inputs, entries.mapM (prepareInput cfg.codec cfg.getKey) = .ok inputs ∧
      inputs.reduceOption.foldlM cfg.guest.handle tables = some tables' := by
  induction entries generalizing tables with
  | nil => exact ⟨[], rfl, folded⟩
  | cons entry rest ih =>
    rw [List.foldlM_cons] at folded
    obtain ⟨next, applied, tail⟩ := Option.bind_eq_some_iff.mp folded
    obtain ⟨inputs, mapped, handled⟩ := ih tail
    unfold applyEvent at applied
    cases prepared : prepareInput cfg.codec cfg.getKey entry with
    | error err =>
      rw [prepared] at applied
      exact absurd applied (by simp)
    | ok input =>
      refine ⟨input :: inputs, ?_, ?_⟩
      · rw [List.mapM_cons, prepared, mapped]
        rfl
      · cases input with
        | none =>
          rw [prepared] at applied
          obtain rfl := Option.some.inj applied
          rw [List.reduceOption_cons_of_none]
          exact handled
        | some event =>
          rw [prepared] at applied
          rw [List.reduceOption_cons_of_some, List.foldlM_cons]
          exact Option.bind_eq_some_iff.mpr ⟨next, applied, handled⟩

structure Running (cfg : Config V T) (s : System T) (a : Projector T) : Prop where
  row : a.working.row = s.committed.row
  synced : a.lastPosition = storedPosition s.committed.row
  opening : a.constructed = false → a.working.tables = s.committed.tables ∧ a.batch = none
  constructed : Idempotent cfg.guest → a.constructed = true →
    Replayed cfg s.log (resumePosition a.lastPosition) s.committed.tables
  between : a.constructed = true → a.batch = none →
    a.cursor = resumePosition a.lastPosition ∧ a.working.tables = s.committed.tables
  handling : a.constructed = true → ∀ rest, a.batch = some rest →
    resumePosition a.lastPosition ≤ a.cursor ∧ a.cursor ≤ s.log.length ∧ ∃ done,
      window cfg.query.matches s.log (resumePosition a.lastPosition) a.cursor = done ++ rest ∧
        done.foldlM (applyEvent cfg) s.committed.tables = some a.working.tables

structure Inv (cfg : Config V T) (s : System T) : Prop where
  stored : resumePosition (storedPosition s.committed.row) ≤ s.log.length
  projected : Idempotent cfg.guest →
    Replayed cfg s.log (resumePosition (storedPosition s.committed.row)) s.committed.tables ∨
      (storedPosition s.committed.row = none ∧ s.committed.tables = cfg.guest.empty)
  running : ∀ a, s.actor = some a → Running cfg s a
  monotone : Monotone s.writes

theorem inv_stopped (inv : Inv cfg s) : Inv cfg { s with actor := none } :=
  ⟨inv.stored, inv.projected, fun _ live => absurd live (by simp), inv.monotone⟩

theorem inv_append {events : List Event} (inv : Inv cfg s) :
    Inv cfg { s with log := s.log ++ events } := by
  have longer : s.log.length ≤ (s.log ++ events).length := by simp
  refine ⟨Nat.le_trans inv.stored longer, ?_, ?_, inv.monotone⟩
  · intro idempotent
    exact (inv.projected idempotent).imp (fun replayed => replayed_append replayed inv.stored) id
  · intro a live
    have old := inv.running a live
    refine ⟨old.row, old.synced, old.opening, ?_, old.between, ?_⟩
    · intro idempotent constructed
      refine replayed_append (old.constructed idempotent constructed) ?_
      rw [old.synced]
      exact inv.stored
    · intro constructed rest reading
      obtain ⟨forward, within, done, split, folded⟩ := old.handling constructed rest reading
      exact ⟨forward, Nat.le_trans within longer, done, by rw [window_append within]; exact split,
        folded⟩

theorem inv_open {version : Version} {completes : Bool} (inv : Inv cfg s)
    (idle : s.actor = none) : Inv cfg (openStep cfg s version completes) := by
  unfold openStep
  by_cases whole : completes = true
  · have kept : ∀ n, storedPosition (openDatabase cfg.guest.empty cfg.name version
        s.committed).row = some n → storedPosition s.committed.row = some n := by
      intro n found
      rw [openDatabase_position] at found
      split at found
      · exact absurd found (by simp)
      · exact found
    simp only [whole, ↓reduceIte]
    refine ⟨?_, ?_, ?_, inv.monotone⟩
    · rw [openDatabase_position]
      split
      · exact Nat.zero_le _
      · exact inv.stored
    · intro idempotent
      rw [openDatabase_position]
      by_cases reset : majorChanged s.committed.row version = true
      · simp [openDatabase, reset]
      · simpa [openDatabase, reset] using inv.projected idempotent
    · intro a live
      obtain rfl := Option.some.inj live
      exact ⟨rfl, rfl, fun _ => ⟨rfl, rfl⟩, fun _ wrong => absurd wrong (by simp),
        fun wrong => absurd wrong (by simp), fun wrong => absurd wrong (by simp)⟩
  · simp only [whole, Bool.false_eq_true, ↓reduceIte]
    split
    · exact ⟨Nat.zero_le _, fun _ => Or.inr ⟨rfl, rfl⟩, fun _ live => absurd live (by simp [idle]),
        inv.monotone⟩
    · exact inv

theorem inv_construct {a : Projector T} (inv : Inv cfg s)
    (live : s.actor = some a) (opened : a.constructed = false) :
    Inv cfg (constructStep cfg s a) := by
  have old := inv.running a live
  have tables := (old.opening opened).1
  unfold constructStep
  cases made : cfg.guest.construct a.working.tables with
  | none => exact inv_stopped inv
  | some fresh =>
    have replayed : Idempotent cfg.guest →
        Replayed cfg s.log (resumePosition (storedPosition s.committed.row)) fresh := by
      intro idempotent
      rw [tables] at made
      rcases inv.projected idempotent with replayed | ⟨nothing, blank⟩
      · rw [idempotent _ _ (replayed_built replayed) made]
        exact replayed
      · rw [blank] at made
        refine ⟨fresh, made, ?_⟩
        rw [nothing]
        simp only [resumePosition, Option.getD_none, window_empty (Nat.le_refl 0)]
        rfl
    have stored : storedPosition a.working.row = storedPosition s.committed.row := by rw [old.row]
    refine ⟨by simp only [stored]; exact inv.stored, ?_, ?_, inv.monotone⟩
    · intro idempotent
      simp only [stored]
      exact Or.inl (replayed idempotent)
    · intro a' live'
      obtain rfl := Option.some.inj live'
      refine ⟨rfl, old.synced.trans stored.symm, fun wrong => absurd wrong (by simp), ?_,
        fun _ _ => ⟨rfl, rfl⟩, ?_⟩
      · intro idempotent _
        rw [old.synced]
        exact replayed idempotent
      · intro _ rest reading
        exact absurd reading (by simp [(old.opening opened).2])

theorem inv_nextBatch {a : Projector T} {upto : Nat} (inv : Inv cfg s) (live : s.actor = some a)
    (constructed : a.constructed = true) (waiting : a.batch = none) (forward : a.cursor ≤ upto)
    (within : upto ≤ s.log.length) :
    Inv cfg { s with actor := some { a with
      cursor := upto, batch := some (window cfg.query.matches s.log a.cursor upto) } } := by
  have old := inv.running a live
  obtain ⟨cursor, tables⟩ := old.between constructed waiting
  refine ⟨inv.stored, inv.projected, ?_, inv.monotone⟩
  intro a' live'
  obtain rfl := Option.some.inj live'
  refine ⟨old.row, old.synced, fun wrong => absurd constructed (by simpa using wrong),
    old.constructed, fun _ wrong => absurd wrong (by simp), ?_⟩
  intro _ rest reading
  obtain rfl := Option.some.inj reading
  rw [cursor] at forward ⊢
  exact ⟨forward, within, [], rfl, by rw [tables]; rfl⟩

theorem inv_handle {a : Projector T} {entry : Nat × Event} {rest : List (Nat × Event)}
    (inv : Inv cfg s) (live : s.actor = some a) (reading : a.batch = some (entry :: rest)) :
    Inv cfg (handleStep cfg s a entry rest) := by
  have old := inv.running a live
  have constructed : a.constructed = true := by
    cases opened : a.constructed with
    | true => rfl
    | false => exact absurd (old.opening opened).2 (by simp [reading])
  unfold handleStep
  cases applied : applyEvent cfg a.working.tables entry with
  | none => exact inv_stopped inv
  | some tables =>
    obtain ⟨forward, within, done, split, folded⟩ := old.handling constructed _ reading
    refine ⟨inv.stored, inv.projected, ?_, inv.monotone⟩
    intro a' live'
    obtain rfl := Option.some.inj live'
    refine ⟨old.row, old.synced, fun wrong => absurd constructed (by simpa using wrong),
      old.constructed, fun _ wrong => absurd wrong (by simp), ?_⟩
    intro _ rest' remaining
    obtain rfl := Option.some.inj remaining
    refine ⟨forward, within, done ++ [entry], by rw [split]; simp, ?_⟩
    rw [List.foldlM_append, folded]
    simp [applied]

theorem inv_persist {a : Projector T} {commits : Bool} (inv : Inv cfg s)
    (live : s.actor = some a) (finished : a.batch = some []) :
    Inv cfg (persistStep s a commits) := by
  have old := inv.running a live
  have constructed : a.constructed = true := by
    cases opened : a.constructed with
    | true => rfl
    | false => exact absurd (old.opening opened).2 (by simp [finished])
  obtain ⟨forward, within, done, split, folded⟩ := old.handling constructed [] finished
  rw [List.append_nil] at split
  unfold persistStep
  by_cases same : a.lastPosition = some a.cursor
  · have resumed : resumePosition a.lastPosition = a.cursor := by
      rw [same]
      rfl
    have nothing : done = [] := by
      rw [← split, resumed]
      exact window_empty (Nat.le_refl a.cursor)
    subst nothing
    have unchanged : s.committed.tables = a.working.tables := Option.some.inj folded
    rw [if_pos same]
    refine ⟨inv.stored, inv.projected, ?_, inv.monotone⟩
    intro a' live'
    obtain rfl := Option.some.inj live'
    exact ⟨old.row, old.synced, fun wrong => absurd constructed (by simpa using wrong),
      old.constructed, fun _ _ => ⟨resumed.symm, unchanged.symm⟩,
      fun _ _ wrong => absurd wrong (by simp)⟩
  · rw [if_neg same]
    cases updated : updateLastPosition a.cursor a.lastPosition a.working.row with
    | none => exact inv_stopped inv
    | some row =>
      obtain ⟨_, stored, _⟩ := updateLastPosition_some updated
      have replayed : Idempotent cfg.guest → Replayed cfg s.log a.cursor a.working.tables := by
        intro idempotent
        refine replayed_extend (old.constructed idempotent constructed) forward ?_
        rw [split]
        exact folded
      have monotone : Monotone (s.writes ++ [(storedPosition a.working.row, a.cursor)]) := by
        refine monotone_snoc inv.monotone ?_
        intro n found
        rw [old.row, ← old.synced] at found
        rw [found] at forward
        exact forward
      by_cases durable : commits = true
      · simp only [durable, ↓reduceIte]
        have position : resumePosition (storedPosition row) = a.cursor := by
          rw [stored]
          rfl
        refine ⟨by simp only [position]; exact within, ?_, ?_, monotone⟩
        · intro idempotent
          simp only [position]
          exact Or.inl (replayed idempotent)
        · intro a' live'
          obtain rfl := Option.some.inj live'
          exact ⟨rfl, stored.symm, fun wrong => absurd constructed (by simpa using wrong),
            fun idempotent _ => replayed idempotent, fun _ _ => ⟨rfl, rfl⟩,
            fun _ _ wrong => absurd wrong (by simp)⟩
      · simp only [durable, Bool.false_eq_true, ↓reduceIte]
        exact ⟨inv.stored, inv.projected, fun _ live => absurd live (by simp), monotone⟩

theorem inv_step {act : Action} (inv : Inv cfg s)
    (taken : step cfg s act = some t) : Inv cfg t := by
  cases act with
  | append events =>
    cases taken
    exact inv_append inv
  | openFile version completes =>
    cases live : s.actor with
    | some a => simp [step, live] at taken
    | none =>
      simp only [step, live, Option.some.injEq] at taken
      subst taken
      exact inv_open inv live
  | construct =>
    cases live : s.actor with
    | none => simp [step, live] at taken
    | some a =>
      cases opened : a.constructed with
      | true => simp [step, live, opened] at taken
      | false =>
        simp only [step, live, opened, Bool.false_eq_true, ↓reduceIte, Option.some.injEq] at taken
        subst taken
        exact inv_construct inv live opened
  | nextBatch upto =>
    cases live : s.actor with
    | none => simp [step, live] at taken
    | some a =>
      simp only [step, live] at taken
      split at taken
      · rename_i enabled
        obtain ⟨constructed, waiting, forward, within⟩ := enabled
        cases taken
        exact inv_nextBatch inv live constructed waiting forward within
      · exact absurd taken (by simp)
  | handle =>
    cases live : s.actor with
    | none => simp [step, live] at taken
    | some a =>
      cases reading : a.batch with
      | none => simp [step, live, reading] at taken
      | some batch =>
        cases batch with
        | nil => simp [step, live, reading] at taken
        | cons entry rest =>
          simp only [step, live, reading, Option.some.injEq] at taken
          subst taken
          exact inv_handle inv live reading
  | persist commits =>
    cases live : s.actor with
    | none => simp [step, live] at taken
    | some a =>
      cases reading : a.batch with
      | none => simp [step, live, reading] at taken
      | some batch =>
        cases batch with
        | cons entry rest => simp [step, live, reading] at taken
        | nil =>
          simp only [step, live, reading, Option.some.injEq] at taken
          subst taken
          exact inv_persist inv live reading
  | crash =>
    cases taken
    exact inv_stopped inv

theorem inv_initial (cfg : Config V T) (log : List Event) :
    Inv cfg (initial cfg.guest.empty log) where
  stored := Nat.zero_le _
  projected := fun _ => Or.inr ⟨rfl, rfl⟩
  running := fun _ live => absurd live (by simp [initial])
  monotone := fun _ _ member => absurd member (by simp [initial])

theorem inv_run {log : List Event} {actions : List Action}
    (run : exec (step cfg) (initial cfg.guest.empty log) actions = some t) : Inv cfg t :=
  invariant (fun inv taken => inv_step inv taken) (inv_initial cfg log) run

theorem projection_of_inv (idempotent : Idempotent cfg.guest) (inv : Inv cfg s) :
    ProjectionOf cfg s.log s.committed := by
  unfold ProjectionOf
  cases stored : storedPosition s.committed.row with
  | none =>
    rcases inv.projected idempotent with ⟨constructed, fresh, folded⟩ | ⟨_, blank⟩
    · rw [stored] at folded
      simp only [resumePosition, Option.getD_none, window_empty (Nat.le_refl 0)] at folded
      obtain rfl := Option.some.inj folded
      exact Or.inr fresh
    · exact Or.inl blank
  | some n =>
    rcases inv.projected idempotent with ⟨constructed, fresh, folded⟩ | ⟨nothing, _⟩
    · rw [stored] at folded
      obtain ⟨inputs, mapped, handled⟩ := inputs_of_foldlM folded
      refine ⟨constructed, inputs.reduceOption, fresh, ?_, handled⟩
      simp only [handlerInputs]
      have window : (window cfg.query.matches s.log 0 n).mapM (prepareInput cfg.codec cfg.getKey) =
          .ok inputs := mapped
      rw [window]
      rfl
    · exact absurd stored (by simp [nothing])

/-- Exactly once: whatever the batches, crashes and restarts, the committed database
    is one pass of the handler up to the stored position, so two runs over one log
    that stored the same position have the same tables. -/
theorem projector_exactly_once {log : List Event} {actions : List Action}
    (idempotent : Idempotent cfg.guest)
    (run : exec (step cfg) (initial cfg.guest.empty log) actions = some s) :
    ProjectionOf cfg s.log s.committed ∧
      ∀ log' actions' t, exec (step cfg) (initial cfg.guest.empty log') actions' = some t →
        t.log = s.log → ∀ n, storedPosition s.committed.row = some n →
          storedPosition t.committed.row = some n → t.committed.tables = s.committed.tables := by
  have inv := inv_run run
  refine ⟨projection_of_inv idempotent inv, ?_⟩
  intro log' actions' t run' sameLog n here there
  have inv' := inv_run run'
  have replayed : Replayed cfg s.log n s.committed.tables := by
    have projected := inv.projected idempotent
    rw [here] at projected
    exact projected.resolve_right (by simp)
  have replayed' : Replayed cfg s.log n t.committed.tables := by
    have projected := inv'.projected idempotent
    rw [there, sameLog] at projected
    exact projected.resolve_right (by simp)
  exact replayed_unique replayed' replayed

def positionList : Guest (List Int) where
  empty := []
  construct := some
  handle := fun positions event => some (positions ++ [event.position])

def positionConfig : Config String (List Int) where
  codec := sampleCodec
  getKey := fun _ => .ok none
  query := .all
  name := "positions"
  guest := positionList

def crashAndResume : List Action := [
  .openFile (release 1 0 0) true, .construct, .nextBatch 2, .handle, .handle, .crash,
  .openFile (release 1 0 0) true, .construct, .nextBatch 1, .handle, .persist true,
  .nextBatch 3, .handle, .handle, .persist true]

theorem crash_and_resume_projects_once : ∃ s,
    exec (step positionConfig) (initial [] [secretEvent, plainEvent, plainEvent]) crashAndResume =
        some s ∧ s.committed.tables = [2, 3] ∧ ProjectionOf positionConfig s.log s.committed := by
  have seen : (exec (step positionConfig) (initial [] [secretEvent, plainEvent, plainEvent])
      crashAndResume).map (fun s => s.committed.tables) = some [2, 3] := by decide +kernel
  obtain ⟨s, run, tables⟩ := Option.map_eq_some_iff.mp seen
  have idempotent : Idempotent positionConfig.guest :=
    fun _ _ _ made => (Option.some.inj made).symm
  exact ⟨s, run, tables, (projector_exactly_once idempotent run).1⟩

end UmariSequentialProjection
