import Umari.GuardedRuns
import Umari.ModuleActor
import Mathlib.Data.List.FinRange
import Mathlib.Logic.Function.Basic

/-!
The pooled (effect) module actor with its global worker and its keyed workers.
A run interleaves the growth of the log, batch reads, the dispatch of one event
of a batch, the handling of one message by a worker, the arrival of an
acknowledgement in any order, and crashes. A worker whose turn fails stops. The
actor is told of it through its own mailbox, behind the failed acknowledgement,
and restarts the worker when it comes to that notice. Messages of a worker of an
earlier incarnation may still be handled or be lost. Acknowledgements are only
handled between batches. The lists from `committed` on record the history; no
step reads them.
-/
namespace UmariPooledDispatch
open OrderedSets PositionedLogs GuardedRuns UmariEventStore UmariStoredEvents
open UmariStateDatabases UmariModuleActor
variable {V : Type}

def poolSize : Nat := 8

inductive WorkerId where
  | global
  | keyed (index : Fin poolSize)
deriving DecidableEq, Repr

/-- What is fixed for a module: its codec, its query, the hash that routes keys. -/
structure Config (V : Type) where
  codec : Codec V
  query : Query
  hash : String → Nat
  name : String

structure ProcessEvent where
  currentEventId : Uuid
  correlationId : Uuid
  event : WitStoredEvent
  position : Nat
deriving DecidableEq, Repr

inductive WorkerAck where
  | ok (position : Nat)
  | error (position : Nat) (message : String)
deriving DecidableEq, Repr

def WorkerAck.position : WorkerAck → Nat
  | .ok position => position
  | .error position _ => position

/-- How a worker's turn ends. A panic or a failed commit leaves the position set,
    and `on_panic` sends the failure; the commit may have gone through by then. -/
inductive HandlerOutcome where
  | ok
  | failed (message : String)
  | blewUp (committed : Bool) (message : String)
deriving DecidableEq, Repr

def HandlerOutcome.committed : HandlerOutcome → Bool
  | .ok => true
  | .failed _ => false
  | .blewUp committed _ => committed

/-- `process_event` returns an error, or panics. -/
def HandlerOutcome.stops : HandlerOutcome → Bool
  | .ok => false
  | .failed _ => true
  | .blewUp _ _ => true

def HandlerOutcome.ack (position : Nat) : HandlerOutcome → WorkerAck
  | .ok => .ok position
  | .failed message => .error position message
  | .blewUp _ message => .error position message

def WorkerAck.failsAt (position : Nat) : WorkerAck → Bool
  | .ok _ => false
  | .error p _ => decide (p = position)

structure Dispatcher where
  progress : Progress
  batch : List (Nat × Event)

/-- `down` are the stopped workers, each with the position it failed at; `shredded` are the
    positions skipped because the key store had no key for the event. -/
structure System where
  log : List Event
  row : Option MetaRow
  actor : Option Dispatcher
  mailboxes : WorkerId → List ProcessEvent
  acks : List WorkerAck
  down : List (WorkerId × Nat)
  orphans : List ProcessEvent
  committed : List Nat
  shredded : List Nat
  writes : List (Option Nat × Nat)
  dispatched : List (Nat × PartitionKey)
  handled : List Nat

inductive Action where
  | append (events : List Event)
  | start (version : Version)
  | nextBatch (upto : Nat)
  | dispatch (answer : Except String (Option CryptoKey))
      (partition : Except String PartitionKey) (commits : Bool)
  | work (worker : WorkerId) (outcome : HandlerOutcome)
  | restart (worker : WorkerId)
  | workOrphan (index : Nat) (outcome : HandlerOutcome)
  | ack (index : Nat) (commits : Bool)
  | crash

def initial (log : List Event) : System where
  log := log
  row := none
  actor := none
  mailboxes := fun _ => []
  acks := []
  down := []
  orphans := []
  committed := []
  shredded := []
  writes := []
  dispatched := []
  handled := []

def route (hash : String → Nat) (key : String) : WorkerId :=
  .keyed ⟨hash key % poolSize, Nat.mod_lt _ (by decide)⟩

def workerFor (hash : String → Nat) : PartitionKey → WorkerId
  | .inline => .global
  | .unkeyed => .global
  | .keyed key => route hash key

/-- Events in one lane share a worker: one lane per key, and one for the rest. -/
def lane : PartitionKey → Option String
  | .inline => none
  | .unkeyed => none
  | .keyed key => some key

/-- The body of the dispatch loop up to the send; `none` skips a shredded event. -/
def prepareEvent [DecidableEq V] (codec : Codec V) (entry : Nat × Event)
    (answer : Except String (Option CryptoKey)) (partition : Except String PartitionKey) :
    Except ModuleError (Option (PartitionKey × ProcessEvent)) :=
  match deserializeEvent codec entry with
  | .error err => .error err
  | .ok event =>
    let event := decryptStoredEvent codec answer event
    if isShredded codec event then .ok none
    else
      match partition with
      | .error err => .error (.wasmtime err)
      | .ok key => .ok (some (key, ⟨event.id, event.correlationId, event.toWit codec, entry.1⟩))

/-- The key store was asked for the key of the event, and has none under that id. -/
def keyGone (codec : Codec V) (entry : Nat × Event) (answer : Except String (Option CryptoKey)) :
    Bool :=
  match deserializeEvent codec entry, answer with
  | .ok event, .ok none => event.encryptionKeyId.isSome
  | _, _ => false

def allMessages (mailboxes : WorkerId → List ProcessEvent) : List ProcessEvent :=
  mailboxes .global ++ (List.finRange poolSize).flatMap fun index => mailboxes (.keyed index)

def crash (s : System) : System :=
  { s with
    actor := none
    mailboxes := fun _ => []
    acks := []
    down := []
    orphans := s.orphans ++ allMessages s.mailboxes }

/-- `handle_ack` and the commit of its update; without the commit the actor dies
    and the update is rolled back. -/
def applyAck (s : System) (d : Dispatcher) (position : Nat) (commits : Bool) : System :=
  match handleAck d.progress s.row position with
  | .error _ => crash s
  | .ok (progress, row, write) =>
    let s := { s with writes := s.writes ++ (write.map (storedPosition s.row, ·)).toList }
    if write.isSome && !commits then crash s
    else { s with row := row, actor := some { d with progress := progress } }

/-- A skipped event is inserted as in flight and acknowledged at once. -/
def skipping (d : Dispatcher) (rest : List (Nat × Event)) (position : Nat) : Dispatcher where
  progress := { d.progress with inFlight := d.progress.inFlight.insert position }
  batch := rest

def skipEvent (s : System) (d : Dispatcher) (rest : List (Nat × Event)) (position : Nat)
    (gone commits : Bool) : System :=
  applyAck { s with shredded := if gone then position :: s.shredded else s.shredded }
    (skipping d rest position) position commits

def sendEvent (hash : String → Nat) (s : System) (d : Dispatcher) (rest : List (Nat × Event))
    (key : PartitionKey) (message : ProcessEvent) : System :=
  { s with
    mailboxes := Function.update s.mailboxes (workerFor hash key)
      (s.mailboxes (workerFor hash key) ++ [message])
    dispatched := s.dispatched ++ [(message.position, key)]
    actor := some {
      progress := { d.progress with inFlight := d.progress.inFlight.insert message.position }
      batch := rest } }

def readBatch (query : Query) (s : System) (d : Dispatcher) (upto : Nat) : System :=
  let result := Subscription.nextBatch ⟨query, d.progress.cursor⟩ s.log upto
  { s with actor := some {
      progress := { d.progress with cursor := result.2.position }
      batch := result.1 } }

def startActor (cfg : Config V) (s : System) (version : Version) : System :=
  let reset := majorChanged s.row version
  let row := (openDatabase () cfg.name version ⟨s.row, ()⟩).row
  { s with
    row := row
    actor := some {
      progress := ⟨resumePosition (storedPosition row), OrderedSet.empty, 0, storedPosition row⟩
      batch := [] }
    mailboxes := fun _ => []
    acks := []
    down := []
    orphans := if reset then [] else s.orphans
    committed := if reset then [] else s.committed
    shredded := if reset then [] else s.shredded
    dispatched := []
    handled := [] }

def workStep (s : System) (worker : WorkerId) (message : ProcessEvent)
    (rest : List ProcessEvent) (outcome : HandlerOutcome) : System :=
  { s with
    mailboxes := Function.update s.mailboxes worker rest
    acks := s.acks ++ [outcome.ack message.position]
    down := if outcome.stops then s.down ++ [(worker, message.position)] else s.down
    committed := if outcome.committed then message.position :: s.committed else s.committed
    handled := if outcome.committed then s.handled ++ [message.position] else s.handled }

def isUp (s : System) (worker : WorkerId) : Bool :=
  s.down.all fun failure => decide (failure.1 ≠ worker)

/-- The notice of a worker's death is behind the acknowledgement of what it failed at. -/
def deathNoticed (s : System) (worker : WorkerId) : Bool :=
  s.down.all fun failure => decide (failure.1 ≠ worker) ||
    s.acks.all fun ack => !ack.failsAt failure.2

def restartWorker (s : System) (worker : WorkerId) : System :=
  { s with down := s.down.filter fun failure => decide (failure.1 ≠ worker) }

def step [DecidableEq V] (cfg : Config V) (s : System) : Action → Option System
  | .append events => some { s with log := s.log ++ events }
  | .start version =>
    match s.actor with
    | some _ => none
    | none => some (startActor cfg s version)
  | .nextBatch upto =>
    match s.actor with
    | none => none
    | some d =>
      if d.batch = [] ∧ ¬ d.progress.inFlight.size > 100 ∧ d.progress.cursor ≤ upto ∧
          upto ≤ s.log.length then
        some (readBatch cfg.query s d upto)
      else none
  | .dispatch answer partition commits =>
    match s.actor with
    | none => none
    | some d =>
      match d.batch with
      | [] => none
      | entry :: rest =>
        match prepareEvent cfg.codec entry answer partition with
        | .error _ => some (crash s)
        | .ok none => some (skipEvent s d rest entry.1 (keyGone cfg.codec entry answer) commits)
        | .ok (some (key, message)) => some (sendEvent cfg.hash s d rest key message)
  | .work worker outcome =>
    match s.mailboxes worker with
    | [] => none
    | message :: rest =>
      if isUp s worker then some (workStep s worker message rest outcome) else none
  | .restart worker =>
    match s.actor with
    | none => none
    | some d =>
      if d.batch = [] ∧ isUp s worker = false ∧ deathNoticed s worker then
        some (restartWorker s worker)
      else none
  | .workOrphan index outcome =>
    match s.orphans[index]? with
    | none => none
    | some message => some { s with
        orphans := s.orphans.eraseIdx index
        committed := if outcome.committed then message.position :: s.committed else s.committed }
  | .ack index commits =>
    match s.actor with
    | none => none
    | some d =>
      if d.batch = [] then
        match s.acks[index]? with
        | none => none
        | some (.error _ _) => some (crash s)
        | some (.ok position) =>
          some (applyAck { s with acks := s.acks.eraseIdx index } d position commits)
      else none
  | .crash => some (crash s)

variable [DecidableEq V] {cfg : Config V} {s t : System}

inductive Moved (cfg : Config V) (s : System) : Action → System → Prop where
  | appended (events : List Event) :
      Moved cfg s (.append events) { s with log := s.log ++ events }
  | started (version : Version) (idle : s.actor = none) :
      Moved cfg s (.start version) (startActor cfg s version)
  | batched (d : Dispatcher) (upto : Nat) (live : s.actor = some d) (done : d.batch = [])
      (forward : d.progress.cursor ≤ upto) (inside : upto ≤ s.log.length) :
      Moved cfg s (.nextBatch upto) (readBatch cfg.query s d upto)
  | skipped (d : Dispatcher) (entry : Nat × Event) (rest : List (Nat × Event))
      {answer : Except String (Option CryptoKey)} {partition : Except String PartitionKey}
      (commits : Bool) (live : s.actor = some d) (next : d.batch = entry :: rest)
      (shredded : prepareEvent cfg.codec entry answer partition = .ok none) :
      Moved cfg s (.dispatch answer partition commits)
        (skipEvent s d rest entry.1 (keyGone cfg.codec entry answer) commits)
  | sent (d : Dispatcher) (entry : Nat × Event) (rest : List (Nat × Event))
      {answer : Except String (Option CryptoKey)} {partition : Except String PartitionKey}
      {commits : Bool} (key : PartitionKey) (message : ProcessEvent) (live : s.actor = some d)
      (next : d.batch = entry :: rest)
      (plain : prepareEvent cfg.codec entry answer partition = .ok (some (key, message)))
      (position : message.position = entry.1) :
      Moved cfg s (.dispatch answer partition commits) (sendEvent cfg.hash s d rest key message)
  | worked (worker : WorkerId) (message : ProcessEvent) (rest : List ProcessEvent)
      (outcome : HandlerOutcome) (taken : s.mailboxes worker = message :: rest)
      (up : isUp s worker = true) :
      Moved cfg s (.work worker outcome) (workStep s worker message rest outcome)
  | restarted (worker : WorkerId) (d : Dispatcher) (live : s.actor = some d)
      (stopped : isUp s worker = false) (noticed : deathNoticed s worker = true) :
      Moved cfg s (.restart worker) (restartWorker s worker)
  | workedOrphan (index : Nat) (message : ProcessEvent) (outcome : HandlerOutcome) :
      Moved cfg s (.workOrphan index outcome) { s with
        orphans := s.orphans.eraseIdx index
        committed := if outcome.committed then message.position :: s.committed else s.committed }
  | acked (d : Dispatcher) (index position : Nat) (commits : Bool) (live : s.actor = some d)
      (between : d.batch = []) (found : s.acks[index]? = some (.ok position)) :
      Moved cfg s (.ack index commits)
        (applyAck { s with acks := s.acks.eraseIdx index } d position commits)
  | crashed (a : Action) : Moved cfg s a (crash s)

theorem prepareEvent_position {codec : Codec V} {entry : Nat × Event}
    {answer : Except String (Option CryptoKey)} {partition : Except String PartitionKey}
    {key : PartitionKey} {message : ProcessEvent}
    (prepared : prepareEvent codec entry answer partition = .ok (some (key, message))) :
    message.position = entry.1 := by
  unfold prepareEvent at prepared
  cases decoded : deserializeEvent codec entry with
  | error err => simp [decoded] at prepared
  | ok event =>
    simp only [decoded] at prepared
    split at prepared
    · simp at prepared
    · cases partition with
      | error err => simp at prepared
      | ok given =>
        simp only [Except.ok.injEq, Option.some.injEq, Prod.mk.injEq] at prepared
        rw [← prepared.2]

theorem moved_of_step {a : Action} (taken : step cfg s a = some t) : Moved cfg s a t := by
  cases a with
  | append events =>
    cases taken
    exact Moved.appended events
  | start version =>
    cases live : s.actor with
    | some d => simp [step, live] at taken
    | none =>
      simp only [step, live, Option.some.injEq] at taken
      subst taken
      exact Moved.started version live
  | nextBatch upto =>
    cases live : s.actor with
    | none => simp [step, live] at taken
    | some d =>
      simp only [step, live] at taken
      split at taken
      · rename_i enabled
        cases taken
        exact Moved.batched d upto live enabled.1 enabled.2.2.1 enabled.2.2.2
      · exact absurd taken (by simp)
  | dispatch answer partition commits =>
    cases live : s.actor with
    | none => simp [step, live] at taken
    | some d =>
      cases next : d.batch with
      | nil => simp [step, live, next] at taken
      | cons entry rest =>
        simp only [step, live, next] at taken
        cases prepared : prepareEvent cfg.codec entry answer partition with
        | error err =>
          simp only [prepared, Option.some.injEq] at taken
          subst taken
          exact Moved.crashed _
        | ok result =>
          cases result with
          | none =>
            simp only [prepared, Option.some.injEq] at taken
            subst taken
            exact Moved.skipped d entry rest commits live next prepared
          | some pair =>
            obtain ⟨key, message⟩ := pair
            simp only [prepared, Option.some.injEq] at taken
            subst taken
            exact Moved.sent d entry rest key message live next prepared
              (prepareEvent_position prepared)
  | work worker outcome =>
    cases mailbox : s.mailboxes worker with
    | nil => simp [step, mailbox] at taken
    | cons message rest =>
      simp only [step, mailbox] at taken
      split at taken
      · rename_i up
        cases taken
        exact Moved.worked worker message rest outcome mailbox up
      · exact absurd taken (by simp)
  | restart worker =>
    cases live : s.actor with
    | none => simp [step, live] at taken
    | some d =>
      simp only [step, live] at taken
      split at taken
      · rename_i enabled
        cases taken
        exact Moved.restarted worker d live enabled.2.1 enabled.2.2
      · exact absurd taken (by simp)
  | workOrphan index outcome =>
    cases found : s.orphans[index]? with
    | none => simp [step, found] at taken
    | some message =>
      simp only [step, found, Option.some.injEq] at taken
      subst taken
      exact Moved.workedOrphan index message outcome
  | ack index commits =>
    cases live : s.actor with
    | none => simp [step, live] at taken
    | some d =>
      simp only [step, live] at taken
      split at taken
      · rename_i between
        cases found : s.acks[index]? with
        | none => simp [found] at taken
        | some ack =>
          cases ack with
          | error position message =>
            simp only [found, Option.some.injEq] at taken
            subst taken
            exact Moved.crashed _
          | ok position =>
            simp only [found, Option.some.injEq] at taken
            subst taken
            exact Moved.acked d index position commits live between found
      · exact absurd taken (by simp)
  | crash =>
    cases taken
    exact Moved.crashed _

/-- The writes an acknowledgement adds: none, or the new watermark over the stored one. -/
def AckWrites (row : Option MetaRow) (watermark : Nat) (writes : List (Option Nat × Nat)) : Prop :=
  writes = [] ∨ writes = [(storedPosition row, watermark)]

theorem applyAck_cases {d : Dispatcher} (position : Nat) (commits : Bool)
    (synced : d.progress.lastPosition = storedPosition s.row) :
    applyAck s d position commits = crash s ∨
      ∃ watermark writes,
        calculateWatermark (d.progress.inFlight.remove position) d.progress.cursor
          (max d.progress.highestCompleted position) = some watermark ∧
        AckWrites s.row watermark writes ∧
        (applyAck s d position commits = crash { s with writes := s.writes ++ writes } ∨
          ∃ row, row.isSome = s.row.isSome ∧ storedPosition row = some watermark ∧
            (commits = true ∨ storedPosition s.row = some watermark) ∧
            applyAck s d position commits = { s with
              writes := s.writes ++ writes
              row := row
              actor := some ⟨⟨d.progress.cursor, d.progress.inFlight.remove position,
                max d.progress.highestCompleted position, some watermark⟩, d.batch⟩ }) := by
  unfold applyAck
  cases handled : handleAck d.progress s.row position with
  | error err => exact Or.inl rfl
  | ok result =>
    obtain ⟨progress, row, write⟩ := result
    obtain ⟨watermark, computed, rfl, effect⟩ := handleAck_ok handled
    refine Or.inr ⟨watermark, (write.map (storedPosition s.row, ·)).toList, computed, ?_, ?_⟩
    · rcases effect with ⟨rfl, _, _⟩ | ⟨rfl, _, _⟩
      · exact Or.inl rfl
      · exact Or.inr rfl
    · dsimp only
      by_cases lost : (write.isSome && !commits) = true
      · exact Or.inl (by simp only [lost, ↓reduceIte])
      · refine Or.inr ⟨row, ?_, ?_, ?_, by simp only [lost, Bool.false_eq_true, ↓reduceIte]⟩
        · rcases effect with ⟨_, rfl, _⟩ | ⟨_, _, _, opened⟩
          · rfl
          · exact opened
        · rcases effect with ⟨_, rfl, cached⟩ | ⟨_, _, stored, _⟩
          · rw [← synced, cached]
          · exact stored
        · rcases effect with ⟨_, _, cached⟩ | ⟨rfl, _, _⟩
          · exact Or.inr (by rw [← synced, cached])
          · exact Or.inl (by simpa using lost)

theorem applyAck_commits {d : Dispatcher} {position watermark : Nat}
    (synced : d.progress.lastPosition = storedPosition s.row) (opened : s.row.isSome = true)
    (computed : calculateWatermark (d.progress.inFlight.remove position) d.progress.cursor
      (max d.progress.highestCompleted position) = some watermark) :
    ∃ row progress writes, storedPosition row = some watermark ∧
      applyAck s d position true = { s with
        writes := writes, row := row, actor := some ⟨progress, d.batch⟩ } := by
  obtain ⟨row, found⟩ := Option.isSome_iff_exists.mp opened
  unfold applyAck handleAck
  simp only [computed]
  by_cases same : some watermark = d.progress.lastPosition
  · simp only [same, ↓reduceIte, Option.isSome_none, Bool.false_and, Bool.false_eq_true]
    exact ⟨s.row, _, _, synced.symm, rfl⟩
  · have expected : row.lastPosition = d.progress.lastPosition := by
      rw [synced, found]
      rfl
    simp only [same, ↓reduceIte, updateLastPosition, found, expected, Option.isSome_some,
      Bool.not_true, Bool.and_false, Bool.false_eq_true]
    exact ⟨_, _, _, rfl, rfl⟩

section mailboxes
variable {hash : String → Nat} {d : Dispatcher} {batch : List (Nat × Event)} {key : PartitionKey}
  {message queued : ProcessEvent} {rest : List ProcessEvent} {outcome : HandlerOutcome}
  {worker other : WorkerId} {p : Nat}

theorem queued_sent : queued ∈ (sendEvent hash s d batch key message).mailboxes other ↔
    queued ∈ s.mailboxes other ∨ (other = workerFor hash key ∧ queued = message) := by
  by_cases target : other = workerFor hash key
  · subst target
    simp [sendEvent]
  · simp [sendEvent, target]

theorem queued_worked (mailbox : s.mailboxes worker = message :: rest) :
    queued ∈ s.mailboxes other ↔
      queued ∈ (workStep s worker message rest outcome).mailboxes other ∨
        (other = worker ∧ queued = message) := by
  by_cases here : other = worker
  · subst here
    simp [workStep, mailbox, or_comm]
  · simp [workStep, here]

theorem acked_worked {ack : WorkerAck} : ack ∈ (workStep s worker message rest outcome).acks ↔
    ack ∈ s.acks ∨ ack = outcome.ack message.position := by
  simp [workStep]

theorem committed_worked : p ∈ (workStep s worker message rest outcome).committed ↔
    (outcome.committed = true ∧ p = message.position) ∨ p ∈ s.committed := by
  cases done : outcome.committed <;> simp [workStep, done]

theorem handled_worked : p ∈ (workStep s worker message rest outcome).handled ↔
    p ∈ s.handled ∨ (outcome.committed = true ∧ p = message.position) := by
  cases done : outcome.committed <;> simp [workStep, done]

end mailboxes

structure TidyActor (cfg : Config V) (s : System) (d : Dispatcher) : Prop where
  opened : s.row.isSome = true
  synced : d.progress.lastPosition = storedPosition s.row
  within : d.progress.cursor ≤ s.log.length
  completed : d.progress.highestCompleted ≤ d.progress.cursor
  rest : ∀ p e, (p, e) ∈ d.batch →
    (p, e) ∈ entries s.log ∧ cfg.query.matches e = true ∧ p ≤ d.progress.cursor
  ordered : d.batch.Pairwise (fun a b => a.1 < b.1)
  flying : ∀ p, p ∈ d.progress.inFlight → p ≤ d.progress.cursor
  ahead : ∀ p, p ∈ d.progress.inFlight → ∀ q e, (q, e) ∈ d.batch → p < q
  queued : ∀ worker message, message ∈ s.mailboxes worker → message.position ≤ d.progress.cursor
  acked : ∀ ack, ack ∈ s.acks → ack.position ≤ d.progress.cursor

structure Tidy (cfg : Config V) (s : System) : Prop where
  actor : ∀ d, s.actor = some d → TidyActor cfg s d
  stored : ∀ n, storedPosition s.row = some n → n ≤ s.log.length

omit [DecidableEq V] in
theorem tidy_rest {d : Dispatcher} {entry : Nat × Event} {rest : List (Nat × Event)}
    (tidy : TidyActor cfg s d) (next : d.batch = entry :: rest) :
    entry.1 ≤ d.progress.cursor ∧ (∀ q e, (q, e) ∈ rest → (q, e) ∈ d.batch) ∧
      (∀ q e, (q, e) ∈ rest → entry.1 < q) ∧ rest.Pairwise (fun a b => a.1 < b.1) := by
  have ordered := tidy.ordered
  rw [next] at ordered
  obtain ⟨above, tail⟩ := List.pairwise_cons.mp ordered
  have here : entry ∈ d.batch := by
    rw [next]
    exact List.mem_cons_self
  refine ⟨(tidy.rest entry.1 entry.2 here).2.2, ?_, fun q e member => above (q, e) member, tail⟩
  intro q e member
  rw [next]
  exact List.mem_cons_of_mem entry member

omit [DecidableEq V] in
theorem tidy_skipping {d : Dispatcher} {entry : Nat × Event} {rest : List (Nat × Event)}
    {shredded : List Nat} (tidy : TidyActor cfg s d) (next : d.batch = entry :: rest) :
    TidyActor cfg { s with shredded := shredded } (skipping d rest entry.1) := by
  obtain ⟨bound, later, above, tail⟩ := tidy_rest tidy next
  refine ⟨tidy.opened, tidy.synced, tidy.within, tidy.completed,
    fun p e member => tidy.rest p e (later p e member), tail, ?_, ?_, tidy.queued, tidy.acked⟩
  · intro p member
    rcases OrderedSet.mem_insert.mp member with same | flying
    · exact same ▸ bound
    · exact tidy.flying p flying
  · intro p member q e inRest
    rcases OrderedSet.mem_insert.mp member with same | flying
    · exact same ▸ above q e inRest
    · exact tidy.ahead p flying q e (later q e inRest)

omit [DecidableEq V] in
theorem tidy_crash (stored : ∀ n, storedPosition s.row = some n → n ≤ s.log.length) :
    Tidy cfg (crash s) := by
  constructor
  · exact fun _ live => absurd live (by simp [crash])
  · exact stored

omit [DecidableEq V] in
theorem tidy_received {d : Dispatcher} (tidy : TidyActor cfg s d) (index : Nat) :
    TidyActor cfg { s with acks := s.acks.eraseIdx index } d :=
  { tidy with acked := fun ack member => tidy.acked ack (List.mem_of_mem_eraseIdx member) }

omit [DecidableEq V] in
theorem tidy_applyAck {d : Dispatcher} {position : Nat} {commits : Bool}
    (stored : ∀ n, storedPosition s.row = some n → n ≤ s.log.length) (tidy : TidyActor cfg s d)
    (delivered : position ≤ d.progress.cursor) : Tidy cfg (applyAck s d position commits) := by
  rcases applyAck_cases position commits tidy.synced with
    crashed | ⟨watermark, writes, computed, _, result⟩
  · rw [crashed]
    exact tidy_crash stored
  · rcases result with crashed | ⟨row, opened, updated, _, applied⟩
    · rw [crashed]
      exact tidy_crash stored
    · rw [applied]
      have flying : ∀ p, p ∈ d.progress.inFlight.remove position → p ≤ d.progress.cursor :=
        fun p member => tidy.flying p (OrderedSet.mem_remove.mp member).1
      have completed : max d.progress.highestCompleted position ≤ d.progress.cursor :=
        Nat.max_le.mpr ⟨tidy.completed, delivered⟩
      constructor
      · intro d' live
        obtain rfl := Option.some.inj live
        exact { tidy with
          opened := opened.trans tidy.opened
          synced := updated.symm
          completed := completed
          flying := flying
          ahead := fun p member => tidy.ahead p (OrderedSet.mem_remove.mp member).1 }
      · intro n found
        rw [updated] at found
        obtain rfl := Option.some.inj found
        exact Nat.le_trans (watermark_le_cursor computed completed flying) tidy.within

omit [DecidableEq V] in
theorem tidy_appended (events : List Event) (tidy : Tidy cfg s) :
    Tidy cfg { s with log := s.log ++ events } := by
  have longer : s.log.length ≤ (s.log ++ events).length := by simp
  refine ⟨?_, fun n found => Nat.le_trans (tidy.stored n found) longer⟩
  intro d live
  have old := tidy.actor d live
  have rest : ∀ p e, (p, e) ∈ d.batch →
      (p, e) ∈ entries (s.log ++ events) ∧ cfg.query.matches e = true ∧
        p ≤ d.progress.cursor := by
    intro p e member
    obtain ⟨inLog, selected, bound⟩ := old.rest p e member
    exact ⟨mem_entries_append_left inLog, selected, bound⟩
  exact { old with within := Nat.le_trans old.within longer, rest := rest }

omit [DecidableEq V] in
theorem tidy_started (version : Version) (tidy : Tidy cfg s) :
    Tidy cfg (startActor cfg s version) := by
  have stored : ∀ n, storedPosition (startActor cfg s version).row = some n →
      n ≤ s.log.length := by
    intro n found
    rw [startActor, openDatabase_position] at found
    split at found
    · exact absurd found (by simp)
    · exact tidy.stored n found
  refine ⟨?_, stored⟩
  intro d live
  obtain rfl := Option.some.inj live
  refine ⟨rfl, rfl, ?_, Nat.zero_le _, by simp, List.Pairwise.nil, by simp, by simp, ?_, ?_⟩
  · dsimp only
    cases found : storedPosition (openDatabase () cfg.name version ⟨s.row, ()⟩).row with
    | none => exact Nat.zero_le _
    | some n => exact stored n found
  · intro worker message member
    exact absurd member (by simp [startActor])
  · intro ack member
    exact absurd member (by simp [startActor])

omit [DecidableEq V] in
theorem tidy_batched {d : Dispatcher} {upto : Nat} (tidy : Tidy cfg s) (live : s.actor = some d)
    (forward : d.progress.cursor ≤ upto) (inside : upto ≤ s.log.length) :
    Tidy cfg (readBatch cfg.query s d upto) := by
  have old := tidy.actor d live
  refine ⟨?_, tidy.stored⟩
  intro d' live'
  obtain rfl := Option.some.inj live'
  constructor
  · exact old.opened
  · exact old.synced
  · exact inside
  · exact Nat.le_trans old.completed forward
  · intro p e member
    obtain ⟨inLog, _, bound, selected⟩ := mem_window.mp member
    exact ⟨inLog, selected, bound⟩
  · exact window_ascending _ _ _ _
  · exact fun p member => Nat.le_trans (old.flying p member) forward
  · intro p flying q e member
    obtain ⟨_, above, _, _⟩ := mem_window.mp member
    exact Nat.lt_of_le_of_lt (old.flying p flying) above
  · exact fun worker message member => Nat.le_trans (old.queued worker message member) forward
  · exact fun ack member => Nat.le_trans (old.acked ack member) forward

omit [DecidableEq V] in
theorem tidy_sent {d : Dispatcher} {entry : Nat × Event} {rest : List (Nat × Event)}
    {key : PartitionKey} {message : ProcessEvent} (tidy : Tidy cfg s) (live : s.actor = some d)
    (next : d.batch = entry :: rest) (position : message.position = entry.1) :
    Tidy cfg (sendEvent cfg.hash s d rest key message) := by
  have old := tidy.actor d live
  obtain ⟨bound, later, above, tail⟩ := tidy_rest old next
  refine ⟨?_, tidy.stored⟩
  intro d' live'
  obtain rfl := Option.some.inj live'
  refine ⟨old.opened, old.synced, old.within, old.completed,
    fun p e member => old.rest p e (later p e member), tail, ?_, ?_, ?_, old.acked⟩
  · intro p member
    rcases OrderedSet.mem_insert.mp member with same | flying
    · rw [same, position]
      exact bound
    · exact old.flying p flying
  · intro p member q e inRest
    rcases OrderedSet.mem_insert.mp member with same | flying
    · rw [same, position]
      exact above q e inRest
    · exact old.ahead p flying q e (later q e inRest)
  · intro worker queued member
    rcases queued_sent.mp member with waiting | ⟨_, rfl⟩
    · exact old.queued worker queued waiting
    · rw [position]
      exact bound

omit [DecidableEq V] in
theorem tidy_worked {worker : WorkerId} {message : ProcessEvent} {rest : List ProcessEvent}
    {outcome : HandlerOutcome} (tidy : Tidy cfg s)
    (mailbox : s.mailboxes worker = message :: rest) :
    Tidy cfg (workStep s worker message rest outcome) := by
  refine ⟨?_, tidy.stored⟩
  intro d live
  have old := tidy.actor d live
  have front : message.position ≤ d.progress.cursor :=
    old.queued worker message (by rw [mailbox]; exact List.mem_cons_self)
  have queued : ∀ other queued,
      queued ∈ (workStep s worker message rest outcome).mailboxes other →
        queued.position ≤ d.progress.cursor := by
    intro other queued member
    exact old.queued other queued ((queued_worked mailbox).mpr (Or.inl member))
  have acked : ∀ ack ∈ (workStep s worker message rest outcome).acks,
      ack.position ≤ d.progress.cursor := by
    intro ack member
    rcases acked_worked.mp member with waiting | rfl
    · exact old.acked ack waiting
    · cases outcome <;> exact front
  exact { old with queued := queued, acked := acked }

theorem tidy_step {a : Action} (tidy : Tidy cfg s) (taken : step cfg s a = some t) :
    Tidy cfg t := by
  cases moved_of_step taken with
  | appended events => exact tidy_appended events tidy
  | started version idle => exact tidy_started version tidy
  | batched d upto live done forward inside => exact tidy_batched tidy live forward inside
  | skipped d entry rest commits live next shredded =>
    have old := tidy.actor d live
    exact tidy_applyAck tidy.stored (tidy_skipping old next) (tidy_rest old next).1
  | sent d entry rest key message live next plain position =>
    exact tidy_sent tidy live next position
  | worked worker message rest outcome mailbox => exact tidy_worked tidy mailbox
  | restarted worker d live =>
    refine ⟨?_, tidy.stored⟩
    intro d' live'
    have old := tidy.actor d' live'
    exact { old with }
  | workedOrphan index message outcome =>
    refine ⟨?_, tidy.stored⟩
    intro d live
    have old := tidy.actor d live
    exact { old with }
  | acked d index position commits live between found =>
    have old := tidy.actor d live
    have bound : position ≤ d.progress.cursor :=
      old.acked (.ok position) (List.mem_of_getElem? found)
    exact tidy_applyAck tidy.stored (tidy_received old index) bound
  | crashed => exact tidy_crash tidy.stored

omit [DecidableEq V] in
theorem tidy_initial (cfg : Config V) (log : List Event) : Tidy cfg (initial log) := by
  constructor
  · exact fun _ live => absurd live (by simp [initial])
  · exact fun _ found => absurd found (by simp [initial, storedPosition])

def sampleConfig : Config String where
  codec := sampleCodec
  query := .all
  hash := fun _ => 0
  name := "notify"

end UmariPooledDispatch
