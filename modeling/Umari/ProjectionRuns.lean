import Umari.BoundedChannels
import Umari.GroupedQueries
import Umari.SealedEvents
import Umari.TerminatingRuns

/-!
A run of an ad-hoc projection: a reader thread scans the store and hands raw
batches to the async side, which lifts them and feeds them to the thread that owns
the JavaScript context. The three parties share two bounded channels and two
one-shot channels; the wall-clock budget interrupts the script and ends the wait.
QuickJS and `JSON` are parameters, as is what one read of the store gives.
-/
namespace UmariProjectionRuns
open BoundedChannels GuardedRuns UmariEventStore UmariStoredEvents UmariSealedEvents
open UmariGroupedQueries (EventEntry buildQuery)
variable {V J σ : Type}

/-- Batches in flight between the async feeder and the JavaScript worker. -/
def batchChannelCap : Nat := 4

def readBatch : Nat := 256

def rawChannelCap : Nat := 2

structure ProjectionOutcome (V : Type) where
  result : V
  logs : List String
deriving DecidableEq

inductive ProjectionError where
  | script (message : String)
  | store (message : String)
  | timeout
  | internal (message : String)
deriving DecidableEq

/-- What a script evaluates to; `none` when it goes on until it is interrupted. -/
abbrev Evaluation (α : Type) : Type := ExceptT String Option α

/-- A script in its context. `setup` gives the declared events as JSON, `parse` is the
    context's `JSON.parse`, `finish` gives the view and what was logged. -/
structure Script (J σ : Type) where
  setup : Evaluation (σ × String)
  parse : String → Evaluation (List J)
  handle : σ → J → Evaluation σ
  finish : σ → Evaluation (String × List String)

def Script.runBatch (script : Script J σ) (state : σ) (json : String) : Evaluation σ := do
  let events ← script.parse json
  events.foldlM script.handle state

structure LiftedEvent (V : Type) where
  id : String
  position : Nat
  eventType : String
  tags : List String
  timestamp : String
  correlationId : String
  causationId : String
  triggeringEventId : Option String
  idempotencyKey : Option String
  encryptionScope : Option String
  encryptionKeyId : Option String
  data : V
deriving DecidableEq

/-- What a run is given. The key store answers as it stands when the event at a
    position is lifted; `read` gives the events of one scan and where it failed. -/
structure Job (V J σ : Type) where
  codec : Codec V
  rules : NameRules
  rfc3339 : Int → String
  keyById : Nat → Uuid → Except String (Option CryptoKey)
  keyByScope : Nat → String → Except String (Option (Uuid × CryptoKey))
  read : Query → Option Nat → List (Except String (Nat × Event))
  limit : Option Nat
  parseEntries : String → Except String (List (EventEntry V))
  toJson : List (LiftedEvent V) → Except String String
  script : Script J σ

def ProjectionError.ofQuery : UmariGroupedQueries.ProjectionError → ProjectionError
  | .script message => .script message

namespace Job

def liftEvent (job : Job V J σ) (position : Nat) (event : Event) : Option (LiftedEvent V) :=
  match job.codec.storedFromSlice event.data with
  | .error _ => none
  | .ok stored =>
    let data := EventDecode.decryptEventData job.codec (job.keyById position)
      (job.keyByScope position) stored (some stored.eventId)
    some {
      id := job.codec.uuidToString stored.eventId
      position := position
      eventType := event.eventType
      tags := event.tags
      timestamp := job.rfc3339 stored.timestamp
      correlationId := job.codec.uuidToString stored.correlationId
      causationId := job.codec.uuidToString stored.causationId
      triggeringEventId := stored.triggeringEventId.map job.codec.uuidToString
      idempotencyKey := stored.idempotencyKey.map job.codec.uuidToString
      encryptionScope := stored.encryptionScope
      encryptionKeyId := stored.encryptionKeyId.map job.codec.uuidToString
      data := data.intoValue job.codec }

/-- A raw batch without the events whose envelope cannot be read. -/
def lift (job : Job V J σ) (batch : List (Nat × Event)) : List (LiftedEvent V) :=
  batch.filterMap fun entry => job.liftEvent entry.1 entry.2

def query (job : Job V J σ) (eventsJson : String) : Except ProjectionError Query := do
  let entries ← (job.parseEntries eventsJson).mapError fun err =>
    .script ("invalid `events` declaration: " ++ err)
  (buildQuery job.codec job.rules entries).mapError .ofQuery

def outcome (job : Job V J σ) (json : String) (logs : List String) :
    Except ProjectionError (ProjectionOutcome V) :=
  match job.codec.fromStr json with
  | .ok result => .ok ⟨result, logs⟩
  | .error err => .error (.internal err)

end Job

inductive Reader where
  | unspawned
  | scanning (rest : List (Except String (Nat × Event))) (batch : List (Nat × Event))
  | sending (rest : List (Except String (Nat × Event))) (batch : List (Nat × Event))
  | last (batch : List (Nat × Event))
  | returned (result : Except String Unit)

inductive Feeder (V : Type) where
  | awaitingSetup
  | receiving
  | sending (json : String)
  | joining
  | waiting
  | returned (outcome : Except ProjectionError (ProjectionOutcome V))

inductive Worker (σ : Type) where
  | starting
  | receiving (state : σ)
  | folding (state : σ) (json : String)
  | finishing (state : σ)
  | sent
  | exited

/-- The receiver of the raw batches, dropped when the async side stops feeding. -/
def Feeder.holdsRaw : Feeder V → Bool
  | .receiving | .sending _ => true
  | _ => false

def Feeder.holdsBatches : Feeder V → Bool
  | .awaitingSetup | .receiving | .sending _ => true
  | _ => false

/-- The budget's timeout drops whatever the async side still holds. -/
def Feeder.running : Feeder V → Bool
  | .returned _ => false
  | _ => true

def Reader.finished : Reader → Bool
  | .returned _ => true
  | _ => false

def Worker.stopped : Worker σ → Bool
  | .exited => true
  | _ => false

structure State (V σ : Type) where
  reader : Reader
  feeder : Feeder V
  worker : Worker σ
  raw : Channel (List (Nat × Event)) rawChannelCap
  batches : Channel String batchChannelCap
  setup : Option (Except String String)
  result : Option (Except String (String × List String))

def start : State V σ := ⟨.unspawned, .awaitingSetup, .starting, .empty, .empty, none, none⟩

/-- A step of one of the three parties, an interrupt of the script once the deadline
    has passed, or the end of the async side's budget. -/
inductive Action where
  | reader
  | feeder
  | worker
  | interrupt (message : String)
  | timeout
deriving DecidableEq

namespace State

/-- The async side returns and with it drops the channel ends it holds. -/
def leave (s : State V σ) (outcome : Except ProjectionError (ProjectionOutcome V)) : State V σ :=
  { s with feeder := .returned outcome, raw := .empty }

/-- `blocking_send`: an error once the receiver is gone, else it waits for room. -/
def send (s : State V σ) (batch : List (Nat × Event)) (next : Reader) : Option (State V σ) :=
  if s.feeder.holdsRaw then (s.raw.push batch).map fun raw => { s with raw := raw, reader := next }
  else some { s with reader := .returned (.ok ()) }

end State

section step
variable (job : Job V J σ) (s : State V σ)

def stepReader : Option (State V σ) :=
  match s.reader with
  | .unspawned => none
  | .scanning [] [] => some { s with reader := .returned (.ok ()) }
  | .scanning [] batch => some { s with reader := .last batch }
  | .scanning (.error err :: _) _ => some { s with reader := .returned (.error err) }
  | .scanning (.ok entry :: rest) batch =>
    let batch := batch ++ [entry]
    some { s with reader :=
      if readBatch ≤ batch.length then .sending rest batch else .scanning rest batch }
  | .sending rest batch => s.send batch (.scanning rest [])
  | .last batch => s.send batch (.returned (.ok ()))
  | .returned _ => none

def stepFeeder : Option (State V σ) :=
  match s.feeder with
  | .awaitingSetup =>
    match s.setup with
    | some (.ok eventsJson) =>
      match job.query eventsJson with
      | .error err => some (s.leave (.error err))
      | .ok query => some { s with
          feeder := .receiving, reader := .scanning (job.read query job.limit) [] }
    | some (.error err) => some (s.leave (.error (.script err)))
    | none =>
      if s.worker.stopped then
        some (s.leave (.error (.internal "projection worker exited during setup")))
      else none
  | .receiving =>
    match s.raw.pop with
    | some (batch, raw) =>
      match job.toJson (job.lift batch) with
      | .ok json => some { s with raw := raw, feeder := .sending json }
      | .error err => some (s.leave (.error (.internal err)))
    | none => if s.reader.finished then some { s with feeder := .joining } else none
  | .sending json =>
    -- the worker is gone, so the rest is not fed
    if s.worker.stopped then some { s with raw := .empty, feeder := .joining }
    else (s.batches.push json).map fun batches =>
      { s with batches := batches, feeder := .receiving }
  | .joining =>
    match s.reader with
    | .returned (.ok ()) => some { s with feeder := .waiting }
    | .returned (.error err) => some (s.leave (.error (.store err)))
    | _ => none
  | .waiting =>
    match s.result with
    | some (.ok (json, logs)) => some (s.leave (job.outcome json logs))
    | some (.error err) => some (s.leave (.error (.script err)))
    | none =>
      if s.worker.stopped then some (s.leave (.error (.internal "projection worker exited")))
      else none
  | .returned _ => none

def stepWorker : Option (State V σ) :=
  match s.worker with
  | .starting =>
    match job.script.setup with
    | none => none
    | some (.error err) => some { s with setup := some (.error err), worker := .exited }
    | some (.ok (state, eventsJson)) =>
      if s.feeder.running then
        some { s with setup := some (.ok eventsJson), worker := .receiving state }
      else some { s with worker := .exited }
  | .receiving state =>
    match s.batches.pop with
    | some (json, batches) => some { s with batches := batches, worker := .folding state json }
    | none => if s.feeder.holdsBatches then none else some { s with worker := .finishing state }
  | .folding state json =>
    match job.script.runBatch state json with
    | none => none
    | some (.error err) => some { s with result := some (.error err), worker := .sent }
    | some (.ok after) => some { s with worker := .receiving after }
  | .finishing state =>
    match job.script.finish state with
    | none => none
    | some result => some { s with result := some result, worker := .sent }
  | .sent => some { s with worker := .exited, batches := .empty }
  | .exited => none

def interrupt (message : String) : Option (State V σ) :=
  match s.worker with
  | .starting => some { s with setup := some (.error message), worker := .exited }
  | .folding _ _ => some { s with result := some (.error message), worker := .sent }
  | .finishing _ => some { s with result := some (.error message), worker := .sent }
  | _ => none

def timeout : Option (State V σ) :=
  if s.feeder.running then some (s.leave (.error .timeout)) else none

def step : Action → Option (State V σ)
  | .reader => stepReader s
  | .feeder => stepFeeder job s
  | .worker => stepWorker job s
  | .interrupt message => interrupt s message
  | .timeout => timeout s

end step

end UmariProjectionRuns
