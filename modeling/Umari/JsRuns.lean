import Umari.JsEventIds
import Umari.ReplayAgreement

/-!
The whole run of a command in both SDKs, from the parsed input to what the host gets
back. The read and the commit of a run may see different logs. Nothing of a transaction
but its watermark, the events it read and the events its query matches makes a
difference to a run; how the query is written does not.
-/
namespace UmariJsRuns
open FallibleFolds PositionedLogs UmariEventStore UmariStoredEvents UmariTransactions
  UmariBatchLoops UmariDcbQueries UmariCommandRuns
open UmariFolds (Command RunningFold RunError Outcome)
open UmariJsFolds (Json JsError Slot RunResult)
open UmariJsEventIds (eventIdFromCausation newV5 idempotencyNamespace)

structure WitEmittedEvent where
  id : String
  eventType : String
  domainIds : List DomainId
deriving DecidableEq, Repr

structure WitExecuteOutput where
  position : Option Nat
  events : List WitEmittedEvent
deriving DecidableEq, Repr

/-- The two errors of the command world, and the ways a guest traps. -/
inductive GuestError where
  | rejected (message : String)
  | invalidInput (message : String)
  | host (error : TransactionError)
  | trap (message : String)
  | outOfFuel
deriving DecidableEq, Repr

structure GuestEnd where
  log : List Event
  answer : Except GuestError WitExecuteOutput

/-- What a run meets: the transactions that are open, the log and the snapshot of its
    read, the log at its commit, and the answers of the key store to both. -/
structure Setting (V : Type) where
  codec : Codec V
  rules : NameRules
  transactions : Transactions
  log : List Event
  snapshot : Except String Nat
  getKey : Nat → Uuid → Except String (Option CryptoKey)
  later : List Event
  createKey : String → Except String (Uuid × CryptoKey)
  guest : Guest

section rust
variable {V I : Type}

/-- An error of the run or of the closure is an `anyhow` error, and every one of these is
    a rejection. -/
def lowerError : ExecuteError → GuestError
  | .rejected error => .rejected error
  | .run (.fold error) => .rejected error
  | .run (.host error) => .host error
  | .run (.panic message) => .trap message
  | .run .outOfFuel => .outOfFuel

def lowerOutput (codec : Codec V) (output : ExecuteOutput) : WitExecuteOutput :=
  ⟨output.position, output.events.map fun event =>
    ⟨codec.uuidToString event.id, event.eventType, event.domainIds⟩⟩

/-- A command's run from the replay's outcome on; `f` is the closure with its input. -/
def finishRust (setting : Setting V) (context : RunContext)
    (f : List (RunningFold V) → Except String (List (EmitItem V))) (transactions : Transactions)
    (tx : Nat) (outcome : Outcome V) : GuestEnd :=
  let decision := match outcome with
    | .idempotent => .ok []
    | .states finals => f finals
  let done := finishRun setting.codec setting.rules (newV5 idempotencyNamespace)
    setting.createKey setting.later transactions tx setting.guest context outcome decision
  ⟨done.log, (done.result.map (lowerOutput setting.codec)).mapError lowerError⟩

def rustRun [DecidableEq V] (setting : Setting V) (fuel : Nat) (cmd : Command V I)
    (context : RunContext) (f : List (RunningFold V) → Except String (List (EmitItem V))) :
    GuestEnd :=
  match cmd.replay setting.codec setting.rules setting.getKey fuel setting.log
      setting.transactions setting.snapshot with
  | .error err => ⟨setting.later, .error (lowerError (.run err))⟩
  | .ok (transactions, tx, outcome) => finishRust setting context f transactions tx outcome

end rust

section javascript
variable {V W I : Type}

/-- An event as `defineEvent` makes it; its data may hold what JSON does not. -/
structure EmittedEventPayload (W : Type) where
  eventType : String
  data : W
  domainIds : DomainIdBindings
  encryptionScope : Option String

inductive BodyError where
  | reject (message : String)
  | invalidInput (message : String)
  | thrown (message : String)
deriving DecidableEq, Repr

structure JsCommand (V W I : Type) extends UmariJsCommands.CommandDefinition V I where
  execute : I → List (Slot V) → CommandContext →
    Except BodyError (Option (List (EmittedEventPayload W)))

def BodyError.lower : BodyError → GuestError
  | .reject message => .rejected message
  | .invalidInput message => .invalidInput message
  | .thrown message => .trap message

def lowerJsError : JsError → GuestError
  | .thrown message => .trap message
  | .host error => .host error
  | .outOfFuel => .outOfFuel

def lowerEmitEvent (stringifyPayload : W → Except String String) (id : String)
    (event : EmittedEventPayload W) : Except String EmitEvent :=
  (stringifyPayload event.data).map fun data =>
    { id := id
      eventType := event.eventType
      data := data
      domainIds := event.domainIds.entries.map fun pair => ⟨pair.1, pair.2⟩
      encryptionScope := event.encryptionScope }

def witEvent (stringifyPayload : W → Except String String) (context : CommandContext)
    (entry : EmittedEventPayload W × Nat) : Except String EmitEvent :=
  (eventIdFromCausation context.correlationId context.causationId entry.2).bind fun id =>
    lowerEmitEvent stringifyPayload id entry.1

def emittedEvent (event : EmitEvent) : WitEmittedEvent :=
  ⟨event.id, event.eventType, event.domainIds⟩

variable (setting : Setting V) (stringifyPayload : W → Except String String)
  (context : RunContext)

def commitEvents (transactions : Transactions) (tx : Nat) (events : List EmitEvent) : GuestEnd :=
  match (hostCommit setting.codec setting.rules setting.createKey setting.later transactions tx
      setting.guest context events).2 with
  | .error err => ⟨setting.later, .error (.host err)⟩
  | .ok done => ⟨done.log, .ok ⟨done.position, events.map emittedEvent⟩⟩

def finishCommand (cmd : JsCommand V W I) (input : I) (transactions : Transactions) (tx : Nat) :
    RunResult V → GuestEnd
  | .idempotent => commitEvents setting context transactions tx []
  | .drained states =>
    match cmd.execute input states (context.toWit setting.codec) with
    | .error err => ⟨setting.later, .error err.lower⟩
    | .ok emitted =>
      match (emitted.getD []).zipIdx.mapM
          (witEvent stringifyPayload (context.toWit setting.codec)) with
      | .error message => ⟨setting.later, .error (.trap message)⟩
      | .ok events => commitEvents setting context transactions tx events

def jsRun (json : Json V) (fuel : Nat) (cmd : JsCommand V W I) (input : I) : GuestEnd :=
  match UmariJsCommands.replay json setting.codec cmd.toCommandDefinition setting.rules
      setting.getKey fuel setting.log setting.transactions setting.snapshot input
      (context.idempotencyKey.map setting.codec.uuidToString) with
  | .error err => ⟨setting.later, .error (lowerJsError err)⟩
  | .ok (transactions, tx, result) =>
    finishCommand setting stringifyPayload context cmd input transactions tx result

end javascript

end UmariJsRuns
