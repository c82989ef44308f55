import Umari.Folds
import Umari.SealedEvents

/-!
The end of a command's run: the events its decision emits, each under an identifier
derived from the context and the event's index, and the commit that follows the replay.
The context is copied freely, so several runs of one guest may carry the same one.
-/
namespace UmariCommandRuns
open FallibleFolds UmariEventStore UmariStoredEvents UmariTransactions UmariDcbQueries UmariFolds
open UmariSealedEvents
variable {V : Type}

structure RunContext where
  correlationId : Uuid
  causationId : Uuid
  triggeringEventId : Option Uuid
  idempotencyKey : Option Uuid
deriving DecidableEq, Repr

def RunContext.toWit (codec : Codec V) (context : RunContext) : CommandContext where
  correlationId := codec.uuidToString context.correlationId
  causationId := codec.uuidToString context.causationId
  triggeringEventId := context.triggeringEventId.map codec.uuidToString
  idempotencyKey := context.idempotencyKey.map codec.uuidToString

structure EmitItem (V : Type) where
  eventType : String
  data : V
  domainIds : DomainIdBindings
  encryptionScope : Option String

def EmitItem.tags (item : EmitItem V) : List String :=
  item.domainIds.entries.map fun pair => fieldTag pair.1 pair.2

def bigEndian : Nat → Nat → List UInt8
  | 0, _ => []
  | k + 1, n => bigEndian k (n / 256) ++ [UInt8.ofNat n]

def asBytes (id : Uuid) : List UInt8 := bigEndian 16 id.toNat

/-- The name an event's identifier is derived from; four bytes hold `i as u32`. -/
def idKey (context : RunContext) (i : Nat) : List UInt8 :=
  asBytes context.correlationId ++ asBytes context.causationId ++ bigEndian 4 i

inductive ExecuteError where
  | run (error : RunError)
  | rejected (error : String)
deriving DecidableEq, Repr

structure OutputEvent where
  id : Uuid
  eventType : String
  domainIds : List DomainId
deriving DecidableEq, Repr

structure ExecuteOutput where
  position : Option Nat
  events : List OutputEvent
deriving DecidableEq, Repr

structure RunEnd where
  log : List Event
  transactions : Transactions
  result : Except ExecuteError ExecuteOutput

/-- The text of a UUID reads back as that UUID, if at all. -/
def KeepsUuids (codec : Codec V) : Prop :=
  ∀ id found, codec.parseUuid (codec.uuidToString id) = some found → found = id

section run
variable (codec : Codec V) (rules : NameRules) (newV5 : List UInt8 → Uuid)

def emitEvent (context : RunContext) (entry : EmitItem V × Nat) : EmitEvent where
  id := codec.uuidToString (newV5 (idKey context entry.2))
  eventType := entry.1.eventType
  data := codec.toString entry.1.data
  domainIds := entry.1.domainIds.entries.map fun pair => ⟨pair.1, pair.2⟩
  encryptionScope := entry.1.encryptionScope

def emitEvents (context : RunContext) (emit : List (EmitItem V)) : List EmitEvent :=
  emit.zipIdx.map (emitEvent codec newV5 context)

def outputEvent (event : EmitEvent) : Except ExecuteError OutputEvent :=
  match codec.parseUuid event.id with
  | some id => .ok ⟨id, event.eventType, event.domainIds⟩
  | none => .error (.run (.panic "called `Result::unwrap()` on an `Err` value"))

/-- `commit` of the transaction resource; an error of it traps the guest. -/
def hostCommit (createKey : String → Except String (Uuid × CryptoKey)) (log : List Event)
    (transactions : Transactions) (tx : Nat) (guest : Guest) (context : RunContext)
    (events : List EmitEvent) : Transactions × Except TransactionError Committed :=
  match envelopeOf codec guest (context.toWit codec) with
  | .error err => (transactionDrop transactions tx, .error err)
  | .ok envelope => transactionCommit codec rules createKey log transactions tx events envelope

/-- The run from the replay's outcome on; `decision` is what the execute closure returns. -/
def finishRun (createKey : String → Except String (Uuid × CryptoKey)) (log : List Event)
    (transactions : Transactions) (tx : Nat) (guest : Guest) (context : RunContext)
    (outcome : Outcome V) (decision : Except String (List (EmitItem V))) : RunEnd :=
  let commit := hostCommit codec rules createKey log transactions tx guest context
  match outcome, decision with
  | .idempotent, _ =>
    match commit [] with
    | (transactions, .error err) => ⟨log, transactions, .error (.run (.host err))⟩
    | (transactions, .ok done) => ⟨done.log, transactions, .ok ⟨done.position, []⟩⟩
  | .states _, .error err => ⟨log, transactionDrop transactions tx, .error (.rejected err)⟩
  | .states _, .ok emit =>
    match commit (emitEvents codec newV5 context emit) with
    | (transactions, .error err) => ⟨log, transactions, .error (.run (.host err))⟩
    | (transactions, .ok done) => ⟨done.log, transactions, do
        let events ← (emitEvents codec newV5 context emit).mapM (outputEvent codec)
        pure ⟨done.position, events⟩⟩

end run

theorem emitEvents_names (codec : Codec V) (newV5 : List UInt8 → Uuid) (context : RunContext)
    (emit : List (EmitItem V)) :
    List.Forall₂ (fun item event => event.eventType = item.eventType ∧ event.tagStrings = item.tags)
      emit (emitEvents codec newV5 context emit) := by
  have general : ∀ start, List.Forall₂ (fun (item : EmitItem V) (event : EmitEvent) =>
      event.eventType = item.eventType ∧ event.tagStrings = item.tags) emit
      ((emit.zipIdx start).map (emitEvent codec newV5 context)) := by
    induction emit with
    | nil => exact fun _ => List.Forall₂.nil
    | cons item rest ih =>
      intro start
      rw [List.zipIdx_cons, List.map_cons]
      apply List.Forall₂.cons
      · constructor
        · rfl
        · simp [EmitEvent.tagStrings, EmitItem.tags, emitEvent, fieldTag]
      · exact ih (start + 1)
  exact general 0

section facts
variable {codec : Codec V} {rules : NameRules} {newV5 : List UInt8 → Uuid}
  {createKey : String → Except String (Uuid × CryptoKey)} {log : List Event}
  {transactions transactions' : Transactions} {tx : Nat} {guest : Guest} {context : RunContext}
  {events : List EmitEvent}

theorem hostCommit_transactions {result : Except TransactionError Committed}
    (committed : hostCommit codec rules createKey log transactions tx guest context events =
      (transactions', result)) :
    transactions' = transactions ∨ transactions' = transactionDrop transactions tx := by
  unfold hostCommit at committed
  cases stamped : envelopeOf codec guest (context.toWit codec) with
  | error err =>
    rw [stamped] at committed
    exact Or.inr (Prod.mk.inj committed).1.symm
  | ok envelope =>
    rw [stamped] at committed
    exact transactionCommit_transactions committed

theorem hostCommit_ok {done : Committed}
    (committed : hostCommit codec rules createKey log transactions tx guest context events =
      (transactions', .ok done)) :
    ∃ envelope, envelopeOf codec guest (context.toWit codec) = .ok envelope ∧
      transactionCommit codec rules createKey log transactions tx events envelope =
        (transactions', .ok done) := by
  unfold hostCommit at committed
  cases stamped : envelopeOf codec guest (context.toWit codec) with
  | error err =>
    rw [stamped] at committed
    exact absurd (Prod.mk.inj committed).2 (by simp)
  | ok envelope =>
    rw [stamped] at committed
    exact ⟨envelope, rfl, committed⟩

theorem hostCommit_grown {done : Committed}
    (committed : hostCommit codec rules createKey log transactions tx guest context events =
      (transactions', .ok done)) : ∃ batch, done.log = log ++ batch := by
  obtain ⟨_, _, stored⟩ := hostCommit_ok committed
  obtain ⟨_, batch, _, _, grown, _⟩ := transactionCommit_ok stored
  exact ⟨batch, grown⟩

theorem hostCommit_nothing {done : Committed}
    (committed : hostCommit codec rules createKey log transactions tx guest context [] =
      (transactions', .ok done)) : done.log = log := by
  obtain ⟨batch, grown⟩ := hostCommit_grown committed
  obtain ⟨_, _, stored⟩ := hostCommit_ok committed
  have built := committed_batch stored grown
  obtain ⟨pending, parsed, encoded, _⟩ := batchToAppend_ok built
  cases parsed
  cases encoded
  rw [grown, List.append_nil]

theorem finishRun_cases {outcome : Outcome V} {decision : Except String (List (EmitItem V))}
    {finished : RunEnd} (run : finishRun codec rules newV5 createKey log transactions tx guest
      context outcome decision = finished) :
    (finished.transactions = transactions ∨
      finished.transactions = transactionDrop transactions tx) ∧
    (finished.log = log ∨ ∃ finals emit done, outcome = .states finals ∧ decision = .ok emit ∧
      hostCommit codec rules createKey log transactions tx guest context
        (emitEvents codec newV5 context emit) = (finished.transactions, .ok done) ∧
      finished.log = done.log) := by
  subst run
  cases outcome with
  | idempotent =>
    cases committed : hostCommit codec rules createKey log transactions tx guest context [] with
    | mk left result =>
      cases result with
      | error err =>
        simp only [finishRun, committed, true_or, and_true]
        exact hostCommit_transactions committed
      | ok done =>
        simp only [finishRun, committed]
        exact ⟨hostCommit_transactions committed, Or.inl (hostCommit_nothing committed)⟩
  | states finals =>
    cases decision with
    | error err => exact ⟨Or.inr rfl, Or.inl rfl⟩
    | ok emit =>
      cases committed : hostCommit codec rules createKey log transactions tx guest context
          (emitEvents codec newV5 context emit) with
      | mk left result =>
        cases result with
        | error err =>
          simp only [finishRun, committed, true_or, and_true]
          exact hostCommit_transactions committed
        | ok done =>
          simp only [finishRun, committed]
          exact ⟨hostCommit_transactions committed,
            Or.inr ⟨finals, emit, done, rfl, rfl, committed, rfl⟩⟩

end facts

section sample

def runContext (causationId : Uuid) (idempotencyKey : Option Uuid) : RunContext :=
  ⟨0x11111111111111111111111111111111, causationId, none, idempotencyKey⟩

def firstCausation : Uuid := 0x22222222222222222222222222222222
def secondCausation : Uuid := 0x33333333333333333333333333333333

def knownV5 (bytes : List UInt8) : Uuid :=
  if bytes = idKey (runContext firstCausation none) 0 then 0xd8bee0eaf637579c828593706e9e67d5
  else if bytes = idKey (runContext firstCausation none) 1 then 0xb43c197e43ac5d7a90afeb070797a174
  else if bytes = idKey (runContext secondCausation none) 0 then 0x205f8c5e173d59949cc2fa45b2402a79
  else if bytes = idKey (runContext secondCausation none) 1 then 0x61848a49693755c19f7a70ca5925ff76
  else 0

end sample

end UmariCommandRuns
