import Umari.JsBindings
import Umari.Folds

/-!
The JavaScript SDK's folds and the loop that replays them. A bound fold keeps the
bindings it was called with and filters by them. The user's `apply` may change the state
it is given in place, return the next state, or both; what it returns wins.
-/
namespace UmariJsFolds
open FallibleFolds PositionedLogs UmariEventStore UmariStoredEvents UmariTransactions
  UmariBatchLoops UmariDcbQueries UmariJsBindings
open UmariDcbQueries.DomainIdBindings

inductive JsError where
  | thrown (message : String)
  | host (error : TransactionError)
  | outOfFuel
deriving DecidableEq, Repr

/-- The `StoredEvent` of the JavaScript SDK; the timestamp of its `Date` is in
    milliseconds. -/
structure JsStoredEvent (V : Type) where
  id : String
  position : Int
  eventType : String
  tags : List String
  timestamp : Int
  correlationId : String
  causationId : String
  triggeringEventId : Option String
  idempotencyKey : Option String
  encryptionScope : Option String
  encryptionKeyId : Option String
  data : V

/-- The parts of JavaScript's JSON the runner uses. -/
structure Json (V : Type) where
  null : V
  parse : String → Except String V

structure EventDef where
  eventType : String
  domainIds : List String
deriving DecidableEq, Repr

/-- `apply` gives the state as the call left it, and what the call returned. -/
structure BoundFold (V : Type) where
  State : Type
  initial : State
  entries : List EventDomainId
  bindings : DomainIdBindings
  apply : State → JsStoredEvent V → Except String (State × Option State)

section definitions
variable {V : Type}

def buildEntries (events : List EventDef) (fieldFilter : Option (List String)) :
    List EventDomainId :=
  events.map fun event =>
    { eventType := event.eventType
      dynamicFields :=
        match fieldFilter with
        | some fields => event.domainIds.filter fun field => fields.contains field
        | none => event.domainIds
      staticFields := [] }

structure DefineFoldOptions (V : Type) where
  State : Type
  domainIds : List String
  events : List EventDef
  initial : State
  apply : State → JsStoredEvent V → Except String (State × Option State)

def defineFold (options : DefineFoldOptions V) (bindings : String → JsValue) : BoundFold V where
  State := options.State
  initial := options.initial
  entries := buildEntries options.events (some options.domainIds)
  bindings := bindingMap bindings options.domainIds
  apply := options.apply

def eventFold (event : EventDef) (bindings : String → JsValue) : BoundFold V where
  State := List (JsStoredEvent V)
  initial := []
  entries := buildEntries [event] none
  bindings := bindingMap bindings event.domainIds
  apply := fun state stored => .ok (state ++ [stored], none)

def latestEvent (event : EventDef) (bindings : String → JsValue) : BoundFold V where
  State := Option (JsStoredEvent V)
  initial := none
  entries := buildEntries [event] none
  bindings := bindingMap bindings event.domainIds
  apply := fun _ stored => .ok (some stored, none)

def eventCounter (event : EventDef) (bindings : String → JsValue) : BoundFold V where
  State := Nat
  initial := 0
  entries := buildEntries [event] none
  bindings := bindingMap bindings event.domainIds
  apply := fun count _ => .ok (count + 1, none)

inductive Side where
  | a
  | b
deriving DecidableEq, Repr

def eventToggle (a b : EventDef) (bindings : String → JsValue) : BoundFold V where
  State := Option (Side × JsStoredEvent V)
  initial := none
  entries := [⟨a.eventType, a.domainIds, []⟩, ⟨b.eventType, b.domainIds, []⟩]
  bindings := bindingMap bindings a.domainIds
  apply := fun state stored =>
    if stored.eventType = a.eventType then .ok (some (Side.a, stored), none)
    else if stored.eventType = b.eventType then .ok (some (Side.b, stored), none)
    else .ok (state, none)

end definitions

section runner
variable {V : Type} (json : Json V)

def skipShredded (raw : WitStoredEvent) : Bool :=
  raw.encryptionScope.isSome && raw.data == "null"

def liftStoredEvent (raw : WitStoredEvent) : Except JsError (JsStoredEvent V) :=
  (if skipShredded raw then .ok json.null
    else (json.parse raw.data).mapError JsError.thrown).map fun data =>
  { id := raw.id
    position := raw.position
    eventType := raw.eventType
    tags := raw.tags
    timestamp := raw.timestamp
    correlationId := raw.correlationId
    causationId := raw.causationId
    triggeringEventId := raw.triggeringEventId
    idempotencyKey := raw.idempotencyKey
    encryptionScope := raw.encryptionScope
    encryptionKeyId := raw.encryptionKeyId
    data := data }

structure Slot (V : Type) where
  key : String
  fold : BoundFold V
  state : fold.State

def initFoldStates (folds : List (String × BoundFold V)) : List (Slot V) :=
  folds.map fun entry => ⟨entry.1, entry.2, entry.2.initial⟩

def BoundFold.next (fold : BoundFold V) (state : fold.State) (stored : JsStoredEvent V) :
    Except JsError fold.State :=
  ((fold.apply state stored).mapError JsError.thrown).map fun result =>
    result.2.getD result.1

/-- The first entry of a type decides. -/
def BoundFold.required (fold : BoundFold V) (eventType : String) : Option EventDomainId :=
  fold.entries.find? fun entry => entry.eventType == eventType

def BoundFold.accepts (fold : BoundFold V) (eventType : String) (tags : List String) : Bool :=
  match fold.required eventType with
  | none => false
  | some entry => matchesFoldQuery entry tags fold.bindings

theorem accepts_iff {fold : BoundFold V} {eventType : String} {tags : List String} :
    fold.accepts eventType tags = true ↔
      ∃ required, fold.required eventType = some required ∧
        ∀ tag ∈ boundTags required fold.bindings, tag ∈ tags := by
  unfold BoundFold.accepts
  cases fold.required eventType with
  | none => simp
  | some required => simp [matchesFoldQuery_iff]

def applySlot (slot : Slot V) (stored : JsStoredEvent V) : Except JsError (Slot V) :=
  if slot.fold.accepts stored.eventType stored.tags then
    (slot.fold.next slot.state stored).map fun state => ⟨slot.key, slot.fold, state⟩
  else .ok slot

inductive RunResult (V : Type) : Type 1 where
  | drained (states : List (Slot V))
  | idempotent

def isIdempotent (key : Option String) (raw : WitStoredEvent) : Bool :=
  match key, raw.idempotencyKey with
  | some a, some b => decide (b = a)
  | _, _ => false

def runBatch (key : Option String) (states : List (Slot V)) :
    List WitStoredEvent → Except JsError (RunResult V)
  | [] => .ok (.drained states)
  | raw :: rest =>
    if isIdempotent key raw then .ok .idempotent
    else if skipShredded raw then runBatch key states rest
    else
      (liftStoredEvent json raw).bind fun stored =>
        (states.mapM fun slot => applySlot slot stored).bind fun states =>
          runBatch key states rest

/-- `runFolds`; each turn of its loop takes one unit of fuel. -/
def runFolds (codec : Codec V) (getKey : Nat → Uuid → Except String (Option CryptoKey))
    (key : Option String) (tx : Nat) : Nat → Transactions → List (Slot V) →
      Except JsError (Transactions × RunResult V)
  | 0, _, _ => .error .outOfFuel
  | fuel + 1, transactions, states =>
    match transactionNextBatch codec getKey transactions tx with
    | (_, .error err) => .error (.host err)
    | (transactions, .ok []) => .ok (transactions, .drained states)
    | (transactions, .ok (first :: rest)) =>
      (runBatch json key states (first :: rest)).bind fun result =>
        match result with
        | .idempotent => .ok (transactions, .idempotent)
        | .drained states => runFolds codec getKey key tx fuel transactions states

variable {json} {codec : Codec V} {getKey : Nat → Uuid → Except String (Option CryptoKey)}
  {key : Option String} {tx : Nat}

theorem liftStoredEvent_labels {raw : WitStoredEvent} {stored : JsStoredEvent V}
    (lifted : liftStoredEvent json raw = .ok stored) :
    stored.eventType = raw.eventType ∧ stored.tags = raw.tags := by
  obtain ⟨data, _, rfl⟩ := mapped_ok.mp lifted
  exact ⟨rfl, rfl⟩

theorem runBatch_drained {raws : List WitStoredEvent} {states finals : List (Slot V)}
    (ran : runBatch json key states raws = .ok (.drained finals)) :
    ∃ storeds, (raws.filter fun raw => !skipShredded raw).mapM (liftStoredEvent json) =
        .ok storeds ∧
      storeds.foldlM (fun (all : List (Slot V)) stored => all.mapM fun slot =>
        applySlot slot stored) states = .ok finals := by
  induction raws generalizing states with
  | nil =>
    obtain rfl : states = finals := RunResult.drained.inj (Except.ok.inj ran)
    exact ⟨[], rfl, rfl⟩
  | cons raw rest ih =>
    rw [runBatch] at ran
    by_cases same : isIdempotent key raw = true
    · rw [if_pos same] at ran
      exact absurd (Except.ok.inj ran) (by simp)
    · rw [if_neg same] at ran
      by_cases shredded : skipShredded raw = true
      · rw [if_pos shredded] at ran
        rw [List.filter_cons_of_neg (by simp [shredded])]
        exact ih ran
      · rw [if_neg shredded] at ran
        rw [List.filter_cons_of_pos (by simp [shredded])]
        obtain ⟨stored, lifted, shown⟩ := bind_ok.mp ran
        obtain ⟨mid, here, later⟩ := bind_ok.mp shown
        obtain ⟨storeds, others, folded⟩ := ih later
        refine ⟨stored :: storeds, ?_, foldlM_cons_ok.mpr ⟨mid, here, folded⟩⟩
        rw [List.mapM_cons, lifted]
        simp only [bind, Except.bind, others, pure, Except.pure]

def takeBatch (json : Json V) (key : Option String) (states : List (Slot V))
    (raws : List WitStoredEvent) : Except JsError (List (Slot V) ⊕ Unit) :=
  (runBatch json key states raws).map fun result =>
    match result with
    | .idempotent => .inr ()
    | .drained states => .inl states

def RunResult.ofEnd : List (Slot V) ⊕ Unit → RunResult V
  | .inl states => .drained states
  | .inr _ => .idempotent

theorem takeBatch_ok {states : List (Slot V)} {raws : List WitStoredEvent}
    {ended : List (Slot V) ⊕ Unit} :
    takeBatch json key states raws = .ok ended ↔
      runBatch json key states raws = .ok (RunResult.ofEnd ended) := by
  unfold takeBatch
  cases runBatch json key states raws with
  | error err => simp [Except.map]
  | ok result => cases result <;> cases ended <;> simp [Except.map, RunResult.ofEnd]

theorem runFolds_takes (fuel : Nat) (transactions : Transactions) (states : List (Slot V)) :
    runFolds json codec getKey key tx fuel transactions states =
      (takeBatches codec JsError.host .outOfFuel (takeBatch json key) getKey tx fuel
        transactions states).map fun ended => (ended.1, RunResult.ofEnd ended.2) := by
  induction fuel generalizing transactions states with
  | zero => rfl
  | succ fuel ih =>
    rw [runFolds, takeBatches]
    obtain ⟨left, handed⟩ := transactionNextBatch codec getKey transactions tx
    cases handed with
    | error err => rfl
    | ok raws =>
      cases raws with
      | nil => rfl
      | cons first rest =>
        dsimp only
        rw [takeBatch]
        cases runBatch json key states (first :: rest) with
        | error err => rfl
        | ok result =>
          cases result with
          | idempotent => rfl
          | drained mid => exact ih left mid

def reduce (json : Json V) (fold : BoundFold V) (raws : List WitStoredEvent) :
    Except JsError fold.State :=
  ((raws.filter fun raw => !skipShredded raw).mapM (liftStoredEvent json)).bind fun storeds =>
    storeds.foldlM fold.next fold.initial

theorem slot_reduces {raws : List WitStoredEvent} {storeds : List (JsStoredEvent V)}
    {name : String} {fold : BoundFold V} {final : Slot V}
    (lifted : (raws.filter fun raw => !skipShredded raw).mapM (liftStoredEvent json) =
      .ok storeds)
    (folded : storeds.foldlM applySlot ⟨name, fold, fold.initial⟩ = .ok final) :
    ∃ state, reduce json fold (raws.filter fun raw => fold.accepts raw.eventType raw.tags) =
      .ok state ∧ final = ⟨name, fold, state⟩ := by
  let own : JsStoredEvent V → Bool := fun stored => fold.accepts stored.eventType stored.tags
  have narrowed := mapM_filter (p := fun raw : WitStoredEvent =>
    fold.accepts raw.eventType raw.tags) (q := own) (by
      intro raw stored labelled
      obtain ⟨sameType, sameTags⟩ := liftStoredEvent_labels labelled
      simp only [own, sameType, sameTags]) lifted
  have applied : (storeds.filter own).foldlM applySlot ⟨name, fold, fold.initial⟩ =
      .ok final := by
    apply foldlM_filter (P := fun slot : Slot V => slot.fold = fold) _ _ rfl folded
    · rintro slot stored rfl refused
      rw [applySlot, if_neg (by simpa [own] using refused)]
    · rintro slot stored after rfl applied
      unfold applySlot at applied
      split at applied
      · obtain ⟨state, _, rfl⟩ := mapped_ok.mp applied
        rfl
      · rw [Except.ok.inj applied]
  have single : ∀ state, ∀ stored ∈ storeds.filter own,
      applySlot ⟨name, fold, state⟩ stored =
        (fold.next state stored).map fun state => ⟨name, fold, state⟩ := by
    intro state stored member
    exact if_pos (List.mem_filter.mp member).2
  have within := foldlM_within applySlot fold.next (fun state => ⟨name, fold, state⟩) single
    fold.initial
  obtain ⟨state, reached, same⟩ := mapped_ok.mp (within.symm.trans applied)
  refine ⟨state, ?_, same.symm⟩
  apply bind_ok.mpr
  refine ⟨storeds.filter own, ?_, reached⟩
  rw [← narrowed, List.filter_filter, List.filter_filter]
  congr 2
  funext raw
  rw [Bool.and_comm]

end runner
end UmariJsFolds
