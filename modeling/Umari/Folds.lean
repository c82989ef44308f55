import Umari.BatchLoops
import Umari.DcbQueries

/-!
A command's folds and their replay. Registering a fold adds its event types to the
command's query and a specification that builds the fold from the input. The replay
reads the command's whole query once and offers every event to every fold, whose own
filter decides. The store of folds is a hash map; folds do not see each other, so the
list here is in the order of registration.
-/
namespace UmariFolds
open FallibleFolds PositionedLogs UmariEventStore UmariStoredEvents UmariTransactions
  UmariBatchLoops UmariDcbQueries
open UmariDcbQueries.DomainIdBindings

inductive RunError where
  | panic (message : String)
  | host (error : TransactionError)
  | fold (error : String)
  | outOfFuel
deriving DecidableEq, Repr

/-- A fold type with its event set. `apply` takes the fold's own value, its state and
    an event of the set. -/
structure Fold (V : Type) where
  Self : Type
  Item : Type
  State : Type
  eventDomainIds : List EventDomainId
  domainIdFields : List String
  domainIds : Self → DomainIdBindings
  fromEvent : String → V → Option (Except String Item)
  default : State
  apply : Self → State → StoredEvent Item → State

def stripPrefix (start text : String) : Option String :=
  if start.toList.isPrefixOf text.toList then
    some (String.ofList (text.toList.drop start.toList.length))
  else none

/-- `tag.strip_prefix(field).and_then(|rest| rest.strip_prefix(':'))` -/
def tagValue (field tag : String) : Option String :=
  (stripPrefix field tag).bind (stripPrefix ":")

theorem stripPrefix_eq {start text rest : String} :
    stripPrefix start text = some rest ↔ text = start ++ rest := by
  unfold stripPrefix
  constructor
  · intro stripped
    split at stripped
    · rename_i leads
      obtain ⟨tail, split⟩ := List.isPrefixOf_iff_prefix.mp leads
      obtain rfl := Option.some.inj stripped
      apply String.toList_inj.mp
      rw [String.toList_append, String.toList_ofList, ← split, List.drop_left]
    · exact absurd stripped (by simp)
  · rintro rfl
    have leads : start.toList.isPrefixOf (start ++ rest).toList = true := by
      rw [String.toList_append]
      exact List.isPrefixOf_iff_prefix.mpr (List.prefix_append _ _)
    rw [if_pos leads, String.toList_append, List.drop_left, String.ofList_toList]

theorem tagValue_eq {field tag value : String} :
    tagValue field tag = some value ↔ tag = fieldTag field value := by
  rw [tagValue, Option.bind_eq_some_iff, fieldTag, String.append_assoc]
  constructor
  · rintro ⟨rest, first, second⟩
    rw [stripPrefix_eq.mp first, stripPrefix_eq.mp second]
  · rintro rfl
    exact ⟨":" ++ value, stripPrefix_eq.mpr rfl, stripPrefix_eq.mpr rfl⟩

def hasTag (tags : List String) (field value : String) : Bool :=
  tags.any fun tag => tagValue field tag == some value

theorem hasTag_iff {tags : List String} {field value : String} :
    hasTag tags field value = true ↔ fieldTag field value ∈ tags := by
  simp [hasTag, tagValue_eq]

section filter
variable {V : Type}

/-- The entry of this event type decides; a second entry of the type is not looked at. -/
def Fold.required (F : Fold V) (eventType : String) : Option EventDomainId :=
  F.eventDomainIds.find? fun entry => entry.eventType == eventType

def matchesFoldQuery (F : Fold V) (eventType : String) (tags : List String)
    (bindings : DomainIdBindings) : Bool :=
  match F.required eventType with
  | none => false
  | some required =>
    (required.dynamicFields.all fun field =>
      match bindings.get field with
      | none => true
      | some value => hasTag tags field value) &&
    required.staticFields.all fun pair => hasTag tags pair.1 pair.2

theorem matchesFoldQuery_iff {F : Fold V} {eventType : String} {tags : List String}
    {bindings : DomainIdBindings} :
    matchesFoldQuery F eventType tags bindings = true ↔
      ∃ required, F.required eventType = some required ∧
        ∀ tag ∈ entryTags required bindings, tag ∈ tags := by
  unfold matchesFoldQuery
  cases F.required eventType with
  | none => simp
  | some required =>
    simp only [Bool.and_eq_true, List.all_eq_true, hasTag_iff, Option.some.injEq,
      exists_eq_left', mem_entryTags]
    constructor
    · rintro ⟨dynamicTags, staticTags⟩ tag
        (⟨field, listed, value, bound, rfl⟩ | ⟨pair, listed, rfl⟩)
      · have present := dynamicTags field listed
        rwa [bound, hasTag_iff] at present
      · exact staticTags pair listed
    · intro asked
      constructor
      · intro field listed
        cases bound : bindings.get field with
        | none => rfl
        | some value =>
          exact hasTag_iff.mpr (asked _ (Or.inl ⟨field, listed, value, bound, rfl⟩))
      · intro pair listed
        exact asked _ (Or.inr ⟨pair, listed, rfl⟩)

/-- A fold in a running command: its value, the bindings it filters by, its state. -/
structure RunningFold (V : Type) where
  F : Fold V
  fold : F.Self
  binding : DomainIdBindings
  state : F.State

variable [DecidableEq V] (codec : Codec V)

def shredded (event : StoredEvent V) : Bool :=
  event.encryptionScope.isSome && decide (event.data = codec.null)

def boxApply (running : RunningFold V) (event : StoredEvent V) :
    Except RunError (RunningFold V) :=
  -- crypto-shredded events have null data and are skipped rather than decoded
  if event.encryptionScope.isSome && decide (event.data = codec.null) then .ok running
  else if matchesFoldQuery running.F event.eventType event.tags running.binding then
    match running.F.fromEvent event.eventType event.data with
    | none => .ok running
    | some (.error err) => .error (.fold err)
    | some (.ok data) => .ok { running with
        state := running.F.apply running.fold running.state { event with data := data } }
  else .ok running

variable {codec}

theorem boxApply_frame {running after : RunningFold V} {event : StoredEvent V}
    (applied : boxApply codec running event = .ok after) :
    ∃ state, after = { running with state := state } := by
  unfold boxApply at applied
  split at applied
  · exact ⟨running.state, (Except.ok.inj applied).symm⟩
  · split at applied
    · split at applied
      · exact ⟨running.state, (Except.ok.inj applied).symm⟩
      · exact absurd applied (by simp)
      · exact ⟨_, (Except.ok.inj applied).symm⟩
    · exact ⟨running.state, (Except.ok.inj applied).symm⟩

theorem boxApply_ignores {running : RunningFold V} {event : StoredEvent V}
    (refused : matchesFoldQuery running.F event.eventType event.tags running.binding = false) :
    boxApply codec running event = .ok running := by
  simp [boxApply, refused]

end filter

section guest
variable {V : Type} (codec : Codec V)

def parseGuestUuid (what : String) (text : String) : Except RunError Uuid :=
  match codec.parseUuid text with
  | some id => .ok id
  | none => .error (.panic ("host guaranteed valid uuid for " ++ what))

def parseOptionalUuid (what : String) : Option String → Except RunError (Option Uuid)
  | none => .ok none
  | some text => some <$> parseGuestUuid codec what text

def parsePosition (position : Int) : Except RunError Nat :=
  if 0 ≤ position then .ok position.toNat
  else .error (.panic "host guaranteed valid u64 for event position")

/-- The typed event. A timestamp in milliseconds that came from the host is in range. -/
def guestEvent (event : WitStoredEvent) : Except RunError (StoredEvent V) := do
  let id ← parseGuestUuid codec "event id" event.id
  let position ← parsePosition event.position
  let correlationId ← parseGuestUuid codec "correlation_id" event.correlationId
  let causationId ← parseGuestUuid codec "causation_id" event.causationId
  let triggeringEventId ← parseOptionalUuid codec "triggering_event_id" event.triggeringEventId
  let idempotencyKey ← parseOptionalUuid codec "idempotency_key" event.idempotencyKey
  let encryptionKeyId ← parseOptionalUuid codec "encryption_key_id" event.encryptionKeyId
  let data ← (codec.fromStr event.data).mapError fun _ =>
    .panic "host guaranteed valid json for event data"
  pure {
    id := id
    position := position
    eventType := event.eventType
    tags := event.tags
    timestamp := event.timestamp * 1000000
    correlationId := correlationId
    causationId := causationId
    triggeringEventId := triggeringEventId
    idempotencyKey := idempotencyKey
    encryptionScope := event.encryptionScope
    encryptionKeyId := encryptionKeyId
    data := data }

variable {codec}

theorem guestEvent_labels {wit : WitStoredEvent} {event : StoredEvent V}
    (typed : guestEvent codec wit = .ok event) :
    event.eventType = wit.eventType ∧ event.tags = wit.tags := by
  simp only [guestEvent, do_ok, pure, Except.pure, Except.ok.injEq] at typed
  obtain ⟨_, _, _, _, _, _, _, _, _, _, _, _, _, _, _, _, rfl⟩ := typed
  exact ⟨rfl, rfl⟩

theorem batchEntry_labels {getKey : Uuid → Except String (Option CryptoKey)}
    {entry : Nat × Event} {wit : WitStoredEvent}
    (decoded : batchEntry codec getKey entry = .ok wit) :
    wit.eventType = entry.2.eventType ∧ wit.tags = entry.2.tags := by
  simp only [batchEntry, do_ok, pure, Except.pure, Except.ok.injEq] at decoded
  obtain ⟨_, _, _, _, rfl⟩ := decoded
  exact ⟨rfl, rfl⟩

def decodeEntry (codec : Codec V) (getKey : Nat → Uuid → Except String (Option CryptoKey))
    (entry : Nat × Event) : Except RunError (StoredEvent V) := do
  let wit ← (batchEntry codec (getKey entry.1) entry).mapError RunError.host
  guestEvent codec wit

theorem decodeEntry_labels {getKey : Nat → Uuid → Except String (Option CryptoKey)}
    {entry : Nat × Event} {event : StoredEvent V}
    (decoded : decodeEntry codec getKey entry = .ok event) :
    event.eventType = entry.2.eventType ∧ event.tags = entry.2.tags := by
  obtain ⟨wit, handed, typed⟩ := do_ok.mp decoded
  obtain ⟨sameType, sameTags⟩ := guestEvent_labels typed
  obtain ⟨entryType, entryTags⟩ := batchEntry_labels (mapError_ok.mp handed)
  exact ⟨sameType.trans entryType, sameTags.trans entryTags⟩

end guest

/-- How a fold is made from the command's input and all of its bindings. -/
structure FoldSpec (V I : Type) where
  F : Fold V
  make : I → DomainIdBindings → Except String F.Self

def FoldSpec.binding {V I : Type} (spec : FoldSpec V I) (bindings : DomainIdBindings) :
    DomainIdBindings := bindings.restrict spec.F.domainIdFields

def FoldSpec.create {V I : Type} (spec : FoldSpec V I) (input : I)
    (bindings : DomainIdBindings) : Except RunError (RunningFold V) :=
  ((spec.make input bindings).mapError RunError.panic).bind fun fold =>
    .ok ⟨spec.F, fold, spec.binding bindings, spec.F.default⟩

structure Command (V I : Type) where
  input : I
  inputDomainIds : I → DomainIdBindings
  idempotencyKey : Option Uuid
  domainIds : List EventDomainId
  folds : List (FoldSpec V I)
  registered : domainIds = folds.flatMap fun spec => spec.F.eventDomainIds

namespace Command
variable {V I : Type}

def new (input : I) (inputDomainIds : I → DomainIdBindings) (idempotencyKey : Option Uuid) :
    Command V I := ⟨input, inputDomainIds, idempotencyKey, [], [], rfl⟩

def register (cmd : Command V I) (spec : FoldSpec V I) : Command V I where
  input := cmd.input
  inputDomainIds := cmd.inputDomainIds
  idempotencyKey := cmd.idempotencyKey
  domainIds := cmd.domainIds ++ spec.F.eventDomainIds
  folds := cmd.folds ++ [spec]
  registered := by simp [cmd.registered]

def foldArgs {Args : Type} (cmd : Command V I) (F : Fold V)
    (fromDomainIds : Args → DomainIdBindings → Except String F.Self) (args : Args) :
    Command V I :=
  cmd.register ⟨F, fun _ bindings =>
    (fromDomainIds args bindings).mapError fun _ => "failed to create fold from bindings"⟩

def fold (cmd : Command V I) (F : Fold V)
    (fromDomainIds : Unit → DomainIdBindings → Except String F.Self) : Command V I :=
  cmd.foldArgs F fromDomainIds ()

def foldWith (cmd : Command V I) (F : Fold V) (f : I → F.Self) : Command V I :=
  cmd.register ⟨F, fun input _ => .ok (f input)⟩

def bindings (cmd : Command V I) : DomainIdBindings := cmd.inputDomainIds cmd.input

def query (cmd : Command V I) (rules : NameRules) : Except String Query :=
  buildDcbQuery rules cmd.domainIds [cmd.bindings]

end Command

/-- The library's query over folds that bring their own bindings; many folds of one
    type register its events once. -/
structure FoldQuery (V : Type) where
  domainIds : List EventDomainId
  folds : List (RunningFold V)
  registered : ∀ running ∈ folds, ∀ entry ∈ running.F.eventDomainIds, entry ∈ domainIds

namespace FoldQuery
variable {V : Type}

def new : FoldQuery V := ⟨[], [], fun _ member => absurd member List.not_mem_nil⟩

def foldIter (fq : FoldQuery V) (F : Fold V) (folds : List F.Self) : FoldQuery V where
  domainIds := fq.domainIds ++ F.eventDomainIds
  folds := fq.folds ++ folds.map fun fold => ⟨F, fold, F.domainIds fold, F.default⟩
  registered := by
    intro running member entry listed
    rcases List.mem_append.mp member with old | added
    · exact List.mem_append_left _ (fq.registered running old entry listed)
    · obtain ⟨fold, _, rfl⟩ := List.mem_map.mp added
      exact List.mem_append_right _ listed

def fold (fq : FoldQuery V) (F : Fold V) (fold : F.Self) : FoldQuery V :=
  fq.foldIter F [fold]

def query (fq : FoldQuery V) (rules : NameRules) : Except String Query :=
  buildDcbQuery rules fq.domainIds (fq.folds.map RunningFold.binding)

end FoldQuery

/-- How a replay ends: an event carries the command's idempotency key, or every fold
    has seen every event. -/
inductive Outcome (V : Type) : Type 1 where
  | idempotent
  | states (folds : List (RunningFold V))

section replay
variable {V I : Type} [DecidableEq V] (codec : Codec V)

def isIdempotent (key : Option Uuid) (event : StoredEvent V) : Bool :=
  match key, event.idempotencyKey with
  | some a, some b => decide (a = b)
  | _, _ => false

def replayBatch (key : Option Uuid) (folds : List (RunningFold V)) :
    List WitStoredEvent → Except RunError (Outcome V)
  | [] => .ok (.states folds)
  | first :: rest =>
    (guestEvent codec first).bind fun event =>
      if isIdempotent key event then .ok .idempotent
      else
        (folds.mapM fun running => boxApply codec running event).bind fun folds =>
          replayBatch key folds rest

/-- Batches are taken until an empty one; each turn of the loop takes one unit of fuel. -/
def replayLoop (getKey : Nat → Uuid → Except String (Option CryptoKey)) (key : Option Uuid)
    (tx : Nat) : Nat → Transactions → List (RunningFold V) →
      Except RunError (Transactions × Outcome V)
  | 0, _, _ => .error .outOfFuel
  | fuel + 1, transactions, folds =>
    match transactionNextBatch codec getKey transactions tx with
    | (_, .error err) => .error (.host err)
    | (transactions, .ok []) => .ok (transactions, .states folds)
    | (transactions, .ok (first :: rest)) =>
      (replayBatch codec key folds (first :: rest)).bind fun outcome =>
        match outcome with
        | .idempotent => .ok (transactions, .idempotent)
        | .states folds => replayLoop getKey key tx fuel transactions folds

/-- The run of a command up to the decision: its transaction and what the replay left. -/
def Command.replay (cmd : Command V I) (rules : NameRules)
    (getKey : Nat → Uuid → Except String (Option CryptoKey)) (fuel : Nat) (log : List Event)
    (transactions : Transactions) (snapshot : Except String Nat) :
    Except RunError (Transactions × Nat × Outcome V) :=
  (cmd.folds.mapM fun spec : FoldSpec V I => spec.create cmd.input cmd.bindings).bind fun folds =>
  ((cmd.query rules).mapError RunError.panic).bind fun query =>
  ((transactionNew rules log transactions (eventQueryOf query) snapshot).mapError
    RunError.host).bind fun (transactions, tx) =>
  (replayLoop codec getKey cmd.idempotencyKey tx fuel transactions folds).bind
    fun (transactions, outcome) => .ok (transactions, tx, outcome)

variable {codec} {getKey : Nat → Uuid → Except String (Option CryptoKey)} {key : Option Uuid}
  {tx : Nat}

theorem replayBatch_states {wits : List WitStoredEvent} {folds finals : List (RunningFold V)}
    (replayed : replayBatch codec key folds wits = .ok (.states finals)) :
    ∃ events, wits.mapM (guestEvent codec) = .ok events ∧
      events.foldlM
        (fun (all : List (RunningFold V)) event => all.mapM fun running =>
          boxApply codec running event) folds = .ok finals := by
  induction wits generalizing folds with
  | nil =>
    obtain rfl : folds = finals := Outcome.states.inj (Except.ok.inj replayed)
    exact ⟨[], rfl, rfl⟩
  | cons first rest ih =>
    obtain ⟨event, typed, applied⟩ := bind_ok.mp replayed
    by_cases same : isIdempotent key event = true
    · rw [if_pos same] at applied
      exact absurd (Except.ok.inj applied) (by simp)
    · rw [if_neg same] at applied
      obtain ⟨mid, here, later⟩ := bind_ok.mp applied
      obtain ⟨events, others, folded⟩ := ih later
      refine ⟨event :: events, ?_, foldlM_cons_ok.mpr ⟨mid, here, folded⟩⟩
      rw [List.mapM_cons, typed]
      simp only [bind, Except.bind, others, pure, Except.pure]

theorem replayBatch_unseen {wits : List WitStoredEvent} {folds finals : List (RunningFold V)}
    (replayed : replayBatch codec key folds wits = .ok (.states finals)) :
    ∀ wit ∈ wits, ∃ event, guestEvent codec wit = .ok event ∧ isIdempotent key event = false := by
  induction wits generalizing folds with
  | nil => exact fun wit member => absurd member List.not_mem_nil
  | cons first rest ih =>
    obtain ⟨event, typed, applied⟩ := bind_ok.mp replayed
    by_cases same : isIdempotent key event = true
    · rw [if_pos same] at applied
      exact absurd (Except.ok.inj applied) (by simp)
    · rw [if_neg same] at applied
      obtain ⟨mid, _, later⟩ := bind_ok.mp applied
      intro wit member
      rcases List.mem_cons.mp member with rfl | other
      · exact ⟨event, typed, Bool.eq_false_iff.mpr same⟩
      · exact ih later wit other

def takeBatch (codec : Codec V) (key : Option Uuid) (folds : List (RunningFold V))
    (wits : List WitStoredEvent) : Except RunError (List (RunningFold V) ⊕ Unit) :=
  (replayBatch codec key folds wits).map fun outcome =>
    match outcome with
    | .idempotent => .inr ()
    | .states folds => .inl folds

def Outcome.ofEnd : List (RunningFold V) ⊕ Unit → Outcome V
  | .inl folds => .states folds
  | .inr _ => .idempotent

theorem takeBatch_ok {folds : List (RunningFold V)} {wits : List WitStoredEvent}
    {ended : List (RunningFold V) ⊕ Unit} :
    takeBatch codec key folds wits = .ok ended ↔
      replayBatch codec key folds wits = .ok (Outcome.ofEnd ended) := by
  unfold takeBatch
  cases replayBatch codec key folds wits with
  | error err => simp [Except.map]
  | ok outcome => cases outcome <;> cases ended <;> simp [Except.map, Outcome.ofEnd]

theorem replayLoop_takes (fuel : Nat) (transactions : Transactions)
    (folds : List (RunningFold V)) :
    replayLoop codec getKey key tx fuel transactions folds =
      (takeBatches codec RunError.host .outOfFuel (takeBatch codec key) getKey tx fuel
        transactions folds).map fun ended => (ended.1, Outcome.ofEnd ended.2) := by
  induction fuel generalizing transactions folds with
  | zero => rfl
  | succ fuel ih =>
    rw [replayLoop, takeBatches]
    obtain ⟨left, handed⟩ := transactionNextBatch codec getKey transactions tx
    cases handed with
    | error err => rfl
    | ok wits =>
      cases wits with
      | nil => rfl
      | cons first rest =>
        dsimp only
        rw [takeBatch]
        cases replayBatch codec key folds (first :: rest) with
        | error err => rfl
        | ok outcome =>
          cases outcome with
          | idempotent => rfl
          | states mid => exact ih left mid

/-- What a replay read, and what it left: one transaction on the snapshot, unless its
    query selects nothing, and all matching events went through `replayBatch`. -/
theorem replay_ok {cmd : Command V I} {rules : NameRules} {fuel : Nat} {log : List Event}
    {transactions after : Transactions} {snapshot : Except String Nat} {outcome : Outcome V}
    (replayed : cmd.replay codec rules getKey (fuel + 2) log transactions snapshot =
      .ok (after, tx, outcome)) :
    ∃ started query item wits,
      (cmd.folds.mapM fun spec : FoldSpec V I => spec.create cmd.input cmd.bindings) =
        .ok started ∧
      cmd.query rules = .ok query ∧ tx = transactions.length ∧
      (eventQueryOf query).toQuery rules = .ok item.query ∧
      after = transactions ++ [some item] ∧
      (item.read = none → queryIsEmpty item.query = true) ∧
      (∀ pinned, item.read = some pinned → snapshot = .ok pinned.head) ∧
      (∀ head, snapshot = .ok head → (readUpTo log item.query 0 head).mapM
        (fun entry => batchEntry codec (getKey entry.1) entry) = .ok wits) ∧
      replayBatch codec cmd.idempotencyKey started wits = .ok outcome := by
  obtain ⟨started, created, rest⟩ := bind_ok.mp replayed
  obtain ⟨query, built, rest⟩ := bind_ok.mp rest
  obtain ⟨⟨opened, fresh⟩, new, rest⟩ := bind_ok.mp rest
  obtain ⟨⟨left, finished⟩, looped, same⟩ := bind_ok.mp rest
  obtain ⟨rfl, rfl, rfl⟩ : left = after ∧ fresh = tx ∧ finished = outcome := by
    simpa using same
  rw [replayLoop_takes] at looped
  obtain ⟨⟨_, ended⟩, taken, ends⟩ := mapped_ok.mp looped
  obtain ⟨rfl, rfl⟩ := Prod.mk.inj ends
  obtain ⟨item, wits, same, passed, kept, unread, pinned, handed, batch⟩ :=
    takeBatches_reads (fun _ => rfl) (mapError_ok.mp new) taken
  exact ⟨started, query, item, wits, created, mapError_ok.mp built, same, passed, kept, unread,
    pinned, handed, takeBatch_ok.mp batch⟩

end replay
end UmariFolds
