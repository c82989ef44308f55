import Umari.FoldHandles

/-!
The command as it is kept while it runs: specifications in a slot map, then the folds they
make in a hash map, their states as boxes of any type, and one handle for each registration.
The folds go through every event as those of a fold query do; what differs is that they
filter by the input's bindings and that an event with the command's key ends the replay.
-/
namespace UmariCommandHandles
open FallibleFolds NumberedLists PositionedLogs
open UmariEventStore UmariStoredEvents UmariTransactions UmariBatchLoops UmariDcbQueries
open UmariFolds hiding boxApply FoldQuery FoldSpec Command replayBatch replayLoop takeBatch
open UmariQueryCoverage
open UmariFoldHandles hiding FoldQuery run takeBatch
variable {V I : Type} {T : FoldTypes V}

/-- The closure of a registration; the box of states is a new one of the fold's type. -/
structure FoldSpec (T : FoldTypes V) (I : Type) where
  name : T.Name
  make : I → DomainIdBindings → Except String (T.Self name)

def FoldSpec.create (spec : FoldSpec T I) (input : I) (bindings : DomainIdBindings) :
    Except RunError (FoldEntry T) :=
  ((spec.make input bindings).mapError RunError.panic).map fun fold =>
    ⟨spec.name, fold, bindings.restrict (T.domainIdFields spec.name),
      ⟨T.stateType spec.name, T.default spec.name⟩⟩

structure Command (T : FoldTypes V) (I : Type) where
  input : I
  inputDomainIds : I → DomainIdBindings
  idempotencyKey : Option Uuid
  domainIds : List EventDomainId
  folds : List (FoldSpec T I)
  handles : List (Handle T)

namespace Command

def new (input : I) (inputDomainIds : I → DomainIdBindings) (idempotencyKey : Option Uuid) :
    Command T I := ⟨input, inputDomainIds, idempotencyKey, [], [], []⟩

def register (cmd : Command T I) (spec : FoldSpec T I) : Command T I where
  input := cmd.input
  inputDomainIds := cmd.inputDomainIds
  idempotencyKey := cmd.idempotencyKey
  domainIds := cmd.domainIds ++ T.eventDomainIds spec.name
  folds := cmd.folds ++ [spec]
  handles := cmd.handles ++ [.one spec.name cmd.folds.length]

def foldArgs {Args : Type} (cmd : Command T I) (name : T.Name)
    (fromDomainIds : Args → DomainIdBindings → Except String (T.Self name)) (args : Args) :
    Command T I :=
  cmd.register ⟨name, fun _ bindings =>
    (fromDomainIds args bindings).mapError fun _ => "failed to create fold from bindings"⟩

def fold (cmd : Command T I) (name : T.Name)
    (fromDomainIds : Unit → DomainIdBindings → Except String (T.Self name)) : Command T I :=
  cmd.foldArgs name fromDomainIds ()

def foldWith (cmd : Command T I) (name : T.Name) (f : I → T.Self name) : Command T I :=
  cmd.register ⟨name, fun input _ => .ok (f input)⟩

def bindings (cmd : Command T I) : DomainIdBindings := cmd.inputDomainIds cmd.input

def build (input : I) (inputDomainIds : I → DomainIdBindings) (idempotencyKey : Option Uuid)
    (specs : List (FoldSpec T I)) : Command T I :=
  specs.foldl register (new input inputDomainIds idempotencyKey)

end Command

section replay
variable [DecidableEq V] (codec : Codec V)

/-- `none` when an event carries the command's key. -/
def replayBatch (key : Option Uuid) (folds : List (Nat × FoldEntry T)) :
    List WitStoredEvent → Except RunError (Option (List (Nat × FoldEntry T)))
  | [] => .ok (some folds)
  | first :: rest =>
    (guestEvent codec first).bind fun event =>
      if isIdempotent key event then .ok none
      else
        (folds.mapM fun entry => applyKeyed codec entry event).bind fun folds =>
          replayBatch key folds rest

/-- Batches are taken until an empty one; each turn of the loop takes one unit of fuel. -/
def replayLoop (getKey : Nat → Uuid → Except String (Option CryptoKey)) (key : Option Uuid)
    (tx : Nat) : Nat → Transactions → List (Nat × FoldEntry T) →
      Except RunError (Transactions × Option (List (Nat × FoldEntry T)))
  | 0, _, _ => .error .outOfFuel
  | fuel + 1, transactions, folds =>
    match transactionNextBatch codec getKey transactions tx with
    | (_, .error err) => .error (.host err)
    | (transactions, .ok []) => .ok (transactions, some folds)
    | (transactions, .ok (first :: rest)) =>
      (replayBatch codec key folds (first :: rest)).bind fun outcome =>
        match outcome with
        | none => .ok (transactions, none)
        | some folds => replayLoop getKey key tx fuel transactions folds

/-- `Command::run` up to the decision, which is given the extracted states; there are none
    after an event with the command's key. -/
def run (order : HashOrder) (cmd : Command T I) (rules : NameRules)
    (getKey : Nat → Uuid → Except String (Option CryptoKey)) (fuel : Nat) (log : List Event)
    (transactions : Transactions) (snapshot : Except String Nat) :
    Except RunError (Transactions × Nat × Option (List (Extracted T))) :=
  (cmd.folds.mapM fun spec : FoldSpec T I => spec.create cmd.input cmd.bindings).bind fun folds =>
  ((buildDcbQuery rules cmd.domainIds [cmd.bindings]).mapError RunError.panic).bind fun query =>
  ((transactionNew rules log transactions (eventQueryOf query) snapshot).mapError
    RunError.host).bind fun (transactions, tx) =>
  (replayLoop codec getKey cmd.idempotencyKey tx fuel transactions
    (order.arrange (numbered 0 folds))).bind fun (transactions, outcome) =>
  match outcome with
  | none => .ok (transactions, tx, none)
  | some folds =>
    (extract cmd.handles (order.arrange (folds.map fun entry => (entry.1, entry.2.state)))).map
      fun results => (transactions, tx, some results)

end replay

section building

theorem foldl_register (specs : List (FoldSpec T I)) (cmd : Command T I) :
    (specs.foldl Command.register cmd).bindings = cmd.bindings ∧
      (specs.foldl Command.register cmd).input = cmd.input ∧
      (specs.foldl Command.register cmd).folds = cmd.folds ++ specs := by
  induction specs generalizing cmd with
  | nil => simp
  | cons first rest ih =>
    obtain ⟨bindings, input, folds⟩ := ih (cmd.register first)
    rw [List.foldl_cons, bindings, input, folds]
    simp [Command.register, Command.bindings]

theorem foldl_handles (specs : List (FoldSpec T I)) (cmd : Command T I)
    (values : List (Registration T))
    (alike : List.Forall₂ (fun spec registration => ∃ value : T.Self spec.name,
      registration = .fold spec.name value) specs values) :
    (specs.foldl Command.register cmd).handles =
      cmd.handles ++ handlesFrom cmd.folds.length values := by
  induction alike generalizing cmd with
  | nil => simp [handlesFrom]
  | cons here _ ih =>
    obtain ⟨value, rfl⟩ := here
    rw [List.foldl_cons, ih]
    simp [Command.register, handlesFrom]

end building

section spec
variable [DecidableEq V] {codec : Codec V}
  {getKey : Nat → Uuid → Except String (Option CryptoKey)} {key : Option Uuid}

theorem replayBatch_runBatch {wits : List WitStoredEvent} {folds finals : List (Nat × FoldEntry T)}
    (replayed : replayBatch codec key folds wits = .ok (some finals)) :
    runBatch codec folds wits = .ok finals := by
  induction wits generalizing folds with
  | nil =>
    obtain rfl := Option.some.inj (Except.ok.inj replayed)
    rfl
  | cons first rest ih =>
    obtain ⟨event, typed, applied⟩ := bind_ok.mp replayed
    by_cases same : isIdempotent key event = true
    · rw [if_pos same] at applied
      exact absurd (Except.ok.inj applied) (by simp)
    · rw [if_neg same] at applied
      obtain ⟨mid, here, later⟩ := bind_ok.mp applied
      exact bind_ok.mpr ⟨event, typed, bind_ok.mpr ⟨mid, here, ih later⟩⟩

def takeBatch (codec : Codec V) (key : Option Uuid) (folds : List (Nat × FoldEntry T))
    (wits : List WitStoredEvent) : Except RunError (List (Nat × FoldEntry T) ⊕ Unit) :=
  (replayBatch codec key folds wits).map fun outcome => outcome.elim (.inr ()) .inl

theorem replayLoop_takes {tx : Nat} (fuel : Nat) (transactions : Transactions)
    (folds : List (Nat × FoldEntry T)) :
    replayLoop codec getKey key tx fuel transactions folds =
      (takeBatches codec RunError.host .outOfFuel (takeBatch codec key) getKey tx fuel
        transactions folds).map fun ended => (ended.1, ended.2.getLeft?) := by
  induction fuel generalizing transactions folds with
  | zero => rfl
  | succ fuel ih =>
    rw [replayLoop, takeBatches]
    obtain ⟨left, handed⟩ := transactionNextBatch codec getKey transactions tx
    cases handed with
    | error err => rfl
    | ok wits =>
      cases wits with
      | nil => rfl
      | cons first rest =>
        dsimp only
        rw [takeBatch]
        cases replayBatch codec key folds (first :: rest) with
        | error err => rfl
        | ok outcome =>
          cases outcome with
          | none => rfl
          | some mid => exact ih left mid

/-- The state a fold reaches over the items among some events that it accepts under the
    given bindings. -/
def ReachedUnder (codec : Codec V) (events : List (StoredEvent V)) (name : T.Name)
    (binding : DomainIdBindings) (value : T.Self name) (state : T.State (T.stateType name)) :
    Prop :=
  ∃ items, itemsOf codec (T.fold name) (events.filter (accepted T name binding)) = .ok items ∧
    state = items.foldl (T.apply name value) (T.default name)

/-- What a registration comes to: its fold is made, and its handle takes out the state that
    the fold reaches under the input's bindings for its fields. -/
def Ends (codec : Codec V) (cmd : Command T I) (events : List (StoredEvent V))
    (spec : FoldSpec T I) (result : Extracted T) : Prop :=
  ∃ value state, spec.make cmd.input cmd.bindings = .ok value ∧ result = .one spec.name state ∧
    ReachedUnder codec events spec.name (cmd.bindings.restrict (T.domainIdFields spec.name))
      value state

omit [DecidableEq V] in
theorem create_entry {spec : FoldSpec T I} {input : I} {bindings : DomainIdBindings}
    {entry : FoldEntry T} (created : spec.create input bindings = .ok entry) :
    ∃ value, spec.make input bindings = .ok value ∧
      entry = entryAt spec.name value (bindings.restrict (T.domainIdFields spec.name))
        (T.default spec.name) := by
  obtain ⟨value, made, same⟩ := mapped_ok.mp created
  exact ⟨value, mapError_ok.mp made, same.symm⟩

/-- The boxes that the folds of a command end with are those of one result for each
    registration, in the places where the handles look for them. -/
theorem created_end {cmd : Command T I} {events : List (StoredEvent V)}
    {specs : List (FoldSpec T I)} {folds : List (FoldEntry T)} {boxes : List (AnyBox T)}
    (created : List.Forall₂ (fun spec entry => spec.create cmd.input cmd.bindings = .ok entry)
      specs folds) (ended : List.Forall₂ (EndsIn codec events) folds boxes) :
    ∃ registrations results,
      List.Forall₂ (fun spec registration => ∃ value : T.Self spec.name,
        registration = .fold spec.name value) specs registrations ∧
      List.Forall₂ (Placed fun _ _ _ => True) registrations results ∧
      List.Forall₂ (Ends codec cmd events) specs results ∧ boxes = results.flatMap boxesOf := by
  induction created generalizing boxes with
  | nil =>
    cases ended
    exact ⟨[], [], List.Forall₂.nil, List.Forall₂.nil, List.Forall₂.nil, rfl⟩
  | @cons spec entry _ _ here _ ih =>
    obtain ⟨box, others, ends, rest, rfl⟩ := List.forall₂_cons_left_iff.mp ended
    obtain ⟨registrations, results, alike, placed, all, rfl⟩ := ih rest
    obtain ⟨value, made, rfl⟩ := create_entry here
    obtain ⟨final, folded, rfl⟩ := ends
    obtain ⟨items, found, rfl⟩ := foldlM_entry.mp folded
    refine ⟨.fold spec.name value :: registrations,
      .one spec.name (items.foldl (T.apply spec.name value) (T.default spec.name)) :: results,
      ?_, ?_, ?_, rfl⟩
    · exact List.Forall₂.cons ⟨value, rfl⟩ alike
    · exact List.Forall₂.cons (Placed.one trivial) placed
    · exact List.Forall₂.cons ⟨value, _, made, rfl, items, found, rfl⟩ all

/-- The command's query is built, and the host takes it. -/
def Asks (rules : NameRules) (cmd : Command T I) (stored : Query) : Prop :=
  ∃ query, buildDcbQuery rules cmd.domainIds [cmd.bindings] = .ok query ∧
    (eventQueryOf query).toQuery rules = .ok stored

theorem run_ends {order : HashOrder} {input : I} {inputDomainIds : I → DomainIdBindings}
    {specs : List (FoldSpec T I)} {rules : NameRules} {fuel head tx : Nat} {log : List Event}
    {transactions after : Transactions} {results : List (Extracted T)}
    (ran : run codec order (Command.build input inputDomainIds key specs) rules getKey (fuel + 2)
      log transactions (.ok head) = .ok (after, tx, some results)) :
    ∃ stored events, Asks rules (Command.build input inputDomainIds key specs) stored ∧
      (readUpTo log stored 0 head).mapM (decodeEntry codec getKey) = .ok events ∧
      List.Forall₂ (Ends codec (Command.build input inputDomainIds key specs) events) specs
        results := by
  have registered : (Command.build input inputDomainIds key specs).folds = specs :=
    (foldl_register specs _).2.2
  obtain ⟨folds, created, rest⟩ := bind_ok.mp ran
  obtain ⟨query, built, rest⟩ := bind_ok.mp rest
  obtain ⟨⟨opened, fresh⟩, new, rest⟩ := bind_ok.mp rest
  obtain ⟨⟨left, outcome⟩, looped, rest⟩ := bind_ok.mp rest
  rw [registered] at created
  rw [replayLoop_takes] at looped
  obtain ⟨⟨_, finished⟩, taken, ends⟩ := mapped_ok.mp looped
  obtain ⟨rfl, rfl⟩ := Prod.mk.inj ends
  obtain ⟨item, wits, _, passed, _, _, _, handed, batch⟩ :=
    takeBatches_reads (fun _ => rfl) (mapError_ok.mp new) taken
  cases finished with
  | inr ended => exact absurd (Except.ok.inj rest) (by simp)
  | inl finals =>
    obtain ⟨extracted, taken, same⟩ := mapped_ok.mp rest
    obtain rfl : extracted = results := by simpa using congrArg (fun triple => triple.2.2) same
    obtain ⟨outcome, replayed, kept⟩ := mapped_ok.mp batch
    cases outcome with
    | none => exact absurd kept (by simp)
    | some reached =>
      obtain rfl := Sum.inl.inj kept
      obtain ⟨events, typed, shown⟩ := runBatch_ok.mp (replayBatch_runBatch replayed)
      obtain ⟨boxes, ended, perm⟩ := shown_arranged shown
      obtain ⟨registrations, states, alike, placed, all, rfl⟩ :=
        created_end (mapM_ok.mp created) ended
      have handles : (Command.build input inputDomainIds key specs).handles =
          handlesFrom 0 registrations := foldl_handles specs _ registrations alike
      rw [handles] at taken
      obtain rfl := Except.ok.inj ((extract_numbered placed perm).symm.trans taken)
      exact ⟨item.query, events, ⟨query, mapError_ok.mp built, passed⟩,
        decode_batch (handed head rfl) typed, all⟩

end spec
end UmariCommandHandles
