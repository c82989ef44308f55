import Umari.QueryCoverage

/-!
`Command::fold_with` against the library's fold query. A command filters the events of
a fold by the input's bindings, cut down to the fields of the fold's type, whatever
value the closure made; the fold query filters by the domain ids of the value. The two
show the fold the same events when the tags they ask for come to the same.
-/
namespace UmariFoldQueries
open FallibleFolds PositionedLogs OrderedSets
open UmariEventStore UmariStoredEvents UmariTransactions UmariBatchLoops UmariDcbQueries
  UmariFolds UmariQueryCoverage
open UmariDcbQueries.DomainIdBindings
variable {V I : Type}

section run
variable [DecidableEq V] (codec : Codec V)

def runBatch (folds : List (RunningFold V)) :
    List WitStoredEvent → Except RunError (List (RunningFold V))
  | [] => .ok folds
  | first :: rest =>
    (guestEvent codec first).bind fun event =>
      (folds.mapM fun running => boxApply codec running event).bind fun folds =>
        runBatch folds rest

/-- Batches are taken until an empty one; each turn of the loop takes one unit of fuel. -/
def runLoop (getKey : Nat → Uuid → Except String (Option CryptoKey)) (tx : Nat) :
    Nat → Transactions → List (RunningFold V) →
      Except RunError (Transactions × List (RunningFold V))
  | 0, _, _ => .error .outOfFuel
  | fuel + 1, transactions, folds =>
    match transactionNextBatch codec getKey transactions tx with
    | (_, .error err) => .error (.host err)
    | (transactions, .ok []) => .ok (transactions, folds)
    | (transactions, .ok (first :: rest)) =>
      (runBatch codec folds (first :: rest)).bind fun folds =>
        runLoop getKey tx fuel transactions folds

/-- `FoldQuery::run`; the folds hold the states it returns. -/
def run (fq : FoldQuery V) (rules : NameRules)
    (getKey : Nat → Uuid → Except String (Option CryptoKey)) (fuel : Nat) (log : List Event)
    (transactions : Transactions) (snapshot : Except String Nat) :
    Except RunError (Transactions × List (RunningFold V)) :=
  ((fq.query rules).mapError RunError.panic).bind fun query =>
  ((transactionNew rules log transactions (eventQueryOf query) snapshot).mapError
    RunError.host).bind fun (transactions, tx) =>
  (runLoop codec getKey tx fuel transactions fq.folds).bind fun (transactions, folds) =>
    .ok (transactionDrop transactions tx, folds)

variable {codec} {getKey : Nat → Uuid → Except String (Option CryptoKey)} {tx : Nat}

theorem runBatch_states {wits : List WitStoredEvent} {folds finals : List (RunningFold V)}
    (ran : runBatch codec folds wits = .ok finals) :
    replayBatch codec none folds wits = .ok (.states finals) := by
  induction wits generalizing folds with
  | nil => rw [replayBatch, Except.ok.inj ran]
  | cons first rest ih =>
    obtain ⟨event, typed, shown⟩ := bind_ok.mp ran
    obtain ⟨mid, applied, later⟩ := bind_ok.mp shown
    rw [replayBatch]
    apply bind_ok.mpr
    refine ⟨event, typed, ?_⟩
    rw [if_neg (by simp [isIdempotent])]
    exact bind_ok.mpr ⟨mid, applied, ih later⟩

theorem runLoop_takes (fuel : Nat) (transactions : Transactions)
    (folds : List (RunningFold V)) :
    runLoop codec getKey tx fuel transactions folds =
      (takeBatches codec RunError.host .outOfFuel
        (fun folds wits => (runBatch codec folds wits).map (Sum.inl (β := Empty))) getKey tx fuel
        transactions folds).map fun ended => (ended.1, ended.2.elim id Empty.elim) := by
  induction fuel generalizing transactions folds with
  | zero => rfl
  | succ fuel ih =>
    rw [runLoop, takeBatches]
    obtain ⟨left, handed⟩ := transactionNextBatch codec getKey transactions tx
    cases handed with
    | error err => rfl
    | ok wits =>
      cases wits with
      | nil => rfl
      | cons first rest =>
        dsimp only
        cases runBatch codec folds (first :: rest) with
        | error err => rfl
        | ok mid => exact ih left mid

def offer (codec : Codec V) (F : Fold V) (fold : F.Self) (state : F.State)
    (event : StoredEvent V) : Except RunError F.State :=
  if event.encryptionScope.isSome && decide (event.data = codec.null) then .ok state
  else
    match F.fromEvent event.eventType event.data with
    | none => .ok state
    | some (.error err) => .error (.fold err)
    | some (.ok data) => .ok (F.apply fold state { event with data := data })

theorem boxApply_offer {F : Fold V} {fold : F.Self} {binding : DomainIdBindings}
    {state : F.State} {event : StoredEvent V}
    (accepted : matchesFoldQuery F event.eventType event.tags binding = true) :
    boxApply codec ⟨F, fold, binding, state⟩ event =
      (offer codec F fold state event).map fun state => ⟨F, fold, binding, state⟩ := by
  unfold boxApply offer
  by_cases shredded : (event.encryptionScope.isSome && decide (event.data = codec.null)) = true
  · rw [if_pos shredded, if_pos shredded]
    rfl
  · rw [if_neg shredded, if_neg shredded, if_pos accepted]
    dsimp only
    cases F.fromEvent event.eventType event.data with
    | none => rfl
    | some data => cases data <;> rfl

/-- The state a fold reaches over the events that the query reads and its filter accepts. -/
def shownState (codec : Codec V) (getKey : Nat → Uuid → Except String (Option CryptoKey))
    (F : Fold V) (fold : F.Self) (binding : DomainIdBindings) (query : Query) (log : List Event)
    (head : Nat) : Except RunError F.State :=
  ((window (fun event : Event => query.matches event &&
      matchesFoldQuery F event.eventType event.tags binding) log 0 head).mapM
    (decodeEntry codec getKey)).bind fun shown => shown.foldlM (offer codec F fold) F.default

theorem shown_state {query : Query} {log : List Event} {head : Nat}
    {events : List (StoredEvent V)} {F : Fold V} {fold : F.Self} {binding : DomainIdBindings}
    {final : RunningFold V}
    (decoded : (readUpTo log query 0 head).mapM (decodeEntry codec getKey) = .ok events)
    (folded : events.foldlM (boxApply codec) ⟨F, fold, binding, F.default⟩ = .ok final) :
    ∃ state, shownState codec getKey F fold binding query log head = .ok state ∧
      final = ⟨F, fold, binding, state⟩ := by
  obtain ⟨shown, narrowed, applied⟩ := read_events decoded folded
  have single : ∀ state, ∀ event ∈ shown, boxApply codec ⟨F, fold, binding, state⟩ event =
      (offer codec F fold state event).map fun state => ⟨F, fold, binding, state⟩ := by
    intro state event member
    obtain ⟨entry, inside, typed⟩ := forall₂_exists_left (mapM_ok.mp narrowed) member
    have matched := (mem_window.mp inside).2.2.2
    obtain ⟨sameType, sameTags⟩ := decodeEntry_labels typed
    apply boxApply_offer
    rw [sameType, sameTags]
    exact (Bool.and_eq_true _ _ ▸ matched).2
  have within := foldlM_within (boxApply codec) (offer codec F fold)
    (fun state => ⟨F, fold, binding, state⟩) single F.default
  obtain ⟨state, reached, same⟩ := mapped_ok.mp (within.symm.trans applied)
  exact ⟨state, bind_ok.mpr ⟨shown, narrowed, reached⟩, same.symm⟩

theorem run_states {fq : FoldQuery V} {rules : NameRules} {fuel head : Nat} {log : List Event}
    {transactions after : Transactions} {finals : List (RunningFold V)}
    (ran : run codec fq rules getKey (fuel + 2) log transactions (.ok head) =
      .ok (after, finals)) :
    ∃ query stored events, fq.query rules = .ok query ∧
      (eventQueryOf query).toQuery rules = .ok stored ∧
      (readUpTo log stored 0 head).mapM (decodeEntry codec getKey) = .ok events ∧
      List.Forall₂ (fun running final => events.foldlM (boxApply codec) running = .ok final)
        fq.folds finals := by
  obtain ⟨query, built, rest⟩ := bind_ok.mp ran
  obtain ⟨⟨opened, tx⟩, new, rest⟩ := bind_ok.mp rest
  obtain ⟨⟨left, ended⟩, looped, same⟩ := bind_ok.mp rest
  obtain ⟨rfl, rfl⟩ : transactionDrop left tx = after ∧ ended = finals := by simpa using same
  rw [runLoop_takes] at looped
  obtain ⟨⟨_, finished⟩, taken, ends⟩ := mapped_ok.mp looped
  obtain ⟨rfl, rfl⟩ := Prod.mk.inj ends
  obtain ⟨item, wits, _, passed, _, _, _, handed, batch⟩ :=
    takeBatches_reads (fun _ => rfl) (mapError_ok.mp new) taken
  obtain ⟨_, shown, rfl⟩ := mapped_ok.mp batch
  obtain ⟨events, typed, folded⟩ := replayBatch_states (runBatch_states shown)
  exact ⟨query, item.query, events, mapError_ok.mp built, passed,
    decode_batch (handed head rfl) typed, foldlM_mapM folded⟩

end run

section agreement

/-- What `fold_with(f)` registers: the closure is given the input alone. -/
def withSpec (F : Fold V) (f : I → F.Self) : FoldSpec V I := ⟨F, fun input _ => .ok (f input)⟩

def ownQuery (F : Fold V) (fold : F.Self) : FoldQuery V := FoldQuery.new.fold F fold

/-- A command and the fold query over the value of its closure show that fold the same
    events of every log, and it ends in the same state. -/
structure AgreesWithQuery [DecidableEq V] (codec : Codec V) (rules : NameRules)
    (cmd : Command V I) (F : Fold V) (f : I → F.Self) : Prop where
  shown : ∀ query, cmd.query rules = .ok query → ∀ event : Event,
    (query.matches event && accepts (withSpec F f) cmd.bindings event) =
      matchesFoldQuery F event.eventType event.tags (F.domainIds (f cmd.input))
  states : ∀ getKey fuel log transactions head after tx finals,
    cmd.replay codec rules getKey (fuel + 2) log transactions (.ok head) =
      .ok (after, tx, .states finals) →
    ∀ fuel' transactions' after' results,
      run codec (ownQuery F (f cmd.input)) rules getKey (fuel' + 2) log transactions'
        (.ok head) = .ok (after', results) →
      List.Forall₂ (fun spec final => spec = withSpec F f → ∃ state,
        final = ⟨F, f cmd.input, (withSpec F f).binding cmd.bindings, state⟩ ∧
          results = [⟨F, f cmd.input, F.domainIds (f cmd.input), state⟩]) cmd.folds finals

/-- For the entry by which the fold filters an event type, against the entries of the
    command that its query looks the type up by: the tags asked for under the domain ids
    of the value, and those asked for under the input's bindings. -/
structure SameTags (cmd : Command V I) (F : Fold V) (f : I → F.Self)
    (required : EventDomainId) : Prop where
  filtered : ∀ tag ∈ entryTags required ((withSpec F f).binding cmd.bindings),
    tag ∈ entryTags required (F.domainIds (f cmd.input))
  covered : ∃ entry ∈ cmd.domainIds, entry.eventType = required.eventType ∧
    ∀ tag ∈ entryTags entry cmd.bindings, tag ∈ entryTags required (F.domainIds (f cmd.input))
  asked : ∀ entry ∈ cmd.domainIds, entry.eventType = required.eventType →
    ∀ tag ∈ entryTags required (F.domainIds (f cmd.input)),
      tag ∈ entryTags required ((withSpec F f).binding cmd.bindings) ∨
        tag ∈ entryTags entry cmd.bindings

variable {rules : NameRules} {cmd : Command V I} {query : Query} {F : Fold V} {f : I → F.Self}

theorem shown_of_sameTags (keeps : KeepsNames rules) (built : cmd.query rules = .ok query)
    (same : ∀ eventType required, F.required eventType = some required →
      SameTags cmd F f required) (event : Event) :
    (query.matches event && accepts (withSpec F f) cmd.bindings event) =
      matchesFoldQuery F event.eventType event.tags (F.domainIds (f cmd.input)) := by
  apply Bool.eq_iff_iff.mpr
  rw [Bool.and_eq_true, query_matches keeps built, accepts, matchesFoldQuery_iff,
    matchesFoldQuery_iff]
  constructor
  · rintro ⟨⟨entry, listed, ty, read⟩, required, found, tagged⟩
    refine ⟨required, found, ?_⟩
    intro tag own
    have sameType := ty.trans (required_mem found).2.symm
    rcases (same _ required found).asked entry listed sameType tag own with restricted | asked
    · exact tagged tag restricted
    · exact read tag asked
  · rintro ⟨required, found, tagged⟩
    have tags := same _ required found
    constructor
    · obtain ⟨entry, listed, sameType, fewer⟩ := tags.covered
      refine ⟨entry, listed, sameType.trans (required_mem found).2, ?_⟩
      exact fun tag asked => tagged tag (fewer tag asked)
    · exact ⟨required, found, fun tag restricted => tagged tag (tags.filtered tag restricted)⟩

/-- Two events decide: the one with just the tags of the value, and the one with just
    the tags of the input's filter and of an entry of the query. -/
theorem sameTags_of_shown (keeps : KeepsNames rules) (built : cmd.query rules = .ok query)
    (shown : ∀ event : Event,
      (query.matches event && accepts (withSpec F f) cmd.bindings event) =
        matchesFoldQuery F event.eventType event.tags (F.domainIds (f cmd.input)))
    {eventType : String} {required : EventDomainId}
    (found : F.required eventType = some required) : SameTags cmd F f required := by
  have sameType := (required_mem found).2
  have decided : ∀ tags : List String,
      ((∃ entry ∈ cmd.domainIds, entry.eventType = eventType ∧
          ∀ tag ∈ entryTags entry cmd.bindings, tag ∈ tags) ∧
        ∀ tag ∈ entryTags required ((withSpec F f).binding cmd.bindings), tag ∈ tags) ↔
      ∀ tag ∈ entryTags required (F.domainIds (f cmd.input)), tag ∈ tags := by
    intro tags
    have agree := Bool.eq_iff_iff.mp (shown ⟨eventType, tags, []⟩)
    rw [Bool.and_eq_true, query_matches keeps built, accepts, matchesFoldQuery_iff,
      matchesFoldQuery_iff] at agree
    simpa only [withSpec, found, Option.some.injEq, exists_eq_left', OrderedSet.mem_toList]
      using agree
  constructor
  · intro tag restricted
    exact ((decided (entryTags required (F.domainIds (f cmd.input))).toList).mpr
      fun tag own => own).2 tag restricted
  · obtain ⟨entry, listed, ty, fewer⟩ :=
      ((decided (entryTags required (F.domainIds (f cmd.input))).toList).mpr
        fun tag own => own).1
    exact ⟨entry, listed, ty.trans sameType.symm, fewer⟩
  · intro entry listed ty tag own
    have both := (decided ((entryTags required ((withSpec F f).binding cmd.bindings)).toList ++
      (entryTags entry cmd.bindings).toList)).mp (by
        constructor
        · refine ⟨entry, listed, ty.trans sameType, ?_⟩
          exact fun tag asked => List.mem_append_right _ asked
        · exact fun tag restricted => List.mem_append_left _ restricted) tag own
    exact List.mem_append.mp both

theorem sameTags_of_bindings (registered : withSpec F f ∈ cmd.folds) {eventType : String}
    {required : EventDomainId} (found : F.required eventType = some required)
    (value : ∀ field ∈ required.dynamicFields,
      (F.domainIds (f cmd.input)).get field = cmd.bindings.get field)
    (fields : ∀ field ∈ required.dynamicFields, cmd.bindings.get field ≠ none →
      field ∈ F.domainIdFields) : SameTags cmd F f required := by
  have restricted : ∀ field ∈ required.dynamicFields,
      ((withSpec F f).binding cmd.bindings).get field =
        (F.domainIds (f cmd.input)).get field := by
    intro field listed
    rw [value field listed, FoldSpec.binding, DomainIdBindings.get_restrict]
    by_cases kept : field ∈ F.domainIdFields
    · exact if_pos kept
    · rw [if_neg (by exact kept)]
      by_contra bound
      exact kept (fields field listed (Ne.symm bound))
  constructor
  · exact fun tag => (entryTags_congr restricted).mp
  · refine ⟨required, ?_, rfl, fun tag => (entryTags_congr value).mpr⟩
    rw [cmd.registered, List.mem_flatMap]
    exact ⟨withSpec F f, registered, (required_mem found).1⟩
  · exact fun entry _ _ tag own => Or.inl ((entryTags_congr restricted).mpr own)

variable [DecidableEq V] {codec : Codec V}
  {getKey : Nat → Uuid → Except String (Option CryptoKey)}

theorem replay_state {fuel head tx : Nat} {log : List Event}
    {transactions after : Transactions} {finals : List (RunningFold V)}
    (replayed : cmd.replay codec rules getKey (fuel + 2) log transactions (.ok head) =
      .ok (after, tx, .states finals)) :
    ∃ query stored, cmd.query rules = .ok query ∧
      (eventQueryOf query).toQuery rules = .ok stored ∧
      List.Forall₂ (fun spec final => spec = withSpec F f → ∃ state,
        shownState codec getKey F (f cmd.input) ((withSpec F f).binding cmd.bindings) stored log
          head = .ok state ∧
        final = ⟨F, f cmd.input, (withSpec F f).binding cmd.bindings, state⟩)
        cmd.folds finals := by
  obtain ⟨query, stored, events, built, passed, decoded, ended⟩ := replay_states replayed
  refine ⟨query, stored, built, passed, ended.imp ?_⟩
  rintro spec final ⟨started, created, folded⟩ rfl
  obtain rfl := Except.ok.inj created
  exact shown_state decoded folded

theorem run_state {fold : F.Self} {fuel head : Nat} {log : List Event}
    {transactions after : Transactions} {results : List (RunningFold V)}
    (ran : run codec (ownQuery F fold) rules getKey (fuel + 2) log transactions (.ok head) =
      .ok (after, results)) :
    ∃ query stored state, (ownQuery F fold).query rules = .ok query ∧
      (eventQueryOf query).toQuery rules = .ok stored ∧
      shownState codec getKey F fold (F.domainIds fold) stored log head = .ok state ∧
      results = [⟨F, fold, F.domainIds fold, state⟩] := by
  obtain ⟨query, stored, events, built, passed, decoded, ended⟩ := run_states ran
  obtain ⟨result, _, folded, last, rfl⟩ := List.forall₂_cons_left_iff.mp ended
  obtain rfl := List.forall₂_nil_left_iff.mp last
  obtain ⟨state, reached, rfl⟩ := shown_state decoded folded
  exact ⟨query, stored, state, built, passed, reached, rfl⟩

theorem states_of_shown (keeps : KeepsNames rules)
    (shown : ∀ query, cmd.query rules = .ok query → ∀ event : Event,
      (query.matches event && accepts (withSpec F f) cmd.bindings event) =
        matchesFoldQuery F event.eventType event.tags (F.domainIds (f cmd.input)))
    {fuel fuel' head tx : Nat} {log : List Event}
    {transactions transactions' after after' : Transactions}
    {finals results : List (RunningFold V)}
    (replayed : cmd.replay codec rules getKey (fuel + 2) log transactions (.ok head) =
      .ok (after, tx, .states finals))
    (ran : run codec (ownQuery F (f cmd.input)) rules getKey (fuel' + 2) log transactions'
      (.ok head) = .ok (after', results)) :
    List.Forall₂ (fun spec final => spec = withSpec F f → ∃ state,
      final = ⟨F, f cmd.input, (withSpec F f).binding cmd.bindings, state⟩ ∧
        results = [⟨F, f cmd.input, F.domainIds (f cmd.input), state⟩]) cmd.folds finals := by
  obtain ⟨query, stored, built, passed, handed⟩ := replay_state (F := F) (f := f) replayed
  obtain ⟨own, ownStored, state', ownBuilt, ownPassed, reached', rfl⟩ := run_state ran
  have sameTest : (fun event : Event => stored.matches event &&
      matchesFoldQuery F event.eventType event.tags ((withSpec F f).binding cmd.bindings)) =
      fun event : Event => ownStored.matches event &&
        matchesFoldQuery F event.eventType event.tags (F.domainIds (f cmd.input)) := by
    funext event
    rw [toQuery_matches keeps passed, toQuery_matches keeps ownPassed]
    apply (shown query built event).trans
    cases accepted : matchesFoldQuery F event.eventType event.tags
        (F.domainIds (f cmd.input)) with
    | false => rw [Bool.and_false]
    | true => rw [foldQuery_covers keeps ownBuilt List.mem_cons_self accepted, Bool.and_self]
  apply handed.imp
  intro spec final reaches registered
  obtain ⟨state, reached, rfl⟩ := reaches registered
  rw [shownState, sameTest] at reached
  obtain rfl : state = state' := Except.ok.inj (reached.symm.trans reached')
  exact ⟨state, rfl, rfl⟩

/-- A fold registered with `fold_with` agrees with the fold query exactly when the tags
    asked for under the value's domain ids and under the input come to the same. -/
theorem fold_with_agrees_iff (keeps : KeepsNames rules) (built : cmd.query rules = .ok query) :
    AgreesWithQuery codec rules cmd F f ↔
      ∀ eventType required, F.required eventType = some required → SameTags cmd F f required := by
  constructor
  · intro agrees eventType required found
    exact sameTags_of_shown keeps built (agrees.shown query built) found
  · intro same
    have shown : ∀ query, cmd.query rules = .ok query → ∀ event : Event,
        (query.matches event && accepts (withSpec F f) cmd.bindings event) =
          matchesFoldQuery F event.eventType event.tags (F.domainIds (f cmd.input)) :=
      fun query built => shown_of_sameTags keeps built same
    constructor
    · exact shown
    · intro getKey fuel log transactions head after tx finals replayed fuel' transactions' after'
        results ran
      exact states_of_shown keeps shown replayed ran

end agreement

section sample

def countBound (entry : EventDomainId) (fields : List String) : Fold String where
  Self := DomainIdBindings
  Item := String
  State := Nat
  eventDomainIds := [entry]
  domainIdFields := fields
  domainIds := id
  fromEvent := fun eventType data =>
    if eventType = entry.eventType then some (.ok data) else none
  default := 0
  apply := fun _ count _ => count + 1

def project (id : String) : DomainIdBindings := ⟨[("project_id", id)], List.nodup_singleton _⟩

def countProject (f : DomainIdBindings → DomainIdBindings) : Command String DomainIdBindings :=
  (Command.new (project "p1") id none).foldWith (countBound taskInProject ["project_id"]) f

def countCodec : Codec String :=
  textCodec [⟨1, 0, 1, 1, none, none, none, none, "\x7b\x7d"⟩] [1]

def created (id : String) : Event :=
  ⟨"task.created", ["project_id:" ++ id],
    recordBytes ⟨1, 0, 1, 1, none, none, none, none, "\x7b\x7d"⟩⟩

abbrev projectFold : Fold String := countBound taskInProject ["project_id"]

def projectQuery (id : String) : Query := .items [⟨["task.created"], ["project_id:" ++ id]⟩]

def taskLog : List Event := [created "p1", created "p1", created "p2"]

def shownCount (binding : DomainIdBindings) (query : Query) : Except RunError Nat :=
  shownState countCodec (fun _ _ => .ok none) projectFold (project "p2") binding query taskLog 3

theorem command_counts {after : Transactions} {tx : Nat} {finals : List (RunningFold String)}
    (replayed : (countProject fun _ => project "p2").replay countCodec plainNames
      (fun _ _ => .ok none) 2 taskLog [] (.ok 3) = .ok (after, tx, .states finals)) :
    finals = [⟨projectFold, project "p2", project "p1", (2 : Nat)⟩] := by
  obtain ⟨query, stored, built, passed, handed⟩ :=
    replay_state (F := projectFold) (f := fun _ => project "p2") replayed
  obtain rfl : query = projectQuery "p1" :=
    Except.ok.inj (built.symm.trans (by decide +kernel))
  obtain rfl : stored = projectQuery "p1" :=
    Except.ok.inj (passed.symm.trans (by decide +kernel))
  have alone : List.Forall₂ _ [withSpec projectFold fun _ => project "p2"] finals := handed
  obtain ⟨final, rest, reaches, last, rfl⟩ := List.forall₂_cons_left_iff.mp alone
  obtain rfl := List.forall₂_nil_left_iff.mp last
  obtain ⟨count, reached, rfl⟩ := reaches rfl
  have counted : shownCount (project "p1") (projectQuery "p1") = .ok 2 := by decide +kernel
  obtain rfl := Except.ok.inj (reached.symm.trans counted)
  rfl

theorem query_counts {after : Transactions} {results : List (RunningFold String)}
    (ran : run countCodec (ownQuery projectFold (project "p2")) plainNames
      (fun _ _ => .ok none) 2 taskLog [] (.ok 3) = .ok (after, results)) :
    results = [⟨projectFold, project "p2", project "p2", (1 : Nat)⟩] := by
  obtain ⟨query, stored, count, built, passed, reached, rfl⟩ := run_state ran
  obtain rfl : query = projectQuery "p2" :=
    Except.ok.inj (built.symm.trans (by decide +kernel))
  obtain rfl : stored = projectQuery "p2" :=
    Except.ok.inj (passed.symm.trans (by decide +kernel))
  have counted : shownCount (project "p2") (projectQuery "p2") = .ok 1 := by decide +kernel
  obtain rfl := Except.ok.inj (reached.symm.trans counted)
  rfl

def decided : Outcome String → Bool
  | .idempotent => false
  | .states _ => true

/-- The closure names another project than the input does: of the two tasks of the
    input's project and the one of the other, the command counts two and the fold query
    one. -/
theorem other_project_counted :
    ¬ AgreesWithQuery countCodec plainNames (countProject fun _ => project "p2") projectFold
      fun _ => project "p2" := by
  intro agrees
  have replays : (((countProject fun _ => project "p2").replay countCodec plainNames
      (fun _ _ => .ok none) 2 taskLog [] (.ok 3)).toOption.any fun done =>
        decided done.2.2) = true := by decide +kernel
  have runs : (run countCodec (ownQuery projectFold (project "p2")) plainNames
      (fun _ _ => .ok none) 2 taskLog [] (.ok 3)).toOption.isSome = true := by decide +kernel
  obtain ⟨⟨after, tx, outcome⟩, given, states⟩ := (Option.any_eq_true _ _).mp replays
  obtain ⟨⟨later, results⟩, returned⟩ := Option.isSome_iff_exists.mp runs
  have ran := toOption_ok.mp returned
  cases outcome with
  | idempotent => exact absurd states (by simp [decided])
  | states finals =>
    have replayed := toOption_ok.mp given
    have same := agrees.states _ _ _ _ _ _ _ _ replayed _ _ _ _ ran
    rw [command_counts replayed, query_counts ran] at same
    have alone : List.Forall₂ _ [withSpec projectFold fun _ => project "p2"] _ := same
    obtain ⟨count, handed, shown⟩ := (List.forall₂_cons.mp alone).1 rfl
    have two : (2 : Nat) = count := eq_of_heq (RunningFold.mk.inj handed).2.2.2
    have one : (1 : Nat) = count :=
      eq_of_heq (RunningFold.mk.inj (List.cons.inj shown).1).2.2.2
    exact absurd (two.trans one.symm) (by decide)

/-- The closure makes the fold of the input's own bindings. -/
theorem own_project_agrees :
    AgreesWithQuery countCodec plainNames (countProject id) projectFold id := by
  have built : (countProject id).query plainNames = .ok (projectQuery "p1") := by decide +kernel
  apply (fold_with_agrees_iff plainNames_keep built).mpr
  intro eventType required found
  obtain rfl : required = taskInProject := List.mem_singleton.mp (required_mem found).1
  apply sameTags_of_bindings List.mem_cons_self found
  · exact fun field _ => rfl
  · exact fun field listed _ => listed

end sample
end UmariFoldQueries
