import Umari.Folds

/-!
The query of a command against the filters of its folds. The query is built from all
bindings of the input, a fold filters by its own fields only; the two agree when the
query asks for no tag that the filter does not ask for. The fold query of the library,
which passes every fold's own bindings, always agrees.
-/
namespace UmariQueryCoverage
open FallibleFolds PositionedLogs OrderedSets
open UmariEventStore UmariStoredEvents UmariTransactions UmariDcbQueries UmariFolds
variable {V I : Type}

def accepts (spec : FoldSpec V I) (bindings : DomainIdBindings) (event : Event) : Bool :=
  matchesFoldQuery spec.F event.eventType event.tags (spec.binding bindings)

def OwnState [DecidableEq V] (codec : Codec V)
    (getKey : Nat → Uuid → Except String (Option CryptoKey)) (cmd : Command V I)
    (log : List Event) (head : Nat) (spec : FoldSpec V I) (final : RunningFold V) : Prop :=
  ∃ started events, spec.create cmd.input cmd.bindings = .ok started ∧
    (window (accepts spec cmd.bindings) log 0 head).mapM (decodeEntry codec getKey) = .ok events ∧
    events.foldlM (boxApply codec) started = .ok final

/-- The query covers every fold's filter; hence a fold's state is that of its own
    events whatever else is registered, and the append fence holds all of them back. -/
structure CoversFolds [DecidableEq V] (codec : Codec V) (rules : NameRules)
    (cmd : Command V I) : Prop where
  covered : ∀ query, cmd.query rules = .ok query →
    ∀ spec ∈ cmd.folds, ∀ event, accepts spec cmd.bindings event = true →
      query.matches event = true ∧ ∀ stored, (eventQueryOf query).toQuery rules = .ok stored →
        stored.matches event = true
  states : ∀ getKey fuel log transactions head after tx finals,
    cmd.replay codec rules getKey (fuel + 2) log transactions (.ok head) =
      .ok (after, tx, .states finals) →
    List.Forall₂ (OwnState codec getKey cmd log head) cmd.folds finals
  fenced : ∀ getKey fuel log transactions head after tx outcome,
    cmd.replay codec rules getKey (fuel + 2) log transactions (.ok head) =
      .ok (after, tx, outcome) →
    ∀ createKey later events envelope last done,
      transactionCommit codec rules createKey later after tx events envelope =
        (last, .ok done) →
      done.log ≠ later → ∀ p e, (p, e) ∈ entries later → head < p →
        ∀ spec ∈ cmd.folds, accepts spec cmd.bindings e = false

/-- For every event type of every fold, some registered entry of the type asks for no
    tag that the fold's own filter does not ask for. -/
def FiltersImplyQuery (cmd : Command V I) : Prop :=
  ∀ spec ∈ cmd.folds, ∀ eventType required, spec.F.required eventType = some required →
    ∃ entry ∈ cmd.domainIds, entry.eventType = eventType ∧
      ∀ tag ∈ (entryTags entry cmd.bindings).toList,
        tag ∈ entryTags required (spec.binding cmd.bindings)

theorem required_mem {F : Fold V} {eventType : String} {required : EventDomainId}
    (found : F.required eventType = some required) :
    required ∈ F.eventDomainIds ∧ required.eventType = eventType := by
  constructor
  · exact List.mem_of_find?_eq_some found
  · simpa using List.find?_some found

section query
variable {rules : NameRules} {cmd : Command V I} {query stored : Query}

theorem query_matches (keeps : KeepsNames rules) (built : cmd.query rules = .ok query)
    (event : Event) :
    query.matches event = true ↔
      ∃ entry ∈ cmd.domainIds, entry.eventType = event.eventType ∧
        ∀ tag ∈ (entryTags entry cmd.bindings).toList, tag ∈ event.tags := by
  rw [buildDcbQuery_matches keeps built]
  simp

theorem covered_of_filters (keeps : KeepsNames rules) (built : cmd.query rules = .ok query)
    (implied : FiltersImplyQuery cmd) {spec : FoldSpec V I} (registered : spec ∈ cmd.folds)
    {event : Event} (accepted : accepts spec cmd.bindings event = true) :
    query.matches event = true := by
  obtain ⟨required, found, tagged⟩ := matchesFoldQuery_iff.mp accepted
  obtain ⟨entry, listed, ty, fewer⟩ := implied spec registered _ required found
  apply (query_matches keeps built event).mpr
  exact ⟨entry, listed, ty, fun tag member => tagged tag (fewer tag member)⟩

theorem filters_of_covered (keeps : KeepsNames rules) (built : cmd.query rules = .ok query)
    (covered : ∀ spec ∈ cmd.folds, ∀ event, accepts spec cmd.bindings event = true →
      query.matches event = true) : FiltersImplyQuery cmd := by
  intro spec registered eventType required found
  have bare : accepts spec cmd.bindings
      ⟨eventType, (entryTags required (spec.binding cmd.bindings)).toList, []⟩ = true :=
    matchesFoldQuery_iff.mpr ⟨required, found, fun tag member => member⟩
  exact (query_matches keeps built _).mp (covered spec registered _ bare)

theorem filters_of_fields
    (own : ∀ spec ∈ cmd.folds, ∀ entry ∈ spec.F.eventDomainIds, ∀ field ∈ entry.dynamicFields,
      cmd.bindings.get field ≠ none → field ∈ spec.F.domainIdFields) :
    FiltersImplyQuery cmd := by
  intro spec registered eventType required found
  obtain ⟨listed, ty⟩ := required_mem found
  refine ⟨required, ?_, ty, ?_⟩
  · rw [cmd.registered, List.mem_flatMap]
    exact ⟨spec, registered, listed⟩
  · intro tag member
    apply mem_entryTags.mpr
    rcases mem_entryTags.mp member with ⟨field, dynamicField, value, bound, made⟩ | fixed
    · have kept := own spec registered required listed field dynamicField (by simp [bound])
      refine Or.inl ⟨field, dynamicField, value, ?_, made⟩
      rw [FoldSpec.binding, DomainIdBindings.get_restrict, if_pos kept, bound]
    · exact Or.inr fixed

theorem foldQuery_covers {fq : FoldQuery V} (keeps : KeepsNames rules)
    (built : fq.query rules = .ok query) {running : RunningFold V}
    (member : running ∈ fq.folds) {event : Event}
    (accepted : matchesFoldQuery running.F event.eventType event.tags running.binding = true) :
    query.matches event = true := by
  obtain ⟨required, found, tagged⟩ := matchesFoldQuery_iff.mp accepted
  obtain ⟨listed, ty⟩ := required_mem found
  apply (buildDcbQuery_matches keeps built event).mpr
  refine ⟨running.binding, List.mem_map.mpr ⟨running, member, rfl⟩, required, ?_, ty, tagged⟩
  exact fq.registered running member required listed

end query

section states
variable [DecidableEq V] {codec : Codec V} {rules : NameRules} {cmd : Command V I}
  {getKey : Nat → Uuid → Except String (Option CryptoKey)}

omit [DecidableEq V] in
theorem decode_batch {xs : List (Nat × Event)} {wits : List WitStoredEvent}
    {events : List (StoredEvent V)}
    (handed : xs.mapM (fun entry => batchEntry codec (getKey entry.1) entry) = .ok wits)
    (typed : wits.mapM (guestEvent codec) = .ok events) :
    xs.mapM (decodeEntry codec getKey) = .ok events := by
  apply mapM_ok.mpr
  apply forall₂_through _ (mapM_ok.mp handed) (mapM_ok.mp typed)
  intro entry _ wit event _ here guest
  rw [decodeEntry, here]
  exact guest

omit [DecidableEq V] in
theorem decode_apart {xs : List (Nat × Event)} {events : List (StoredEvent V)}
    (decoded : xs.mapM (decodeEntry codec getKey) = .ok events) :
    ∃ wits, xs.mapM (fun entry => batchEntry codec (getKey entry.1) entry) = .ok wits ∧
      wits.mapM (guestEvent codec) = .ok events := by
  obtain ⟨wits, handed, typed⟩ := forall₂_between ((mapM_ok.mp decoded).imp
    fun entry event here => do_ok.mp here)
  refine ⟨wits, mapM_ok.mpr (handed.imp fun _ _ here => mapError_ok.mp here), mapM_ok.mpr typed⟩

theorem read_events {query : Query} {log : List Event} {head : Nat}
    {events : List (StoredEvent V)} {running final : RunningFold V}
    (decoded : (readUpTo log query 0 head).mapM (decodeEntry codec getKey) = .ok events)
    (folded : events.foldlM (boxApply codec) running = .ok final) :
    ∃ shown, (window (fun event : Event => query.matches event &&
          matchesFoldQuery running.F event.eventType event.tags running.binding) log 0 head).mapM
        (decodeEntry codec getKey) = .ok shown ∧
      shown.foldlM (boxApply codec) running = .ok final := by
  let kept : StoredEvent V → Bool := fun event =>
    matchesFoldQuery running.F event.eventType event.tags running.binding
  have narrowed := mapM_filter (p := fun entry : Nat × Event =>
    matchesFoldQuery running.F entry.2.eventType entry.2.tags running.binding) (q := kept) (by
      intro entry event typed
      obtain ⟨sameType, sameTags⟩ := decodeEntry_labels typed
      simp only [kept, sameType, sameTags]) decoded
  rw [readUpTo, window_filter query.matches fun event : Event =>
    matchesFoldQuery running.F event.eventType event.tags running.binding] at narrowed
  refine ⟨events.filter kept, narrowed, ?_⟩
  -- the filter reads a running fold's type and bindings, which no event changes
  apply foldlM_filter (P := fun other : RunningFold V => ∀ eventType tags,
    matchesFoldQuery other.F eventType tags other.binding =
      matchesFoldQuery running.F eventType tags running.binding) _ _ _ folded
  · intro other event same refused
    exact boxApply_ignores ((same _ _).trans refused)
  · intro other event after same applied
    obtain ⟨state, rfl⟩ := boxApply_frame applied
    exact same
  · exact fun _ _ => rfl

theorem own_events {query : Query} {log : List Event} {head : Nat}
    {events : List (StoredEvent V)} {spec : FoldSpec V I} {started final : RunningFold V}
    (covered : ∀ event, accepts spec cmd.bindings event = true → query.matches event = true)
    (decoded : (readUpTo log query 0 head).mapM (decodeEntry codec getKey) = .ok events)
    (created : spec.create cmd.input cmd.bindings = .ok started)
    (folded : events.foldlM (boxApply codec) started = .ok final) :
    OwnState codec getKey cmd log head spec final := by
  obtain ⟨shown, read, applied⟩ := read_events decoded folded
  refine ⟨started, shown, created, ?_, applied⟩
  rw [← read]
  congr 2
  funext event
  obtain ⟨fold, _, made⟩ := bind_ok.mp created
  obtain rfl := Except.ok.inj made
  change accepts spec cmd.bindings event =
    (query.matches event && accepts spec cmd.bindings event)
  cases accepted : accepts spec cmd.bindings event with
  | false => rw [Bool.and_false]
  | true => rw [covered event accepted, Bool.and_self]

theorem replay_states {fuel head tx : Nat} {log : List Event}
    {transactions after : Transactions} {finals : List (RunningFold V)}
    (replayed : cmd.replay codec rules getKey (fuel + 2) log transactions (.ok head) =
      .ok (after, tx, .states finals)) :
    ∃ query stored events, cmd.query rules = .ok query ∧
      (eventQueryOf query).toQuery rules = .ok stored ∧
      (readUpTo log stored 0 head).mapM (decodeEntry codec getKey) = .ok events ∧
      List.Forall₂ (fun (spec : FoldSpec V I) final => ∃ started,
        spec.create cmd.input cmd.bindings = .ok started ∧
          events.foldlM (boxApply codec) started = .ok final) cmd.folds finals := by
  obtain ⟨started, query, item, wits, created, built, _, passed, _, _, _, handed, batch⟩ :=
    replay_ok replayed
  obtain ⟨events, typed, folded⟩ := replayBatch_states batch
  refine ⟨query, item.query, events, built, passed, decode_batch (handed head rfl) typed, ?_⟩
  apply forall₂_through _ (mapM_ok.mp created) (foldlM_mapM folded)
  intro spec _ first final _ here alone
  exact ⟨first, here, alone⟩

theorem states_of_covered {fuel head tx : Nat} {log : List Event}
    {transactions after : Transactions} {finals : List (RunningFold V)}
    (covered : ∀ query stored, cmd.query rules = .ok query →
      (eventQueryOf query).toQuery rules = .ok stored → ∀ spec ∈ cmd.folds, ∀ event,
        accepts spec cmd.bindings event = true → stored.matches event = true)
    (replayed : cmd.replay codec rules getKey (fuel + 2) log transactions (.ok head) =
      .ok (after, tx, .states finals)) :
    List.Forall₂ (OwnState codec getKey cmd log head) cmd.folds finals := by
  obtain ⟨query, stored, events, built, passed, decoded, ended⟩ := replay_states replayed
  apply forall₂_through _ (List.forall₂_same.mpr fun spec _ => Eq.refl spec) ended
  rintro spec registered _ final _ rfl ⟨started, created, alone⟩
  exact own_events (covered query stored built passed spec registered) decoded created alone

theorem fenced_of_covered {fuel head tx : Nat} {log later : List Event}
    {transactions after last : Transactions} {outcome : Outcome V}
    {createKey : String → Except String (Uuid × CryptoKey)} {events : List EmitEvent}
    {envelope : EventEnvelope} {done : Committed}
    (covered : ∀ query stored, cmd.query rules = .ok query →
      (eventQueryOf query).toQuery rules = .ok stored → ∀ spec ∈ cmd.folds, ∀ event,
        accepts spec cmd.bindings event = true → stored.matches event = true)
    (replayed : cmd.replay codec rules getKey (fuel + 2) log transactions (.ok head) =
      .ok (after, tx, outcome))
    (committed : transactionCommit codec rules createKey later after tx events envelope =
      (last, .ok done)) (appended : done.log ≠ later) {p : Nat} {e : Event}
    (member : (p, e) ∈ entries later) (above : head < p) {spec : FoldSpec V I}
    (registered : spec ∈ cmd.folds) : accepts spec cmd.bindings e = false := by
  obtain ⟨_, query, item, _, _, built, rfl, passed, rfl, unread, sameHead, _, _⟩ :=
    replay_ok replayed
  obtain ⟨held, batch, holds, _, grown, quiet⟩ := transactionCommit_ok committed
  obtain rfl : item = held := Option.some.inj (find_append_new.symm.trans holds)
  have nonempty : batch ≠ [] := by
    rintro rfl
    exact appended (by rw [grown, List.append_nil])
  have unmatched : item.query.matches e = false := by
    cases pin : item.read with
    | none =>
      have empty := unread pin
      unfold queryIsEmpty at empty
      split at empty
      · rename_i none
        rw [none]
        rfl
      · exact absurd empty (by simp)
    | some pinned =>
      have bounds := entries_bounds member
      have low := Except.ok.inj (sameHead pinned pin)
      exact quiet nonempty pinned pin p e (mem_entries_append_left member) (by omega) (by omega)
  by_contra accepted
  have matched := covered query item.query built passed spec registered e
    (by simpa using accepted)
  exact Bool.false_ne_true (unmatched.symm.trans matched)

end states

/-- The query of a command covers its folds exactly when no fold's filter leaves out
    a tag that every registered entry of its event type asks for. -/
theorem covers_folds_iff [DecidableEq V] {codec : Codec V} {rules : NameRules}
    {cmd : Command V I} {query : Query} (keeps : KeepsNames rules)
    (built : cmd.query rules = .ok query) :
    CoversFolds codec rules cmd ↔ FiltersImplyQuery cmd := by
  constructor
  · intro covers
    apply filters_of_covered keeps built
    intro spec registered event accepted
    exact (covers.covered query built spec registered event accepted).1
  · intro implied
    have covered : ∀ query stored, cmd.query rules = .ok query →
        (eventQueryOf query).toQuery rules = .ok stored → ∀ spec ∈ cmd.folds, ∀ event,
          accepts spec cmd.bindings event = true → stored.matches event = true := by
      intro query stored built passed spec registered event accepted
      rw [toQuery_matches keeps passed]
      exact covered_of_filters keeps built implied registered accepted
    constructor
    · intro query built spec registered event accepted
      constructor
      · exact covered_of_filters keeps built implied registered accepted
      · intro stored passed
        exact covered query stored built passed spec registered event accepted
    · intro getKey fuel log transactions head after tx finals replayed
      exact states_of_covered covered replayed
    · intro getKey fuel log transactions head after tx outcome replayed createKey later events
        envelope last done committed appended p e member above spec registered
      exact fenced_of_covered covered replayed committed appended member above registered

section sample

def taskCreated : EventDomainId := ⟨"task.created", ["project_id", "task_id"], []⟩

/-- Counts the events of its set; `fields` are the fold's own domain id fields. -/
def countFold (entry : EventDomainId) (fields : List String) : Fold String where
  Self := Unit
  Item := String
  State := Nat
  eventDomainIds := [entry]
  domainIdFields := fields
  domainIds := fun _ => ⟨[], List.nodup_nil⟩
  fromEvent := fun eventType data =>
    if eventType = entry.eventType then some (.ok data) else none
  default := 0
  apply := fun _ count _ => count + 1

def taskInProject : EventDomainId := ⟨"task.created", ["project_id"], []⟩

def taskInput : DomainIdBindings :=
  ⟨[("project_id", "p1"), ("task_id", "t1")], by decide⟩

def countTasks : Command String Unit :=
  (Command.new () (fun _ => taskInput) none).fold (countFold taskCreated ["project_id"])
    fun _ _ => .ok ()

def countTasksTwice : Command String Unit :=
  countTasks.fold (countFold taskInProject ["project_id"]) fun _ _ => .ok ()

theorem plainNames_keep : KeepsNames plainNames := by
  constructor
  · intro name checked accepted
    by_cases empty : name = "" <;> simp_all [plainNames]
  · intro name checked accepted
    by_cases empty : name = "" <;> simp_all [plainNames]
  · intro list checked accepted
    by_cases distinct : list.Nodup <;> simp_all [plainNames]

/-- A task created under another task id is the fold's business, but is not read. -/
theorem project_fold_misses_task :
    ¬ CoversFolds (textCodec [] []) plainNames countTasks := by
  intro covers
  have built : countTasks.query plainNames =
      .ok (.items [⟨["task.created"], ["project_id:p1", "task_id:t1"]⟩]) := by decide +kernel
  have seen := (covers.covered _ built _ List.mem_cons_self
    ⟨"task.created", ["project_id:p1", "task_id:t9"], []⟩ (by decide +kernel)).1
  exact absurd seen (by decide +kernel)

theorem scoped_fold_covers_project :
    CoversFolds (textCodec [] []) plainNames countTasksTwice := by
  have built : countTasksTwice.query plainNames =
      .ok (.items [⟨["task.created"], ["project_id:p1", "task_id:t1"]⟩,
        ⟨["task.created"], ["project_id:p1"]⟩]) := by decide +kernel
  apply (covers_folds_iff plainNames_keep built).mpr
  intro spec registered eventType required found
  obtain ⟨listed, ty⟩ := required_mem found
  rcases List.mem_cons.mp registered with rfl | second
  · obtain rfl : required = taskCreated := List.mem_singleton.mp listed
    exact ⟨taskInProject, List.mem_cons_of_mem _ List.mem_cons_self, ty, by decide +kernel⟩
  · obtain rfl := List.mem_singleton.mp second
    obtain rfl : required = taskInProject := List.mem_singleton.mp listed
    exact ⟨taskInProject, List.mem_cons_of_mem _ List.mem_cons_self, ty, by decide +kernel⟩

end sample
end UmariQueryCoverage
