import Umari.JsFolds
import Umari.QueryCoverage

/-!
The replay of a JavaScript command: its query is built from the command's own bindings
and the entries of every bound fold, while each fold filters by the bindings it was
called with. The two agree when, for every type a fold takes, some entry asks the store
for no tag that the fold does not ask for.
-/
namespace UmariJsCommands
open FallibleFolds PositionedLogs UmariEventStore UmariStoredEvents UmariTransactions
  UmariBatchLoops UmariDcbQueries UmariJsBindings UmariJsFolds
variable {V I : Type}

/-- What `runCommand` reads of a definition before the body: `property` reads a field of
    the parsed input, and the folds come in the order of their map. -/
structure CommandDefinition (V I : Type) where
  domainIds : List String
  property : I → String → JsValue
  folds : I → Except String (List (String × BoundFold V))

def commandEntries (folds : List (String × BoundFold V)) : List EventDomainId :=
  folds.flatMap fun named => named.2.entries

def commandQuery (folds : List (String × BoundFold V)) (cmdBindings : DomainIdBindings) :
    EventQuery :=
  buildDcbQuery (commandEntries folds)
    (if (commandEntries folds).length = 0 then [] else [cmdBindings])

def CommandDefinition.bindings (cmd : CommandDefinition V I) (input : I) :
    Except String DomainIdBindings := extractBindings cmd.domainIds (cmd.property input)

def replay (json : Json V) (codec : Codec V) (cmd : CommandDefinition V I) (rules : NameRules)
    (getKey : Nat → Uuid → Except String (Option CryptoKey)) (fuel : Nat) (log : List Event)
    (transactions : Transactions) (snapshot : Except String Nat) (input : I)
    (idempotencyKey : Option String) : Except JsError (Transactions × Nat × RunResult V) :=
  ((cmd.bindings input).mapError JsError.thrown).bind fun cmdBindings =>
  ((cmd.folds input).mapError JsError.thrown).bind fun folds =>
  ((transactionNew rules log transactions (commandQuery folds cmdBindings) snapshot).mapError
    JsError.host).bind fun (transactions, tx) =>
  (runFolds json codec getKey idempotencyKey tx fuel transactions (initFoldStates folds)).bind
    fun (transactions, result) => .ok (transactions, tx, result)

/-- What a fold comes to over its own events of the log, those that are not shredded. -/
def ReducedState (json : Json V) (codec : Codec V)
    (getKey : Nat → Uuid → Except String (Option CryptoKey)) (log : List Event) (head : Nat)
    (named : String × BoundFold V) (final : Slot V) : Prop :=
  ∃ raws state,
    (window (fun event : Event => named.2.accepts event.eventType event.tags) log 0 head).mapM
      (fun entry => batchEntry codec (getKey entry.1) entry) = .ok raws ∧
    reduce json named.2 raws = .ok state ∧ final = ⟨named.1, named.2, state⟩

/-- The query of a command reads every event that one of its folds accepts; hence each
    fold's state is that of its own events. -/
structure CoversBoundFolds (json : Json V) (codec : Codec V) (rules : NameRules)
    (cmd : CommandDefinition V I) (input : I) : Prop where
  covered : ∀ cmdBindings folds stored, cmd.bindings input = .ok cmdBindings →
    cmd.folds input = .ok folds → (commandQuery folds cmdBindings).toQuery rules = .ok stored →
    ∀ named ∈ folds, ∀ event : Event, named.2.accepts event.eventType event.tags = true →
      stored.matches event = true
  states : ∀ folds, cmd.folds input = .ok folds →
    ∀ getKey fuel log transactions head key after tx finals,
      replay json codec cmd rules getKey (fuel + 2) log transactions (.ok head) input key =
        .ok (after, tx, .drained finals) →
      List.Forall₂ (ReducedState json codec getKey log head) folds finals

/-- For every event type that a fold takes, by the entry that its filter finds for it:
    some entry of the type has only tags in the query that the fold's own filter asks for. -/
def FiltersImplyQuery (folds : List (String × BoundFold V)) (cmdBindings : DomainIdBindings) :
    Prop :=
  ∀ named ∈ folds, ∀ eventType required, named.2.required eventType = some required →
    ∃ entry ∈ commandEntries folds, entry.eventType = eventType ∧
      ∀ tag ∈ queryTags entry cmdBindings, tag ∈ boundTags required named.2.bindings

section query
variable {rules : NameRules} {folds : List (String × BoundFold V)}
  {cmdBindings : DomainIdBindings} {stored : Query}

theorem commandQuery_matches (keeps : KeepsNames rules)
    (passed : (commandQuery folds cmdBindings).toQuery rules = .ok stored) (event : Event) :
    stored.matches event = true ↔
      ∃ entry ∈ commandEntries folds, entry.eventType = event.eventType ∧
        ∀ tag ∈ queryTags entry cmdBindings, tag ∈ event.tags := by
  rw [buildDcbQuery_matches keeps passed]
  by_cases none : (commandEntries folds).length = 0
  · rw [if_pos none, List.length_eq_zero_iff.mp none]
    simp
  · rw [if_neg none]
    simp

theorem covered_of_filters (keeps : KeepsNames rules)
    (passed : (commandQuery folds cmdBindings).toQuery rules = .ok stored)
    (implied : FiltersImplyQuery folds cmdBindings) {named : String × BoundFold V}
    (member : named ∈ folds) {event : Event}
    (accepted : named.2.accepts event.eventType event.tags = true) :
    stored.matches event = true := by
  obtain ⟨required, found, tagged⟩ := accepts_iff.mp accepted
  obtain ⟨entry, listed, ty, fewer⟩ := implied named member _ required found
  apply (commandQuery_matches keeps passed event).mpr
  exact ⟨entry, listed, ty, fun tag asked => tagged tag (fewer tag asked)⟩

theorem filters_of_covered (keeps : KeepsNames rules)
    (passed : (commandQuery folds cmdBindings).toQuery rules = .ok stored)
    (covered : ∀ named ∈ folds, ∀ event : Event,
      named.2.accepts event.eventType event.tags = true → stored.matches event = true) :
    FiltersImplyQuery folds cmdBindings := by
  intro named member eventType required found
  have bare : named.2.accepts eventType (boundTags required named.2.bindings) = true :=
    accepts_iff.mpr ⟨required, found, fun tag asked => asked⟩
  exact (commandQuery_matches keeps passed _).mp
    (covered named member ⟨eventType, boundTags required named.2.bindings, []⟩ bare)

/-- Folds that bind every field of their events as the command does are covered, if no
    bound value holds the character by which the builder joins the tags. -/
theorem filters_of_bindings
    (same : ∀ named ∈ folds, ∀ entry ∈ named.2.entries, ∀ field ∈ entry.dynamicFields,
      cmdBindings.get field ≠ none → named.2.bindings.get field = cmdBindings.get field)
    (free : ∀ entry ∈ commandEntries folds, ∀ tag ∈ boundTags entry cmdBindings,
      unitSeparator ∉ tag.toList) : FiltersImplyQuery folds cmdBindings := by
  intro named member eventType required found
  have listed := List.mem_of_find?_eq_some found
  have registered : required ∈ commandEntries folds := List.mem_flatMap.mpr ⟨named, member, listed⟩
  refine ⟨required, registered, by simpa using List.find?_some found, ?_⟩
  intro tag asked
  have pushed := (mem_queryTags (free required registered)).mp asked
  rcases List.mem_append.mp pushed with dynamicTag | staticTag
  · obtain ⟨field, lists, made⟩ := List.mem_filterMap.mp dynamicTag
    apply List.mem_append_left
    apply List.mem_filterMap.mpr
    refine ⟨field, lists, ?_⟩
    rw [same named member required listed field lists (by rintro none; simp [none] at made)]
    exact made
  · exact List.mem_append_right _ staticTag

/-- Folds bound over the command's own input are of that kind where they read every field
    of their events that the command reads. -/
theorem filters_of_input {domainIds : List String} {input : String → JsValue}
    (extracted : extractBindings domainIds input = .ok cmdBindings)
    (own : ∀ named ∈ folds, ∃ fields, named.2.bindings = bindingMap input fields ∧
      ∀ entry ∈ named.2.entries, ∀ field ∈ entry.dynamicFields,
        field ∈ domainIds → field ∈ fields)
    (free : ∀ entry ∈ commandEntries folds, ∀ tag ∈ boundTags entry cmdBindings,
      unitSeparator ∉ tag.toList) : FiltersImplyQuery folds cmdBindings := by
  apply filters_of_bindings _ free
  intro named member entry listed field dynamicField bound
  obtain ⟨fields, bindings, covers⟩ := own named member
  rw [extractBindings_eq extracted, get_bindingMap] at bound ⊢
  by_cases asked : field ∈ domainIds
  · have kept := covers entry listed field dynamicField asked
    rw [bindings, get_bindingMap, if_pos asked, if_pos kept]
  · rw [if_neg asked] at bound
    exact absurd rfl bound

end query

section states
variable {json : Json V} {codec : Codec V} {rules : NameRules} {cmd : CommandDefinition V I}
  {input : I} {getKey : Nat → Uuid → Except String (Option CryptoKey)}
  {folds : List (String × BoundFold V)}

theorem replay_states {fuel head tx : Nat} {log : List Event}
    {transactions after : Transactions} {key : Option String} {finals : List (Slot V)}
    (made : cmd.folds input = .ok folds)
    (replayed : replay json codec cmd rules getKey (fuel + 2) log transactions (.ok head) input
      key = .ok (after, tx, .drained finals)) :
    ∃ cmdBindings stored raws storeds, cmd.bindings input = .ok cmdBindings ∧
      (commandQuery folds cmdBindings).toQuery rules = .ok stored ∧
      (readUpTo log stored 0 head).mapM
        (fun entry => batchEntry codec (getKey entry.1) entry) = .ok raws ∧
      (raws.filter fun raw => !skipShredded raw).mapM (liftStoredEvent json) = .ok storeds ∧
      List.Forall₂ (fun named final =>
        storeds.foldlM applySlot ⟨named.1, named.2, named.2.initial⟩ = .ok final)
        folds finals := by
  obtain ⟨cmdBindings, extracted, rest⟩ := bind_ok.mp replayed
  obtain ⟨bound, called, rest⟩ := bind_ok.mp rest
  obtain rfl : folds = bound := Except.ok.inj (made.symm.trans (mapError_ok.mp called))
  obtain ⟨⟨opened, fresh⟩, new, rest⟩ := bind_ok.mp rest
  obtain ⟨⟨left, result⟩, looped, same⟩ := bind_ok.mp rest
  obtain ⟨rfl, rfl, rfl⟩ : left = after ∧ fresh = tx ∧ result = .drained finals := by
    simpa using same
  rw [runFolds_takes] at looped
  obtain ⟨⟨_, ended⟩, taken, ends⟩ := mapped_ok.mp looped
  obtain ⟨rfl, drained⟩ := Prod.mk.inj ends
  obtain ⟨item, raws, _, passed, _, _, _, handed, batch⟩ :=
    takeBatches_reads (fun _ => rfl) (mapError_ok.mp new) taken
  have ran := takeBatch_ok.mp batch
  rw [drained] at ran
  obtain ⟨storeds, lifted, folded⟩ := runBatch_drained ran
  refine ⟨cmdBindings, item.query, raws, storeds, mapError_ok.mp extracted, passed,
    handed head rfl, lifted, ?_⟩
  exact List.forall₂_map_left_iff.mp (foldlM_mapM folded)

theorem states_of_covered {fuel head tx : Nat} {log : List Event}
    {transactions after : Transactions} {key : Option String} {finals : List (Slot V)}
    (made : cmd.folds input = .ok folds)
    (covered : ∀ cmdBindings stored, cmd.bindings input = .ok cmdBindings →
      (commandQuery folds cmdBindings).toQuery rules = .ok stored → ∀ named ∈ folds,
      ∀ event : Event, named.2.accepts event.eventType event.tags = true →
        stored.matches event = true)
    (replayed : replay json codec cmd rules getKey (fuel + 2) log transactions (.ok head) input
      key = .ok (after, tx, .drained finals)) :
    List.Forall₂ (ReducedState json codec getKey log head) folds finals := by
  obtain ⟨cmdBindings, stored, raws, storeds, extracted, passed, handed, lifted, ended⟩ :=
    replay_states made replayed
  apply forall₂_through _ (List.forall₂_same.mpr fun named _ => Eq.refl named) ended
  rintro named member _ final _ rfl folded
  obtain ⟨state, reduced, rfl⟩ := slot_reduces lifted folded
  refine ⟨raws.filter fun raw => named.2.accepts raw.eventType raw.tags, state, ?_, reduced, rfl⟩
  have narrowed := mapM_filter (p := fun entry : Nat × Event =>
    named.2.accepts entry.2.eventType entry.2.tags)
    (q := fun raw => named.2.accepts raw.eventType raw.tags) (by
      intro entry raw decoded
      obtain ⟨sameType, sameTags⟩ := UmariFolds.batchEntry_labels decoded
      simp only [sameType, sameTags]) handed
  rw [readUpTo, window_filter stored.matches fun event : Event =>
    named.2.accepts event.eventType event.tags] at narrowed
  rw [← narrowed]
  congr 2
  funext event
  cases accepted : named.2.accepts event.eventType event.tags with
  | false => rw [Bool.and_false]
  | true => rw [covered cmdBindings stored extracted passed named member event accepted,
      Bool.and_self]

end states

/-- The query of a JavaScript command covers its bound folds exactly when no fold's
    filter leaves out a tag that every entry of its event type has in the query. -/
theorem covers_bound_folds_iff {json : Json V} {codec : Codec V} {rules : NameRules}
    {cmd : CommandDefinition V I} {input : I} {cmdBindings : DomainIdBindings}
    {folds : List (String × BoundFold V)} {stored : Query} (keeps : KeepsNames rules)
    (extracted : cmd.bindings input = .ok cmdBindings) (made : cmd.folds input = .ok folds)
    (passed : (commandQuery folds cmdBindings).toQuery rules = .ok stored) :
    CoversBoundFolds json codec rules cmd input ↔ FiltersImplyQuery folds cmdBindings := by
  constructor
  · intro covers
    apply filters_of_covered keeps passed
    exact covers.covered cmdBindings folds stored extracted made passed
  · intro implied
    have covered : ∀ other stored, cmd.bindings input = .ok other →
        (commandQuery folds other).toQuery rules = .ok stored → ∀ named ∈ folds,
        ∀ event : Event, named.2.accepts event.eventType event.tags = true →
          stored.matches event = true := by
      intro other stored again passed named member event accepted
      obtain rfl := Except.ok.inj (extracted.symm.trans again)
      exact covered_of_filters keeps passed implied member accepted
    constructor
    · intro other bound stored again called passed
      obtain rfl := Except.ok.inj (made.symm.trans called)
      exact covered other stored again passed
    · intro bound called getKey fuel log transactions head key after tx finals replayed
      obtain rfl := Except.ok.inj (made.symm.trans called)
      exact states_of_covered made covered replayed

section sample

def taskCreated : EventDef := ⟨"task.created", ["projectId", "taskId"]⟩

def object (properties : List (String × JsValue)) (field : String) : JsValue :=
  (properties.lookup field).getD .undefined

def taskInput (task : String) : String → JsValue :=
  object [("projectId", .string "p1"), ("taskId", .string task)]

def taskCommand (folds : (String → JsValue) → List (String × BoundFold String)) :
    CommandDefinition String (String → JsValue) where
  domainIds := ["projectId", "taskId"]
  property := id
  folds := fun input => .ok (folds input)

def projectTasks (input : String → JsValue) : List (String × BoundFold String) :=
  [("tasks", eventCounter taskCreated (object [("projectId", input "projectId")]))]

def ownTask (input : String → JsValue) : List (String × BoundFold String) :=
  [("exists", defineFold
      { State := Bool
        domainIds := ["taskId"]
        events := [taskCreated]
        initial := false
        apply := fun state _ => .ok (state, some true) }
      (object [("taskId", input "taskId")])),
    ("last", latestEvent taskCreated input)]

def textJson : Json String := ⟨"null", .ok⟩

def taskQuery (tags : List String) : Query := .items [⟨["task.created"], tags⟩]

/-- A task created under another task id is the counter's business, but is not read. -/
theorem counter_misses_task : ¬ CoversBoundFolds textJson (textCodec [] []) plainNames
    (taskCommand projectTasks) (taskInput "t1") := by
  intro covers
  have extracted : (taskCommand projectTasks).bindings (taskInput "t1") =
      .ok ⟨[("projectId", "p1"), ("taskId", "t1")], by decide⟩ := by decide +kernel
  have passed : (commandQuery (projectTasks (taskInput "t1"))
      ⟨[("projectId", "p1"), ("taskId", "t1")], by decide⟩).toQuery plainNames =
      .ok (taskQuery ["projectId:p1", "taskId:t1"]) := by decide +kernel
  have seen := covers.covered _ _ _ extracted rfl passed _ List.mem_cons_self
    ⟨"task.created", ["projectId:p1", "taskId:t9"], []⟩ (by decide +kernel)
  exact absurd seen (by decide +kernel)

theorem own_task_covered : CoversBoundFolds textJson (textCodec [] []) plainNames
    (taskCommand ownTask) (taskInput "t1") := by
  have extracted : (taskCommand ownTask).bindings (taskInput "t1") =
      .ok ⟨[("projectId", "p1"), ("taskId", "t1")], by decide⟩ := by decide +kernel
  have passed : (commandQuery (ownTask (taskInput "t1"))
      ⟨[("projectId", "p1"), ("taskId", "t1")], by decide⟩).toQuery plainNames =
      .ok (.items [⟨["task.created"], ["taskId:t1"]⟩,
        ⟨["task.created"], ["projectId:p1", "taskId:t1"]⟩]) := by decide +kernel
  apply (covers_bound_folds_iff UmariQueryCoverage.plainNames_keep extracted rfl passed).mpr
  apply filters_of_bindings
  · decide +kernel
  · decide +kernel

end sample
end UmariJsCommands
