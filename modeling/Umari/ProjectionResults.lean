import Umari.ProjectionRuns

/-!
What a projection gives, whatever the order in which its three parties step. The
plain reading of a run handles one event after another, with no batches, channels
or threads; `Inv` says that the events still on their way to the worker are what
the plain run has left.
-/
namespace UmariProjectionRuns
open BoundedChannels GuardedRuns UmariEventStore UmariStoredEvents UmariSealedEvents
open UmariGroupedQueries (EventEntry ScopeAsks scopeAsks_iff buildQuery buildQuery_matches)
open UmariDcbQueries (KeepsNames)
variable {V J σ : Type}

/-- `JSON.parse` gives back, event by event, the array that `serde_json` wrote; `view`
    is what the script sees of an event. -/
def ReadsJson (job : Job V J σ) (view : LiftedEvent V → J) : Prop :=
  ∀ events, ∃ json, job.toJson events = .ok json ∧
    job.script.parse json = pure (events.map view)

abbrev Plain (α : Type) : Type := ExceptT ProjectionError Option α

def ofScript {α : Type} (evaluation : Evaluation α) : Plain α :=
  ExceptT.mk (evaluation.run.map (Except.mapError .script))

def ofExcept {α : Type} (result : Except ProjectionError α) : Plain α := ExceptT.mk (some result)

/-- The plain fold over what a scan gave: an event at a time, up to where the scan failed. -/
def Job.drain (job : Job V J σ) (view : LiftedEvent V → J) (state : σ) :
    List (Except String (Nat × Event)) → Plain σ
  | [] => pure state
  | .error err :: _ => throw (.store err)
  | .ok entry :: rest =>
    match job.liftEvent entry.1 entry.2 with
    | none => job.drain view state rest
    | some event => do
      let after ← ofScript (job.script.handle state (view event))
      job.drain view after rest

/-- The run as one thread without a budget would do it. -/
def Job.project (job : Job V J σ) (view : LiftedEvent V → J) : Plain (ProjectionOutcome V) := do
  let (state, eventsJson) ← ofScript job.script.setup
  let query ← ofExcept (job.query eventsJson)
  let last ← job.drain view state (job.read query job.limit)
  let (json, logs) ← ofScript (job.script.finish last)
  ofExcept (job.outcome json logs)

def failure : List (Except String (Nat × Event)) → Option String
  | [] => none
  | .error err :: _ => some err
  | .ok _ :: rest => failure rest

/-- The scan that the declared events ask for fails with this error. -/
def Job.ReadFails (job : Job V J σ) (err : String) : Prop :=
  ∃ state eventsJson query, job.script.setup = pure (state, eventsJson) ∧
    job.query eventsJson = .ok query ∧ failure (job.read query job.limit) = some err

/-- Every way a run can end: by its budget, by the plain run's result, or by a failed scan. -/
inductive Ends (job : Job V J σ) (view : LiftedEvent V → J) (labels : List Action) :
    Except ProjectionError (ProjectionOutcome V) → Prop where
  | timeout (passed : Action.timeout ∈ labels) : Ends job view labels (.error .timeout)
  | interrupted (message : String) (passed : Action.interrupt message ∈ labels) :
      Ends job view labels (.error (.script message))
  | plain (result : Except ProjectionError (ProjectionOutcome V))
      (projected : job.project view = ofExcept result) : Ends job view labels result
  | store (err : String) (fails : job.ReadFails err) : Ends job view labels (.error (.store err))

section evaluations
variable {α β : Type}

@[simp] theorem ofScript_pure (a : α) : ofScript (pure a) = pure a := rfl

@[simp] theorem ofScript_bind (first : Evaluation α) (next : α → Evaluation β) :
    ofScript (first >>= next) = ofScript first >>= fun a => ofScript (next a) := by
  obtain none | first := first
  · rfl
  · cases first with
    | error err => rfl
    | ok a => rfl

theorem ofExcept_ok (a : α) : ofExcept (.ok a) = pure a := rfl

end evaluations

section drains
variable {job : Job V J σ} {view : LiftedEvent V → J}

theorem drain_entries (entries : List (Nat × Event)) (state : σ)
    (rest : List (Except String (Nat × Event))) :
    job.drain view state (entries.map .ok ++ rest) =
      ofScript (((job.lift entries).map view).foldlM job.script.handle state) >>=
        fun after => job.drain view after rest := by
  induction entries generalizing state with
  | nil => simp [Job.lift]
  | cons entry tail ih =>
    rw [List.map_cons, List.cons_append, Job.drain]
    cases lifted : job.liftEvent entry.1 entry.2 with
    | none =>
      simp only [Job.lift, List.filterMap_cons, lifted]
      exact ih state
    | some event =>
      simp only [Job.lift, List.filterMap_cons, lifted, List.map_cons, List.foldlM_cons,
        ofScript_bind, bind_assoc]
      congr 1
      funext after
      exact ih after

theorem runBatch_written (reads : ReadsJson job view) {entries : List (Nat × Event)} {json : String}
    (written : job.toJson (job.lift entries) = .ok json) (state : σ) :
    job.script.runBatch state json =
      ((job.lift entries).map view).foldlM job.script.handle state := by
  obtain ⟨text, same, parsed⟩ := reads (job.lift entries)
  rw [written] at same
  cases same
  rw [Script.runBatch, parsed, pure_bind]

theorem drain_batch (reads : ReadsJson job view) {entries : List (Nat × Event)} {json : String}
    (written : job.toJson (job.lift entries) = .ok json) (state : σ)
    (rest : List (Except String (Nat × Event))) :
    job.drain view state (entries.map .ok ++ rest) =
      ofScript (job.script.runBatch state json) >>= fun after => job.drain view after rest := by
  rw [drain_entries, runBatch_written reads written]

end drains

def Reader.rest : Reader → List (Except String (Nat × Event))
  | .scanning rest batch => batch.map .ok ++ rest
  | .sending rest batch => batch.map .ok ++ rest
  | .last batch => batch.map .ok
  | _ => []

def Reader.failed : Reader → Option String
  | .returned (.error err) => some err
  | _ => none

def Feeder.inHand : Feeder V → List String
  | .sending json => [json]
  | _ => []

/-- What the worker is left with once it has done what it is at. -/
def Worker.current (job : Job V J σ) : Worker σ → Option (Plain σ)
  | .receiving state => some (pure state)
  | .folding state json => some (ofScript (job.script.runBatch state json))
  | .finishing state => some (pure state)
  | _ => none

/-- A step of the reader, by what it does with the entries it still has. -/
inductive Reads (receiver : Bool) (reader : Reader) (raw : List (List (Nat × Event))) :
    Reader → List (List (Nat × Event)) → Prop where
  | keep (after : Reader) (unfailed : after.failed = none) (same : after.rest = reader.rest) :
      Reads receiver reader raw after raw
  | hand (after : Reader) (batch : List (Nat × Event)) (unfailed : after.failed = none)
      (handed : reader.rest = batch.map .ok ++ after.rest) :
      Reads receiver reader raw after (raw ++ [batch])
  | abandon (gone : receiver = false) : Reads receiver reader raw (.returned (.ok ())) raw
  | fail (batch : List (Nat × Event)) (err : String) (rest : List (Except String (Nat × Event)))
      (here : reader.rest = batch.map .ok ++ .error err :: rest) :
      Reads receiver reader raw (.returned (.error err)) raw

section reads
variable {s t : State V σ}

theorem send_reads {batch : List (Nat × Event)} {next : Reader} (sent : s.send batch next = some t)
    (unfailed : next.failed = none) (spawned : next ≠ .unspawned)
    (handed : s.reader.rest = batch.map .ok ++ next.rest) :
    ∃ after raw, t = { s with reader := after, raw := raw } ∧ after ≠ .unspawned ∧
      Reads s.feeder.holdsRaw s.reader s.raw.queue after raw.queue := by
  rw [State.send] at sent
  split at sent
  · obtain ⟨raw, pushed, rfl⟩ := Option.map_eq_some_iff.mp sent
    refine ⟨next, raw, rfl, spawned, ?_⟩
    rw [Channel.push_some pushed]
    exact .hand next batch unfailed handed
  · rename_i gone
    cases sent
    exact ⟨.returned (.ok ()), s.raw, rfl, nofun, .abandon (Bool.eq_false_iff.mpr gone)⟩

theorem stepReader_reads (taken : stepReader s = some t) : s.reader.finished = false ∧
    ∃ after raw, t = { s with reader := after, raw := raw } ∧ after ≠ .unspawned ∧
      Reads s.feeder.holdsRaw s.reader s.raw.queue after raw.queue := by
  rw [stepReader] at taken
  split at taken
  · cases taken
  · rename_i stands
    cases taken
    refine ⟨by rw [stands]; rfl, .returned (.ok ()), s.raw, rfl, nofun, .keep _ rfl ?_⟩
    rw [stands]
    rfl
  · rename_i batch _ stands
    cases taken
    refine ⟨by rw [stands]; rfl, .last batch, s.raw, rfl, nofun, .keep _ rfl ?_⟩
    simp [stands, Reader.rest]
  · rename_i err rest batch stands
    cases taken
    refine ⟨by rw [stands]; rfl, .returned (.error err), s.raw, rfl, nofun, .fail batch err rest ?_⟩
    rw [stands]
    rfl
  · rename_i entry rest batch stands
    cases taken
    refine ⟨by rw [stands]; rfl, _, s.raw, rfl, ?_, .keep _ ?_ ?_⟩
    · split <;> nofun
    · split <;> rfl
    · rw [stands]
      split <;> simp [Reader.rest]
  · rename_i rest batch stands
    refine ⟨by rw [stands]; rfl, send_reads taken rfl nofun ?_⟩
    simp [stands, Reader.rest]
  · rename_i batch stands
    refine ⟨by rw [stands]; rfl, send_reads taken rfl nofun ?_⟩
    simp [stands, Reader.rest]
  · cases taken

end reads

inductive Prepared (job : Job V J σ) (labels : List Action) :
    Worker σ → Option (Except String String) → Prop where
  | starting : Prepared job labels .starting none
  | ready (state : σ) (eventsJson : String) (setup : job.script.setup = pure (state, eventsJson)) :
      Prepared job labels (.receiving state) (some (.ok eventsJson))
  | refused (err : String)
      (why : job.script.setup = throw err ∨ Action.interrupt err ∈ labels) :
      Prepared job labels .exited (some (.error err))

structure Scanned (scan : List (Except String (Nat × Event))) (reader : Reader) : Prop where
  spawned : reader ≠ .unspawned
  ahead : reader.finished = false → failure reader.rest = failure scan
  failed : ∀ err, reader.failed = some err → failure scan = some err

/-- The entries between the reader and the worker, the lifted batches by what they carry. -/
def Ahead (job : Job V J σ) (s : State V σ) (left : List (Except String (Nat × Event))) : Prop :=
  ∃ carried, List.Forall₂ (fun json entries => job.toJson (job.lift entries) = .ok json)
      (s.batches.queue ++ s.feeder.inHand) carried ∧
    left = (carried.flatten ++ s.raw.queue.flatten).map .ok ++ s.reader.rest

def Gives (job : Job V J σ) (labels : List Action) (goal : Plain σ)
    (result : Except String (String × List String)) : Prop :=
  (∃ message, Action.interrupt message ∈ labels ∧ result = .error message) ∨
    (goal >>= fun last => ofScript (job.script.finish last)) = ofExcept (result.mapError .script)

/-- A run whose scan has begun; `goal` is where the plain fold over the scan ends. -/
structure Opened (job : Job V J σ) (view : LiftedEvent V → J) (labels : List Action)
    (scan : List (Except String (Nat × Event))) (goal : Plain σ) (s : State V σ) : Prop where
  begun : s.worker ≠ .starting
  scanned : Scanned scan s.reader
  evaluating : ∀ current, s.worker.current job = some current →
    (s.feeder.holdsRaw = false → s.reader.finished = true ∧ s.raw.queue = []) ∧
      (s.reader.failed = none → ∃ left, Ahead job s left ∧
        (current >>= fun state => job.drain view state left) = goal)
  finishing : ∀ state, s.worker = .finishing state →
    s.feeder.holdsBatches = false ∧ s.batches.queue = []
  done : s.worker.current job = none → s.result ≠ none
  gave : ∀ result, s.result = some result → s.reader.failed = none → Gives job labels goal result
  joined : s.feeder = .waiting → s.reader = .returned (.ok ())

inductive Inv (job : Job V J σ) (view : LiftedEvent V → J) (labels : List Action) :
    State V σ → Prop where
  | opening (s : State V σ) (awaits : s.feeder = .awaitingSetup) (unspawned : s.reader = .unspawned)
      (unread : s.raw.queue = []) (unfed : s.batches.queue = []) (unanswered : s.result = none)
      (prepared : Prepared job labels s.worker s.setup) : Inv job view labels s
  | opened (s : State V σ) (state : σ) (eventsJson : String) (query : Query)
      (feeds : s.feeder ≠ .awaitingSetup) (runs : s.feeder.running = true)
      (setup : job.script.setup = pure (state, eventsJson))
      (declared : job.query eventsJson = .ok query)
      (opened : Opened job view labels (job.read query job.limit)
        (job.drain view state (job.read query job.limit)) s) : Inv job view labels s
  | ended (s : State V σ) (result : Except ProjectionError (ProjectionOutcome V))
      (returned : s.feeder = .returned result) (ends : Ends job view labels result) :
      Inv job view labels s

section readers
variable {job : Job V J σ} {view : LiftedEvent V → J} {labels : List Action}
  {scan : List (Except String (Nat × Event))} {goal : Plain σ} {s t : State V σ}

theorem failure_entries (entries : List (Nat × Event)) (rest : List (Except String (Nat × Event))) :
    failure (entries.map .ok ++ rest) = failure rest := by
  induction entries with
  | nil => rfl
  | cons entry tail ih => exact ih

theorem unfailed_of_running {reader : Reader} (running : reader.finished = false) :
    reader.failed = none := by
  cases reader with
  | returned result => cases running
  | _ => rfl

theorem Scanned.keep {reader after : Reader} {receiver : Bool}
    {raw left : List (List (Nat × Event))} (scanned : Scanned scan reader)
    (running : reader.finished = false) (spawned : after ≠ .unspawned)
    (reads : Reads receiver reader raw after left) : Scanned scan after := by
  have ahead := scanned.ahead running
  cases reads with
  | keep _ unfailed same => exact ⟨spawned, fun _ => same ▸ ahead, by simp [unfailed]⟩
  | hand _ batch unfailed handed =>
    refine ⟨spawned, fun _ => ?_, by simp [unfailed]⟩
    rw [← ahead, handed, failure_entries]
  | abandon gone => exact ⟨spawned, nofun, nofun⟩
  | fail batch err rest here =>
    refine ⟨spawned, nofun, ?_⟩
    intro found same
    cases same
    rw [← ahead, here, failure_entries, failure]

theorem Reads.ahead {reader after : Reader} {raw left : List (List (Nat × Event))}
    (reads : Reads true reader raw after left) (unfailed : after.failed = none) :
    left.flatten.map .ok ++ after.rest = raw.flatten.map .ok ++ reader.rest := by
  cases reads with
  | keep _ _ same => rw [same]
  | hand _ batch _ handed => simp [handed]
  | abandon gone => cases gone
  | fail batch err rest here => cases unfailed

theorem opened_reader (opened : Opened job view labels scan goal s)
    (taken : stepReader s = some t) : Opened job view labels scan goal t ∧ t.feeder = s.feeder := by
  obtain ⟨running, after, raw, rfl, spawned, reads⟩ := stepReader_reads taken
  refine ⟨⟨opened.begun, opened.scanned.keep running spawned reads, ?_, opened.finishing,
    opened.done, ?_, ?_⟩, rfl⟩
  · intro current evaluates
    obtain ⟨closed, folds⟩ := opened.evaluating current evaluates
    have open_ : s.feeder.holdsRaw = true := by
      cases held : s.feeder.holdsRaw with
      | true => rfl
      | false =>
        rw [(closed held).1] at running
        cases running
    refine ⟨fun gone => absurd open_ (by simp [show s.feeder.holdsRaw = false from gone]), ?_⟩
    intro unfailed
    obtain ⟨left, ⟨carried, carries, ahead⟩, same⟩ := folds (unfailed_of_running running)
    rw [open_] at reads
    refine ⟨left, ⟨carried, carries, ?_⟩, same⟩
    simp only [ahead, List.map_append, List.append_assoc, reads.ahead unfailed]
  · exact fun result found _ => opened.gave result found (unfailed_of_running running)
  · intro waits
    have before := opened.joined waits
    rw [before] at running
    cases running

end readers

section feeders
variable {job : Job V J σ} {view : LiftedEvent V → J} {labels : List Action}
  {scan : List (Except String (Nat × Event))} {goal : Plain σ} {s t : State V σ}

theorem ahead_lift {batch : List (Nat × Event)} {raw : Channel (List (Nat × Event)) rawChannelCap}
    {json : String} {left : List (Except String (Nat × Event))} (receives : s.feeder = .receiving)
    (popped : s.raw.pop = some (batch, raw)) (written : job.toJson (job.lift batch) = .ok json)
    (ahead : Ahead job s left) : Ahead job { s with raw := raw, feeder := .sending json } left := by
  obtain ⟨carried, carries, rfl⟩ := ahead
  rw [receives] at carries
  simp only [Feeder.inHand, List.append_nil] at carries
  refine ⟨carried ++ [batch], ?_, ?_⟩
  · exact List.rel_append carries (.cons written .nil)
  · simp [Channel.pop_some.mp popped]

theorem ahead_push {json : String} {batches : Channel String batchChannelCap}
    {left : List (Except String (Nat × Event))} (sends : s.feeder = .sending json)
    (pushed : s.batches.push json = some batches) (ahead : Ahead job s left) :
    Ahead job { s with batches := batches, feeder := .receiving } left := by
  obtain ⟨carried, carries, rfl⟩ := ahead
  rw [sends] at carries
  refine ⟨carried, ?_, rfl⟩
  simpa [Feeder.inHand, Channel.push_some pushed] using carries

theorem opened_lift {batch : List (Nat × Event)} {json : String}
    {raw : Channel (List (Nat × Event)) rawChannelCap} (receives : s.feeder = .receiving)
    (popped : s.raw.pop = some (batch, raw)) (written : job.toJson (job.lift batch) = .ok json)
    (opened : Opened job view labels scan goal s) :
    Opened job view labels scan goal { s with raw := raw, feeder := .sending json } := by
  refine ⟨opened.begun, opened.scanned, ?_, ?_, opened.done, opened.gave, nofun⟩
  · intro current evaluates
    refine ⟨nofun, fun unfailed => ?_⟩
    obtain ⟨left, ahead, same⟩ := (opened.evaluating current evaluates).2 unfailed
    exact ⟨left, ahead_lift receives popped written ahead, same⟩
  · intro state finishes
    have dropped := (opened.finishing state finishes).1
    rw [receives] at dropped
    cases dropped

theorem opened_push {json : String} {batches : Channel String batchChannelCap}
    (sends : s.feeder = .sending json) (pushed : s.batches.push json = some batches)
    (opened : Opened job view labels scan goal s) :
    Opened job view labels scan goal { s with batches := batches, feeder := .receiving } := by
  refine ⟨opened.begun, opened.scanned, ?_, ?_, opened.done, opened.gave, nofun⟩
  · intro current evaluates
    refine ⟨nofun, fun unfailed => ?_⟩
    obtain ⟨left, ahead, same⟩ := (opened.evaluating current evaluates).2 unfailed
    exact ⟨left, ahead_push sends pushed ahead, same⟩
  · intro state finishes
    have dropped := (opened.finishing state finishes).1
    rw [sends] at dropped
    cases dropped

theorem opened_join (receives : s.feeder = .receiving) (unread : s.raw.queue = [])
    (finished : s.reader.finished = true) (opened : Opened job view labels scan goal s) :
    Opened job view labels scan goal { s with feeder := .joining } := by
  refine ⟨opened.begun, opened.scanned, ?_, ?_, opened.done, opened.gave, nofun⟩
  · intro current evaluates
    refine ⟨fun _ => ⟨finished, unread⟩, fun unfailed => ?_⟩
    obtain ⟨left, ⟨carried, carries, ahead⟩, same⟩ :=
      (opened.evaluating current evaluates).2 unfailed
    rw [receives] at carries
    exact ⟨left, ⟨carried, carries, ahead⟩, same⟩
  · exact fun state finishes => ⟨rfl, (opened.finishing state finishes).2⟩

theorem opened_break (gone : s.worker.stopped = true)
    (opened : Opened job view labels scan goal s) :
    Opened job view labels scan goal { s with raw := .empty, feeder := .joining } := by
  have stopped : s.worker = .exited := by
    cases stands : s.worker with
    | exited => rfl
    | _ => rw [stands] at gone; cases gone
  refine ⟨opened.begun, opened.scanned, ?_, ?_, opened.done, opened.gave, nofun⟩
  · intro current evaluates
    simp [stopped, Worker.current] at evaluates
  · intro state finishes
    simp [stopped] at finishes

theorem opened_wait (joins : s.feeder = .joining) (returned : s.reader = .returned (.ok ()))
    (opened : Opened job view labels scan goal s) :
    Opened job view labels scan goal { s with feeder := .waiting } := by
  refine ⟨opened.begun, opened.scanned, ?_, ?_, opened.done, opened.gave, fun _ => returned⟩
  · intro current evaluates
    obtain ⟨closed, folds⟩ := opened.evaluating current evaluates
    rw [joins] at closed
    refine ⟨closed, fun unfailed => ?_⟩
    obtain ⟨left, ⟨carried, carries, ahead⟩, same⟩ := folds unfailed
    rw [joins] at carries
    exact ⟨left, ⟨carried, carries, ahead⟩, same⟩
  · exact fun state finishes => ⟨rfl, (opened.finishing state finishes).2⟩

end feeders

def Job.answer (job : Job V J σ) : Except String (String × List String) →
    Except ProjectionError (ProjectionOutcome V)
  | .ok (json, logs) => job.outcome json logs
  | .error err => .error (.script err)

section ends
variable {job : Job V J σ} {view : LiftedEvent V → J} {labels : List Action}
  {state : σ} {eventsJson : String} {query : Query} {s t : State V σ}

theorem project_opened (setup : job.script.setup = pure (state, eventsJson))
    (declared : job.query eventsJson = .ok query) :
    job.project view = (job.drain view state (job.read query job.limit) >>= fun last =>
      ofScript (job.script.finish last)) >>= fun given =>
        ofExcept (job.outcome given.1 given.2) := by
  simp only [Job.project, setup, ofScript_pure, pure_bind, declared, ofExcept_ok, bind_assoc]

theorem ends_of_gives (setup : job.script.setup = pure (state, eventsJson))
    (declared : job.query eventsJson = .ok query)
    {result : Except String (String × List String)}
    (gives : Gives job labels (job.drain view state (job.read query job.limit)) result) :
    Ends job view labels (job.answer result) := by
  rcases gives with ⟨message, passed, rfl⟩ | same
  · exact .interrupted message passed
  · apply Ends.plain
    rw [project_opened setup declared, same]
    cases result with
    | error err => rfl
    | ok given => rfl

theorem inv_leave {result : Except ProjectionError (ProjectionOutcome V)}
    (ends : Ends job view labels result) : Inv job view labels (s.leave result) :=
  .ended _ result rfl ends

theorem opened_feeder (reads : ReadsJson job view)
    (setup : job.script.setup = pure (state, eventsJson))
    (declared : job.query eventsJson = .ok query) (feeds : s.feeder ≠ .awaitingSetup)
    (opened : Opened job view labels (job.read query job.limit)
      (job.drain view state (job.read query job.limit)) s)
    (taken : stepFeeder job s = some t) : Inv job view labels t := by
  unfold stepFeeder at taken
  cases stands : s.feeder with
  | awaitingSetup => exact absurd stands feeds
  | receiving =>
    simp only [stands] at taken
    cases popped : s.raw.pop with
    | some popping =>
      obtain ⟨batch, raw⟩ := popping
      obtain ⟨json, written, _⟩ := reads (job.lift batch)
      simp only [popped, written, Option.some.injEq] at taken
      subst taken
      exact .opened _ state eventsJson query nofun rfl setup declared
        (opened_lift stands popped written opened)
    | none =>
      simp only [popped] at taken
      split at taken
      · rename_i finished
        cases taken
        exact .opened _ state eventsJson query nofun rfl setup declared
          (opened_join stands (Channel.pop_none.mp popped) finished opened)
      · cases taken
  | sending json =>
    simp only [stands] at taken
    split at taken
    · rename_i gone
      cases taken
      exact .opened _ state eventsJson query nofun rfl setup declared (opened_break gone opened)
    · obtain ⟨batches, pushed, rfl⟩ := Option.map_eq_some_iff.mp taken
      exact .opened _ state eventsJson query nofun rfl setup declared
        (opened_push stands pushed opened)
  | joining =>
    simp only [stands] at taken
    split at taken
    · rename_i returned
      cases taken
      exact .opened _ state eventsJson query nofun rfl setup declared
        (opened_wait stands returned opened)
    · rename_i err returned
      cases taken
      have failed := opened.scanned.failed err (by rw [returned]; rfl)
      exact inv_leave (.store err ⟨state, eventsJson, query, setup, declared, failed⟩)
    · cases taken
  | waiting =>
    have joined := opened.joined stands
    have unfailed : s.reader.failed = none := by rw [joined]; rfl
    simp only [stands] at taken
    split at taken
    · rename_i json logs found
      cases taken
      exact inv_leave (ends_of_gives setup declared (opened.gave _ found unfailed))
    · rename_i err found
      cases taken
      exact inv_leave (ends_of_gives setup declared (opened.gave _ found unfailed))
    · rename_i unanswered
      split at taken
      · rename_i gone
        have idle : s.worker.current job = none := by
          cases ended : s.worker with
          | exited => rfl
          | _ => rw [ended] at gone; cases gone
        exact absurd unanswered (opened.done idle)
      · cases taken
  | returned result =>
    simp only [stands] at taken
    cases taken

end ends

section workers
variable {job : Job V J σ} {view : LiftedEvent V → J} {labels : List Action}
  {scan : List (Except String (Nat × Event))} {goal : Plain σ} {s t : State V σ}

theorem opened_receive {state : σ} {json : String} {batches : Channel String batchChannelCap}
    (reads : ReadsJson job view) (receives : s.worker = .receiving state)
    (popped : s.batches.pop = some (json, batches))
    (opened : Opened job view labels scan goal s) :
    Opened job view labels scan goal
      { s with batches := batches, worker := .folding state json } := by
  have queue := Channel.pop_some.mp popped
  refine ⟨nofun, opened.scanned, ?_, nofun, nofun, opened.gave, opened.joined⟩
  intro current evaluates
  cases evaluates
  obtain ⟨closed, folds⟩ := opened.evaluating (pure state) (by rw [receives]; rfl)
  refine ⟨closed, fun unfailed => ?_⟩
  obtain ⟨left, ⟨carried, carries, rfl⟩, same⟩ := folds unfailed
  rw [queue, List.cons_append] at carries
  obtain ⟨entries, rest, written, tail, rfl⟩ := List.forall₂_cons_left_iff.mp carries
  refine ⟨_, ⟨rest, tail, rfl⟩, ?_⟩
  rw [← same, pure_bind]
  simp only [List.flatten_cons, List.append_assoc, List.map_append]
  exact (drain_batch reads written state _).symm

theorem opened_finish {state : σ} (receives : s.worker = .receiving state)
    (popped : s.batches.pop = none) (dropped : s.feeder.holdsBatches = false)
    (opened : Opened job view labels scan goal s) :
    Opened job view labels scan goal { s with worker := .finishing state } := by
  refine ⟨nofun, opened.scanned, ?_, ?_, nofun, opened.gave, opened.joined⟩
  · intro current evaluates
    cases evaluates
    exact opened.evaluating (pure state) (by rw [receives]; rfl)
  · exact fun _ _ => ⟨dropped, Channel.pop_none.mp popped⟩

theorem worker_folded {state after : σ} {json : String} (folds : s.worker = .folding state json)
    (folded : job.script.runBatch state json = pure after) :
    step job s .worker = some { s with worker := .receiving after } := by
  have found : job.script.runBatch state json = some (.ok after) := folded
  simp only [step, stepWorker, folds, found]

theorem opened_fold {state after : σ} {json : String} (folds : s.worker = .folding state json)
    (folded : job.script.runBatch state json = pure after)
    (opened : Opened job view labels scan goal s) :
    Opened job view labels scan goal { s with worker := .receiving after } := by
  refine ⟨nofun, opened.scanned, ?_, nofun, nofun, opened.gave, opened.joined⟩
  intro current evaluates
  cases evaluates
  have before := opened.evaluating (ofScript (job.script.runBatch state json))
    (by rw [folds]; rfl)
  rw [folded] at before
  exact before

theorem opened_answer {result : Except String (String × List String)}
    (gives : s.reader.failed = none → Gives job labels goal result)
    (opened : Opened job view labels scan goal s) :
    Opened job view labels scan goal { s with result := some result, worker := .sent } := by
  refine ⟨nofun, opened.scanned, nofun, nofun, nofun, ?_, opened.joined⟩
  intro given same unfailed
  cases same
  exact gives unfailed

theorem gives_thrown {state : σ} {json err : String} (folds : s.worker = .folding state json)
    (threw : job.script.runBatch state json = throw err)
    (opened : Opened job view labels scan goal s) (unfailed : s.reader.failed = none) :
    Gives job labels goal (.error err) := by
  obtain ⟨_, evaluating⟩ := opened.evaluating (ofScript (job.script.runBatch state json))
    (by rw [folds]; rfl)
  obtain ⟨left, _, same⟩ := evaluating unfailed
  right
  rw [← same, threw]
  rfl

theorem gives_finished {state : σ} {result : Except String (String × List String)}
    (finishes : s.worker = .finishing state) (finished : job.script.finish state = some result)
    (opened : Opened job view labels scan goal s) (unfailed : s.reader.failed = none) :
    Gives job labels goal result := by
  obtain ⟨closed, evaluating⟩ := opened.evaluating (pure state) (by rw [finishes]; rfl)
  obtain ⟨dropped, unfed⟩ := opened.finishing state finishes
  have joins : s.feeder.holdsRaw = false ∧ s.feeder.inHand = [] := by
    cases stands : s.feeder with
    | receiving | sending => rw [stands] at dropped; cases dropped
    | _ => exact ⟨rfl, rfl⟩
  obtain ⟨halted, unread⟩ := closed joins.1
  have returned : s.reader.rest = [] := by
    cases stands : s.reader with
    | returned => rfl
    | _ => rw [stands] at halted; cases halted
  obtain ⟨left, ⟨carried, carries, rfl⟩, same⟩ := evaluating unfailed
  rw [unfed, joins.2] at carries
  cases carries
  right
  rw [← same, unread, returned]
  change ofScript (job.script.finish state) = _
  rw [finished]
  rfl

theorem opened_exit (sent : s.worker = .sent) (opened : Opened job view labels scan goal s) :
    Opened job view labels scan goal { s with worker := .exited, batches := .empty } := by
  refine ⟨nofun, opened.scanned, nofun, nofun, fun _ => ?_, opened.gave, opened.joined⟩
  exact opened.done (by rw [sent]; rfl)

theorem opened_worker (reads : ReadsJson job view)
    (opened : Opened job view labels scan goal s) (taken : stepWorker job s = some t) :
    Opened job view labels scan goal t ∧ t.feeder = s.feeder := by
  unfold stepWorker at taken
  cases stands : s.worker with
  | starting => exact absurd stands opened.begun
  | receiving state =>
    simp only [stands] at taken
    split at taken
    · rename_i json batches popped
      cases taken
      exact ⟨opened_receive reads stands popped opened, rfl⟩
    · rename_i popped
      split at taken
      · cases taken
      · rename_i dropped
        cases taken
        exact ⟨opened_finish stands popped (Bool.eq_false_iff.mpr dropped) opened, rfl⟩
  | folding state json =>
    simp only [stands] at taken
    split at taken
    · cases taken
    · rename_i err threw
      cases taken
      exact ⟨opened_answer (gives_thrown stands threw opened) opened, rfl⟩
    · rename_i after folded
      cases taken
      exact ⟨opened_fold stands folded opened, rfl⟩
  | finishing state =>
    simp only [stands] at taken
    split at taken
    · cases taken
    · rename_i result finished
      cases taken
      exact ⟨opened_answer (gives_finished stands finished opened) opened, rfl⟩
  | sent =>
    simp only [stands] at taken
    cases taken
    exact ⟨opened_exit stands opened, rfl⟩
  | exited =>
    simp only [stands] at taken
    cases taken

end workers

section runs
variable {job : Job V J σ} {view : LiftedEvent V → J} {labels : List Action} {s t : State V σ}

theorem ends_of_refused {err : String}
    (why : job.script.setup = throw err ∨ Action.interrupt err ∈ labels) :
    Ends job view labels (.error (.script err)) := by
  rcases why with threw | passed
  · apply Ends.plain
    rw [Job.project, threw]
    rfl
  · exact .interrupted err passed

theorem opened_start {state : σ} {query : Query} (unread : s.raw.queue = [])
    (unfed : s.batches.queue = []) (unanswered : s.result = none)
    (receives : s.worker = .receiving state) :
    Opened job view labels (job.read query job.limit)
      (job.drain view state (job.read query job.limit))
      { s with feeder := .receiving, reader := .scanning (job.read query job.limit) [] } := by
  refine ⟨?_, ⟨nofun, fun _ => rfl, nofun⟩, ?_, ?_, ?_, ?_, nofun⟩
  · simp [receives]
  · intro current evaluates
    simp only [receives, Worker.current, Option.some.injEq] at evaluates
    subst evaluates
    refine ⟨nofun, fun _ => ⟨job.read query job.limit, ⟨[], ?_, ?_⟩, by rw [pure_bind]⟩⟩
    · simp [unfed, Feeder.inHand]
    · simp [unread, Reader.rest]
  · intro other finishes
    simp [receives] at finishes
  · simp [receives, Worker.current]
  · simp [unanswered]

theorem opening_feeder (awaits : s.feeder = .awaitingSetup) (unread : s.raw.queue = [])
    (unfed : s.batches.queue = []) (unanswered : s.result = none)
    (prepared : Prepared job labels s.worker s.setup) (taken : stepFeeder job s = some t) :
    Inv job view labels t := by
  simp only [stepFeeder, awaits] at taken
  generalize stands : s.worker = worker at prepared taken
  generalize found : s.setup = setup at prepared taken
  cases prepared with
  | starting => cases taken
  | ready state eventsJson setup =>
    cases declared : job.query eventsJson with
    | error err =>
      simp only [declared, Option.some.injEq] at taken
      subst taken
      refine inv_leave (.plain _ ?_)
      simp only [Job.project, setup, ofScript_pure, pure_bind, declared]
      rfl
    | ok query =>
      simp only [declared, Option.some.injEq] at taken
      subst taken
      have begun : Opened job view labels (job.read query job.limit)
          (job.drain view state (job.read query job.limit)) _ :=
        opened_start unread unfed unanswered stands
      rw [stands, found] at begun
      exact .opened _ state eventsJson query nofun rfl setup declared begun
  | refused err why =>
    cases taken
    exact inv_leave (ends_of_refused why)

theorem opening_worker (awaits : s.feeder = .awaitingSetup) (unspawned : s.reader = .unspawned)
    (unread : s.raw.queue = []) (unfed : s.batches.queue = []) (unanswered : s.result = none)
    (prepared : Prepared job labels s.worker s.setup) (taken : stepWorker job s = some t) :
    Inv job view labels t := by
  unfold stepWorker at taken
  generalize stands : s.worker = worker at prepared taken
  generalize s.setup = setup at prepared
  cases prepared with
  | starting =>
    simp only at taken
    split at taken
    · cases taken
    · rename_i err threw
      cases taken
      exact .opening _ awaits unspawned unread unfed unanswered (.refused err (Or.inl threw))
    · rename_i state eventsJson ready
      simp only [awaits, Feeder.running, if_true, Option.some.injEq] at taken
      subst taken
      exact .opening _ rfl unspawned unread unfed unanswered (.ready state eventsJson ready)
  | ready state eventsJson setup =>
    simp only [Channel.pop_none.mpr unfed, awaits, Feeder.holdsBatches, if_true] at taken
    cases taken
  | refused err why => cases taken

theorem opened_interrupt {scan : List (Except String (Nat × Event))} {goal : Plain σ}
    {message : String} (passed : Action.interrupt message ∈ labels)
    (opened : Opened job view labels scan goal s) (taken : interrupt s message = some t) :
    Opened job view labels scan goal t ∧ t.feeder = s.feeder := by
  have gives : s.reader.failed = none → Gives job labels goal (.error message) :=
    fun _ => Or.inl ⟨message, passed, rfl⟩
  unfold interrupt at taken
  split at taken
  · rename_i starts
    exact absurd starts opened.begun
  · cases taken
    exact ⟨opened_answer gives opened, rfl⟩
  · cases taken
    exact ⟨opened_answer gives opened, rfl⟩
  · cases taken

theorem opening_interrupt {message : String} (passed : Action.interrupt message ∈ labels)
    (awaits : s.feeder = .awaitingSetup) (unspawned : s.reader = .unspawned)
    (unread : s.raw.queue = []) (unfed : s.batches.queue = []) (unanswered : s.result = none)
    (prepared : Prepared job labels s.worker s.setup) (taken : interrupt s message = some t) :
    Inv job view labels t := by
  unfold interrupt at taken
  generalize stands : s.worker = worker at prepared taken
  generalize s.setup = setup at prepared
  cases prepared with
  | starting =>
    cases taken
    exact .opening _ awaits unspawned unread unfed unanswered (.refused message (Or.inr passed))
  | ready => cases taken
  | refused => cases taken

theorem inv_timeout (passed : Action.timeout ∈ labels) (taken : timeout s = some t) :
    Inv job view labels t := by
  unfold timeout at taken
  split at taken
  · cases taken
    exact inv_leave (.timeout passed)
  · cases taken

theorem worker_feeder (taken : stepWorker job s = some t) : t.feeder = s.feeder := by
  unfold stepWorker at taken
  repeat' split at taken
  all_goals cases taken <;> rfl

theorem interrupt_feeder {message : String} (taken : interrupt s message = some t) :
    t.feeder = s.feeder := by
  unfold interrupt at taken
  split at taken
  all_goals cases taken <;> rfl

theorem inv_ended {result : Except ProjectionError (ProjectionOutcome V)} {a : Action}
    (returned : s.feeder = .returned result) (ends : Ends job view labels result)
    (taken : step job s a = some t) : Inv job view labels t := by
  have same : t.feeder = .returned result := by
    cases a with
    | reader =>
      obtain ⟨_, after, raw, rfl, _⟩ := stepReader_reads taken
      exact returned
    | feeder => simp [step, stepFeeder, returned] at taken
    | worker => exact (worker_feeder taken).trans returned
    | interrupt message => exact (interrupt_feeder taken).trans returned
    | timeout => simp [step, timeout, returned, Feeder.running] at taken
  exact .ended t result same ends

theorem inv_step (reads : ReadsJson job view) {a : Action} (allowed : a ∈ labels)
    (inv : Inv job view labels s) (taken : step job s a = some t) : Inv job view labels t := by
  cases inv with
  | ended result returned ends => exact inv_ended returned ends taken
  | opening awaits unspawned unread unfed unanswered prepared =>
    cases a with
    | reader => simp [step, stepReader, unspawned] at taken
    | feeder => exact opening_feeder awaits unread unfed unanswered prepared taken
    | worker => exact opening_worker awaits unspawned unread unfed unanswered prepared taken
    | interrupt message =>
      exact opening_interrupt allowed awaits unspawned unread unfed unanswered prepared taken
    | timeout => exact inv_timeout allowed taken
  | opened state eventsJson query feeds runs setup declared opened =>
    have stays : ∀ {t : State V σ}, Opened job view labels (job.read query job.limit)
        (job.drain view state (job.read query job.limit)) t ∧ t.feeder = s.feeder →
        Inv job view labels t := by
      rintro t ⟨later, same⟩
      exact .opened t state eventsJson query (same ▸ feeds) (same ▸ runs) setup declared later
    cases a with
    | reader => exact stays (opened_reader opened taken)
    | feeder => exact opened_feeder reads setup declared feeds opened taken
    | worker => exact stays (opened_worker reads opened taken)
    | interrupt message => exact stays (opened_interrupt allowed opened taken)
    | timeout => exact inv_timeout allowed taken

theorem inv_start : Inv job view labels start := .opening _ rfl rfl rfl rfl rfl .starting

theorem inv_run (reads : ReadsJson job view) (run : exec (step job) start labels = some s) :
    Inv job view labels s := by
  have met : Meets (step job) (fun _ a => a ∈ labels) start labels :=
    meets_of_mem (fun _ _ member => member) start
  exact guarded_invariant (fun inv allowed taken => inv_step reads allowed inv taken) inv_start
    run met

theorem inv_returned {result : Except ProjectionError (ProjectionOutcome V)}
    (inv : Inv job view labels s) (returned : s.feeder = .returned result) :
    Ends job view labels result := by
  cases inv with
  | opening awaits => rw [awaits] at returned; cases returned
  | opened _ _ _ _ runs => rw [returned] at runs; cases runs
  | ended other same ends =>
    rw [same] at returned
    cases returned
    exact ends

/-- Whatever the order of the parties' steps, the budget ran out, the scan failed, or the
    run gives what the plain fold over the scan gives. -/
theorem projection_ends (reads : ReadsJson job view)
    {result : Except ProjectionError (ProjectionOutcome V)}
    (run : exec (step job) start labels = some s) (returned : s.feeder = .returned result) :
    Ends job view labels result := inv_returned (inv_run reads run) returned

end runs

def upTo (limit : Option Nat) (found : List (Nat × Event)) : List (Nat × Event) :=
  match limit with
  | some limit => found.take limit
  | none => found

/-- One read of the store as it stands when the reader gets to it. -/
def scanOf (log : List Event) (query : Query) (limit : Option Nat) :
    List (Except String (Nat × Event)) :=
  (upTo limit (readUpTo log query 0 log.length)).map .ok

def declared (codec : Codec V) (declaration : List (EventEntry V)) (log : List Event) :
    List (Nat × Event) :=
  (PositionedLogs.entries log).filter fun entry => declaration.any fun asked =>
    asked.eventType == entry.2.eventType && (asked.tags codec).toList.all entry.2.tags.contains

section views
variable {job : Job V J σ} {view : LiftedEvent V → J} {labels : List Action} {s : State V σ}
  {log : List Event}

theorem bind_pure_iff {α β : Type} {first : Plain α} {next : α → Plain β} {b : β} :
    first >>= next = pure b ↔ ∃ a, first = pure a ∧ next a = pure b := by
  obtain none | first := first
  · constructor
    · exact nofun
    · rintro ⟨a, same, _⟩
      cases same
  · cases first with
    | error err =>
      constructor
      · exact nofun
      · rintro ⟨a, same, _⟩
        cases same
    | ok a =>
      constructor
      · exact fun same => ⟨a, rfl, same⟩
      · rintro ⟨other, same, given⟩
        cases same
        exact given

theorem ofScript_pure_iff {α : Type} {evaluation : Evaluation α} {a : α} :
    ofScript evaluation = pure a ↔ evaluation = pure a := by
  obtain none | result := evaluation
  · exact ⟨nofun, nofun⟩
  · cases result with
    | error err => exact ⟨nofun, nofun⟩
    | ok b =>
      constructor
      · intro same
        cases same
        rfl
      · rintro ⟨⟩
        rfl

theorem ofExcept_pure_iff {α : Type} {result : Except ProjectionError α} {a : α} :
    ofExcept result = pure a ↔ result = .ok a := by
  constructor
  · intro same
    cases same
    rfl
  · rintro rfl
    rfl

theorem declared_query {declaration : List (EventEntry V)} {query : Query}
    (keeps : KeepsNames job.rules)
    (built : buildQuery job.codec job.rules declaration = .ok query) (log : List Event) :
    readUpTo log query 0 log.length = declared job.codec declaration log := by
  apply List.filter_congr
  rintro ⟨position, event⟩ member
  have bounds := PositionedLogs.entries_bounds member
  apply Bool.eq_iff_iff.mpr
  rw [PositionedLogs.inWindow_iff]
  simp only [buildQuery_matches keeps built, scopeAsks_iff, List.any_eq_true, Bool.and_eq_true,
    beq_iff_eq, List.all_eq_true, List.contains_iff_mem]
  constructor
  · exact fun h => h.2.2
  · exact fun asked => ⟨bounds.1, bounds.2, asked⟩

theorem query_declares {eventsJson : String} {query : Query}
    (asked : job.query eventsJson = .ok query) : ∃ declaration,
      job.parseEntries eventsJson = .ok declaration ∧
        buildQuery job.codec job.rules declaration = .ok query := by
  obtain ⟨declaration, parsed, built⟩ := FallibleFolds.do_ok.mp asked
  exact ⟨declaration, FallibleFolds.mapError_ok.mp parsed, FallibleFolds.mapError_ok.mp built⟩

/-- A view that a run gives is the script's fold over the events it declared, each once,
    in the order of the log and up to the limit, whatever the order of the run's steps. -/
theorem run_view (reads : ReadsJson job view) (keeps : KeepsNames job.rules)
    (store : job.read = scanOf log) {outcome : ProjectionOutcome V}
    (run : exec (step job) start labels = some s) (returned : s.feeder = .returned (.ok outcome)) :
    ∃ (first last : σ) (eventsJson json : String) (declaration : List (EventEntry V)),
      job.script.setup = pure (first, eventsJson) ∧
      job.parseEntries eventsJson = .ok declaration ∧
      ((job.lift (upTo job.limit (declared job.codec declaration log))).map view).foldlM
        job.script.handle first = pure last ∧
      job.script.finish last = pure (json, outcome.logs) ∧
      job.codec.fromStr json = .ok outcome.result := by
  cases inv_returned (inv_run reads run) returned with
  | plain _ projected =>
    rw [ofExcept_ok, Job.project] at projected
    obtain ⟨⟨first, eventsJson⟩, setup, afterSetup⟩ := bind_pure_iff.mp projected
    obtain ⟨query, asked, afterQuery⟩ := bind_pure_iff.mp afterSetup
    obtain ⟨last, drained, afterScan⟩ := bind_pure_iff.mp afterQuery
    obtain ⟨⟨json, logs⟩, finished, given⟩ := bind_pure_iff.mp afterScan
    obtain ⟨declaration, parsed, built⟩ := query_declares (ofExcept_pure_iff.mp asked)
    have outcomes : job.outcome json logs = .ok outcome := ofExcept_pure_iff.mp given
    have text : job.codec.fromStr json = .ok outcome.result ∧ logs = outcome.logs := by
      unfold Job.outcome at outcomes
      split at outcomes
      · rename_i result found
        cases outcomes
        exact ⟨found, rfl⟩
      · cases outcomes
    have scan : job.read query job.limit =
        (upTo job.limit (declared job.codec declaration log)).map .ok ++ [] := by
      rw [store, List.append_nil, scanOf, declared_query keeps built]
    rw [scan, drain_entries] at drained
    obtain ⟨other, folded, same⟩ := bind_pure_iff.mp drained
    cases same
    exact ⟨first, last, eventsJson, json, declaration, ofScript_pure_iff.mp setup, parsed,
      ofScript_pure_iff.mp folded, text.2 ▸ ofScript_pure_iff.mp finished, text.1⟩

end views

section sample
open UmariJsonCodec

abbrev LiftedFields :=
  (String × Nat × String × List String × String × String × String) ×
    (Option String × Option String × Option String × Option String × String)

instance encodableLifted : Encodable (LiftedEvent String) :=
  Encodable.ofLeftInverse
    (fun e => (((e.id, e.position, e.eventType, e.tags, e.timestamp, e.correlationId,
      e.causationId), (e.triggeringEventId, e.idempotencyKey, e.encryptionScope,
      e.encryptionKeyId, e.data)) : LiftedFields))
    (fun f => ⟨f.1.1, f.1.2.1, f.1.2.2.1, f.1.2.2.2.1, f.1.2.2.2.2.1, f.1.2.2.2.2.2.1,
      f.1.2.2.2.2.2.2, f.2.1, f.2.2.1, f.2.2.2.1, f.2.2.2.2.1, f.2.2.2.2.2⟩)
    (fun _ => rfl)

def textField (name : String) (value : String) : String :=
  "\"" ++ name ++ "\":\"" ++ value ++ "\","

/-- An event whose texts need no escape, as `serde_json` writes it; the data is JSON already. -/
def objectText (event : LiftedEvent String) : String :=
  let optional (name : String) (value : Option String) := (value.map (textField name)).getD ""
  "\x7b" ++ textField "id" event.id ++ "\"position\":" ++ Nat.repr event.position ++ "," ++
    textField "type" event.eventType ++ "\"tags\":[" ++
    String.intercalate "," (event.tags.map fun tag => "\"" ++ tag ++ "\"") ++ "]," ++
    textField "timestamp" event.timestamp ++ textField "correlationId" event.correlationId ++
    textField "causationId" event.causationId ++
    optional "triggeringEventId" event.triggeringEventId ++
    optional "idempotencyKey" event.idempotencyKey ++
    optional "encryptionScope" event.encryptionScope ++
    optional "encryptionKeyId" event.encryptionKeyId ++ "\"data\":" ++ event.data ++ "\x7d"

def arrayText (events : List (LiftedEvent String)) : String :=
  String.ofList ('[' :: ((String.intercalate "," (events.map objectText)).toList ++ [']']))

/-- The array of the batch that the run meets; any other batch only has to read back. -/
def writeBatch (batch events : List (LiftedEvent String)) : String :=
  if events = batch then arrayText batch
  else String.ofList (List.replicate (Encodable.encode events) '0')

def parseBatch (batch : List (LiftedEvent String)) (text : String) :
    Evaluation (List (LiftedEvent String)) :=
  if text = arrayText batch then pure batch
  else match Encodable.decode text.length with
    | some events => pure events
    | none => throw "SyntaxError: unexpected token"

theorem parseBatch_writeBatch (batch events : List (LiftedEvent String)) :
    parseBatch batch (writeBatch batch events) = pure events := by
  by_cases same : events = batch
  · rw [parseBatch, writeBatch, if_pos same, if_pos rfl, same]
  · have other : writeBatch batch events =
        String.ofList (List.replicate (Encodable.encode events) '0') := if_neg same
    have unequal : writeBatch batch events ≠ arrayText batch := by
      rw [other, arrayText]
      intro equal
      have chars := String.ofList_injective equal
      cases size : Encodable.encode events with
      | zero => simp [size] at chars
      | succ n => simp [size, List.replicate_succ] at chars
    rw [parseBatch, if_neg unequal, other, String.length_ofList, List.length_replicate,
      Encodable.encodek]

def countTasks (batch : List (LiftedEvent String)) : Script (LiftedEvent String) Nat where
  setup := pure (0, "[\"task.created\"]")
  parse := parseBatch batch
  handle := fun count _ => pure (count + 1)
  finish := fun count => pure (Nat.repr count, [])

def taskRecord : StoredEventData String :=
  ⟨0x0a, 0, 0x0b, 0x0c, none, none, none, none, "\x7b\x7d"⟩

def taskLog : List Event :=
  [⟨"task.created", ["project_id:p1"], recordBytes taskRecord⟩, ⟨"task.closed", [], []⟩]

def taskBatch : List (LiftedEvent String) :=
  [⟨"00000000-0000-0000-0000-00000000000a", 1, "task.created", ["project_id:p1"],
    "1970-01-01T00:00:00+00:00", "00000000-0000-0000-0000-00000000000b",
    "00000000-0000-0000-0000-00000000000c", none, none, none, none, "\x7b\x7d"⟩]

def countJob : Job String (LiftedEvent String) Nat where
  codec := textCodec [taskRecord] []
  rules := plainNames
  rfc3339 := fun _ => "1970-01-01T00:00:00+00:00"
  keyById := fun _ _ => .ok none
  keyByScope := fun _ _ => .ok none
  read := scanOf taskLog
  limit := none
  parseEntries := fun text =>
    if text = "[\"task.created\"]" then .ok [.type "task.created"] else .error "expected value"
  toJson := fun events => .ok (writeBatch taskBatch events)
  script := countTasks taskBatch

theorem countTasks_parse (batch : List (LiftedEvent String)) :
    (countTasks batch).parse = parseBatch batch := rfl

theorem countJob_readsJson : ReadsJson countJob id := by
  intro events
  refine ⟨writeBatch taskBatch events, rfl, ?_⟩
  rw [List.map_id, countJob, countTasks_parse]
  exact parseBatch_writeBatch taskBatch events

theorem countJob_lift : countJob.lift [(1, ⟨"task.created", ["project_id:p1"],
    recordBytes taskRecord⟩)] = taskBatch := by
  have parsed : countJob.codec.storedFromSlice (recordBytes taskRecord) = .ok taskRecord := by
    simp [countJob, textCodec]
  have texts : asciiText (uuidBytes 10#128) = "00000000-0000-0000-0000-00000000000a" ∧
      asciiText (uuidBytes 11#128) = "00000000-0000-0000-0000-00000000000b" ∧
      asciiText (uuidBytes 12#128) = "00000000-0000-0000-0000-00000000000c" := by decide
  simp only [Job.lift, List.filterMap_cons, Job.liftEvent, parsed]
  simp [countJob, textCodec, taskBatch, taskRecord, texts, EventDecode.decryptEventData,
    EventData.intoValue]

theorem countJob_folds : countJob.script.runBatch 0 (writeBatch taskBatch taskBatch) = pure 1 := by
  rw [Script.runBatch, countJob, countTasks_parse, parseBatch_writeBatch]
  rfl

def counted (feeder : Feeder String) (worker : Worker Nat)
    (result : Option (Except String (String × List String))) : State String Nat :=
  ⟨.returned (.ok ()), feeder, worker, .empty, .empty, some (.ok "[\"task.created\"]"), result⟩

theorem count_fed : exec (step countJob) start
    [.worker, .feeder, .reader, .reader, .reader, .feeder, .feeder, .worker] =
    some (counted .receiving (.folding 0 (writeBatch taskBatch taskBatch)) none) := by
  have fed : exec (step countJob) start
      [.worker, .feeder, .reader, .reader, .reader, .feeder, .feeder, .worker] =
      some (counted .receiving (.folding 0 (writeBatch taskBatch (countJob.lift
        [(1, ⟨"task.created", ["project_id:p1"], recordBytes taskRecord⟩)]))) none) := rfl
  rwa [countJob_lift] at fed

theorem count_run : exec (step countJob) start
    [.worker, .feeder, .reader, .reader, .reader, .feeder, .feeder, .worker, .worker,
      .feeder, .feeder, .worker, .worker, .feeder, .worker] =
    some (counted (.returned (.ok ⟨"1", []⟩)) .exited (some (.ok ("1", [])))) := by
  have folded : step countJob (counted .receiving
      (.folding 0 (writeBatch taskBatch taskBatch)) none) .worker =
      some (counted .receiving (.receiving 1) none) := by
    exact worker_folded rfl countJob_folds
  have left : exec (step countJob) (counted .receiving (.receiving 1) none)
      [.feeder, .feeder, .worker, .worker, .feeder, .worker] =
      some (counted (.returned (.ok ⟨"1", []⟩)) .exited (some (.ok ("1", [])))) := rfl
  have whole := TerminatingRuns.exec_append.mpr ⟨_, count_fed, exec_cons.mpr ⟨_, folded, left⟩⟩
  simpa only [List.cons_append, List.nil_append] using whole

theorem count_ends : Ends countJob id
    [.worker, .feeder, .reader, .reader, .reader, .feeder, .feeder, .worker, .worker,
      .feeder, .feeder, .worker, .worker, .feeder, .worker] (.ok ⟨"1", []⟩) :=
  projection_ends countJob_readsJson count_run rfl

theorem count_view : ∃ (first last : Nat) (eventsJson json : String)
    (declaration : List (EventEntry String)),
      countJob.script.setup = pure (first, eventsJson) ∧
      countJob.parseEntries eventsJson = .ok declaration ∧
      ((countJob.lift (upTo countJob.limit (declared countJob.codec declaration taskLog))).map
        id).foldlM countJob.script.handle first = pure last ∧
      countJob.script.finish last = pure (json, []) ∧ countJob.codec.fromStr json = .ok "1" :=
  run_view countJob_readsJson UmariQueryCoverage.plainNames_keep rfl count_run rfl

end sample

end UmariProjectionRuns
