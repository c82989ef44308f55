import Umari.NumberedLists
import Umari.PooledDispatch

/-!
One worker of the pool over its restarts. Its connection keeps a transaction open from one
event to the next; what the guest writes is stored by the `COMMIT; BEGIN` after a handler
that returned, and is gone when the connection is dropped. An acknowledgement is sent by
the handler's turn or by `on_panic`, told apart by the position the turn leaves set. Every
turn keeps a record of what left the worker during it, in order.
-/
namespace UmariWorkerAcks
open GuardedRuns NumberedLists UmariStoredEvents
open UmariPooledDispatch (ProcessEvent WorkerAck HandlerOutcome)
variable {W : Type}

/-- What a guest runs on its connection; nothing keeps it from ending the transaction. -/
inductive Statement (W : Type) where
  | write (write : W)
  | begin
  | commit
  | rollback

/-- A write that reaches the file, with the turn that made it, or an acknowledgement. -/
inductive Occurrence (W : Type) where
  | stored (origin : Nat) (write : W)
  | sent (ack : WorkerAck)

/-- The open transaction of a connection, if there is one, and what has left the worker. -/
structure Session (W : Type) where
  pending : Option (List (Nat × W))
  trace : List (Occurrence W)

/-- The database's answers to the two statements of `COMMIT; BEGIN`: an error of its own
    leaves the transaction as it was. -/
structure Answers where
  commit : Option String
  begin : Option String
deriving DecidableEq, Repr

namespace Session

def beginTransaction (session : Session W) : Except String (Session W) :=
  match session.pending with
  | some _ => .error "cannot start a transaction within a transaction"
  | none => .ok { session with pending := some [] }

def commitTransaction (session : Session W) : Except String (Session W) :=
  match session.pending with
  | none => .error "cannot commit - no transaction is active"
  | some writes => .ok {
      pending := none
      trace := session.trace ++ writes.map fun entry => .stored entry.1 entry.2 }

/-- Outside a transaction a write is stored at once. -/
def write (session : Session W) (origin : Nat) (write : W) : Session W :=
  match session.pending with
  | some writes => { session with pending := some (writes ++ [(origin, write)]) }
  | none => { session with trace := session.trace ++ [.stored origin write] }

/-- A statement that fails leaves the session as it was. -/
def execute (origin : Nat) (session : Session W) : Statement W → Session W
  | .write write => session.write origin write
  | .begin => session.beginTransaction.toOption.getD session
  | .commit => session.commitTransaction.toOption.getD session
  | .rollback => { session with pending := none }

def executeAll (origin : Nat) (session : Session W) (statements : List (Statement W)) :
    Session W :=
  statements.foldl (execute origin) session

/-- `execute_batch("COMMIT; BEGIN")` stops at the first failure. -/
def commitBegin (session : Session W) (answers : Answers) : Session W × Except String Unit :=
  match answers.commit with
  | some err => (session, .error err)
  | none =>
    match session.commitTransaction with
    | .error err => (session, .error err)
    | .ok session =>
      match answers.begin with
      | some err => (session, .error err)
      | none =>
        match session.beginTransaction with
        | .error err => (session, .error err)
        | .ok session => (session, .ok ())

def send (session : Session W) (ack : WorkerAck) : Session W :=
  { session with trace := session.trace ++ [.sent ack] }

end Session

structure ModuleWorkerActor (W : Type) where
  session : Session W
  currentPosition : Option Nat
  currentEventId : Option Uuid
  currentCorrelationId : Option Uuid

inductive Ending where
  | ok
  | failed (message : String)
  | panicked (message : String)
deriving DecidableEq, Repr

/-- One call of the guest: what it ran, how it ended, and the database's answers after. -/
structure Turn (W : Type) where
  statements : List (Statement W)
  ending : Ending
  answers : Answers

/-- A fresh connection; `refused` is a failure before the constructor is called. -/
def onStart (origin : Nat) (refused : Option String) (turn : Turn W) :
    Option (ModuleWorkerActor W) × List (Occurrence W) :=
  match refused with
  | some _ => (none, [])
  | none =>
    let session := Session.executeAll origin ⟨some [], []⟩ turn.statements
    match turn.ending with
    | .failed _ => (none, session.trace)
    | .panicked _ => (none, session.trace)
    | .ok =>
      match session.commitBegin turn.answers with
      | (session, .error _) => (none, session.trace)
      | (session, .ok ()) => (some ⟨⟨session.pending, []⟩, none, none, none⟩, session.trace)

namespace ModuleWorkerActor

def sendAck (actor : ModuleWorkerActor W) (ack : WorkerAck) : ModuleWorkerActor W :=
  { actor with session := actor.session.send ack }

def processEvent (actor : ModuleWorkerActor W) (origin : Nat) (message : ProcessEvent)
    (turn : Turn W) : ModuleWorkerActor W × Except String Unit :=
  let actor := { actor with
    currentPosition := some message.position
    currentEventId := some message.currentEventId
    currentCorrelationId := some message.correlationId
    session := actor.session.executeAll origin turn.statements }
  match turn.ending with
  | .panicked err => (actor, .error err)
  | .ok =>
    match actor.session.commitBegin turn.answers with
    -- `?` returns with the position still set
    | (session, .error err) => ({ actor with session := session }, .error err)
    | (session, .ok ()) =>
      ({ actor with
        session := session.send (.ok message.position)
        currentPosition := none }, .ok ())
  | .failed err =>
    ({ actor.sendAck (.error message.position err) with currentPosition := none }, .error err)

def onPanic (actor : ModuleWorkerActor W) (err : String) : ModuleWorkerActor W :=
  match actor.currentPosition with
  | some position => { actor.sendAck (.error position err) with currentPosition := none }
  | none => actor

end ModuleWorkerActor

inductive Entry (W : Type) where
  | start (turn : Turn W)
  | event (message : ProcessEvent) (turn : Turn W)

/-- The worker and its database file; the history has an entry for every start and event,
    numbered as they came, each with what it let out. -/
structure Worker (W : Type) where
  actor : Option (ModuleWorkerActor W)
  history : List (Entry W × List (Occurrence W))

inductive Action (W : Type) where
  | start (refused : Option String) (turn : Turn W)
  | process (message : ProcessEvent) (turn : Turn W)
  | stop

def initial : Worker W := ⟨none, []⟩

/-- After an error or a panic `on_panic` runs and the actor is dropped, its connection with
    it. -/
def handle (worker : Worker W) (actor : ModuleWorkerActor W) (message : ProcessEvent)
    (turn : Turn W) : Worker W :=
  match actor.processEvent worker.history.length message turn with
  | (actor, .ok ()) =>
    { actor := some { actor with session := ⟨actor.session.pending, []⟩ }
      history := worker.history ++ [(.event message turn, actor.session.trace)] }
  | (actor, .error err) =>
    { actor := none
      history := worker.history ++ [(.event message turn, (actor.onPanic err).session.trace)] }

def step (worker : Worker W) : Action W → Option (Worker W)
  | .start refused turn =>
    match worker.actor with
    | some _ => none
    | none =>
      let (actor, trace) := onStart worker.history.length refused turn
      some ⟨actor, worker.history ++ [(.start turn, trace)]⟩
  | .process message turn => worker.actor.map fun actor => handle worker actor message turn
  | .stop => some { worker with actor := none }

def acksIn (trace : List (Occurrence W)) : List WorkerAck :=
  trace.filterMap fun occurrence =>
    match occurrence with
    | .stored _ _ => none
    | .sent ack => some ack

def storedOf (origin : Nat) (trace : List (Occurrence W)) : List W :=
  trace.filterMap fun occurrence =>
    match occurrence with
    | .stored other write => if other = origin then some write else none
    | .sent _ => none

theorem acksIn_append (first second : List (Occurrence W)) :
    acksIn (first ++ second) = acksIn first ++ acksIn second := List.filterMap_append

theorem storedOf_append (origin : Nat) (first second : List (Occurrence W)) :
    storedOf origin (first ++ second) = storedOf origin first ++ storedOf origin second :=
  List.filterMap_append

@[simp] theorem acksIn_stored (writes : List (Nat × W)) :
    acksIn (writes.map fun entry => Occurrence.stored entry.1 entry.2) = [] := by
  simp [acksIn, List.filterMap_map]

theorem storedOf_own (origin : Nat) (writes : List W) :
    storedOf origin (writes.map fun write => Occurrence.stored origin write) = writes := by
  simp [storedOf, List.filterMap_map]

section statements
variable {session : Session W}

theorem commitTransaction_ok {committed : Session W} :
    session.commitTransaction = .ok committed ↔ ∃ writes, session.pending = some writes ∧
      committed = ⟨none, session.trace ++
        writes.map fun entry => .stored entry.1 entry.2⟩ := by
  unfold Session.commitTransaction
  cases session.pending with
  | none => simp
  | some writes => simp [eq_comm]

theorem beginTransaction_ok {begun : Session W} :
    session.beginTransaction = .ok begun ↔
      session.pending = none ∧ begun = ⟨some [], session.trace⟩ := by
  unfold Session.beginTransaction
  cases session.pending with
  | none => simp [eq_comm]
  | some writes => simp

inductive CommitsBegins (session : Session W) (answers : Answers) :
    Session W → Except String Unit → Prop where
  | kept (err : String) : CommitsBegins session answers session (.error err)
  | committed {writes : List (Nat × W)} (err : String) (answer : answers.commit = none)
      (inside : session.pending = some writes) :
      CommitsBegins session answers ⟨none, session.trace ++
        writes.map fun entry => .stored entry.1 entry.2⟩ (.error err)
  | done {writes : List (Nat × W)} (answer : answers.commit = none)
      (inside : session.pending = some writes) :
      CommitsBegins session answers ⟨some [], session.trace ++
        writes.map fun entry => .stored entry.1 entry.2⟩ (.ok ())

theorem commitBegin_cases {answers : Answers} {next : Session W} {result : Except String Unit}
    (answered : session.commitBegin answers = (next, result)) :
    CommitsBegins session answers next result := by
  unfold Session.commitBegin at answered
  cases answer : answers.commit with
  | some err =>
    simp only [answer, Prod.mk.injEq] at answered
    obtain ⟨rfl, rfl⟩ := answered
    exact CommitsBegins.kept err
  | none =>
    cases stored : session.commitTransaction with
    | error err =>
      simp only [answer, stored, Prod.mk.injEq] at answered
      obtain ⟨rfl, rfl⟩ := answered
      exact CommitsBegins.kept err
    | ok committed =>
      obtain ⟨writes, inside, rfl⟩ := commitTransaction_ok.mp stored
      cases refused : answers.begin with
      | some err =>
        simp only [answer, stored, refused, Prod.mk.injEq] at answered
        obtain ⟨rfl, rfl⟩ := answered
        exact CommitsBegins.committed err answer inside
      | none =>
        simp only [answer, stored, refused, Session.beginTransaction, Prod.mk.injEq] at answered
        obtain ⟨rfl, rfl⟩ := answered
        exact CommitsBegins.done answer inside

end statements

section acknowledgements

theorem acksIn_execute (origin : Nat) (session : Session W) (statement : Statement W) :
    acksIn (session.execute origin statement).trace = acksIn session.trace := by
  cases statement with
  | write write =>
    unfold Session.execute Session.write
    cases session.pending with
    | none => simp [acksIn]
    | some writes => rfl
  | begin =>
    unfold Session.execute Session.beginTransaction
    cases session.pending <;> rfl
  | commit =>
    unfold Session.execute Session.commitTransaction
    cases session.pending with
    | none => rfl
    | some writes => simp [Except.toOption, acksIn_append]
  | rollback => rfl

theorem acksIn_executeAll (origin : Nat) (session : Session W)
    (statements : List (Statement W)) :
    acksIn (session.executeAll origin statements).trace = acksIn session.trace := by
  unfold Session.executeAll
  induction statements generalizing session with
  | nil => rfl
  | cons statement rest ih => rw [List.foldl_cons, ih, acksIn_execute]

theorem acksIn_commitBegin {session next : Session W} {answers : Answers}
    {result : Except String Unit} (answered : session.commitBegin answers = (next, result)) :
    acksIn next.trace = acksIn session.trace := by
  cases commitBegin_cases answered with
  | kept err => rfl
  | committed err answer inside => simp [acksIn_append]
  | done answer inside => simp [acksIn_append]

theorem acksIn_send (session : Session W) (ack : WorkerAck) :
    acksIn (session.send ack).trace = acksIn session.trace ++ [ack] := acksIn_append _ _

/-- Where a turn stands when its one ack goes out, and which ack that is: the session after
    the guest's statements `ran`, or after `COMMIT; BEGIN`. -/
inductive Ended (ran : Session W) (turn : Turn W) (position : Nat) :
    Session W → WorkerAck → Prop where
  | panicked {err : String} (ending : turn.ending = .panicked err) :
      Ended ran turn position ran (.error position err)
  | failed {err : String} (ending : turn.ending = .failed err) :
      Ended ran turn position ran (.error position err)
  | refused {session : Session W} {err : String} (ending : turn.ending = .ok)
      (answered : ran.commitBegin turn.answers = (session, .error err)) :
      Ended ran turn position session (.error position err)
  | done {session : Session W} (ending : turn.ending = .ok)
      (answered : ran.commitBegin turn.answers = (session, .ok ())) :
      Ended ran turn position session (.ok position)

/-- What handling one event comes to: the record of its turn ends with its ack, and an
    actor that is left is between two events. -/
theorem handle_ended (worker : Worker W) (actor : ModuleWorkerActor W) (message : ProcessEvent)
    (turn : Turn W) :
    ∃ session ack,
      Ended (actor.session.executeAll worker.history.length turn.statements) turn
        message.position session ack ∧
      (handle worker actor message turn).history =
        worker.history ++ [(.event message turn, (session.send ack).trace)] ∧
      ∀ next, (handle worker actor message turn).actor = some next →
        ack = .ok message.position ∧ next.session = ⟨session.pending, []⟩ ∧
          next.currentPosition = none := by
  cases ending : turn.ending with
  | panicked err =>
    refine ⟨_, _, Ended.panicked ending, ?_⟩
    simp [handle, ModuleWorkerActor.processEvent, ending, ModuleWorkerActor.onPanic,
      ModuleWorkerActor.sendAck]
  | failed err =>
    refine ⟨_, _, Ended.failed ending, ?_⟩
    simp [handle, ModuleWorkerActor.processEvent, ending, ModuleWorkerActor.onPanic,
      ModuleWorkerActor.sendAck]
  | ok =>
    cases answered : (actor.session.executeAll worker.history.length turn.statements).commitBegin
      turn.answers with
    | mk session result =>
      cases result with
      | error err =>
        refine ⟨_, _, Ended.refused ending answered, ?_⟩
        simp [handle, ModuleWorkerActor.processEvent, ending, answered,
          ModuleWorkerActor.onPanic, ModuleWorkerActor.sendAck]
      | ok _ =>
        refine ⟨_, _, Ended.done ending answered, ?_⟩
        simp [handle, ModuleWorkerActor.processEvent, ending, answered, Session.send]

theorem ended_acks {ran session : Session W} {turn : Turn W} {position : Nat} {ack : WorkerAck}
    (ended : Ended ran turn position session ack) :
    ack.position = position ∧ acksIn session.trace = acksIn ran.trace := by
  cases ended with
  | panicked ending => exact ⟨rfl, rfl⟩
  | failed ending => exact ⟨rfl, rfl⟩
  | refused ending answered => exact ⟨rfl, acksIn_commitBegin answered⟩
  | done ending answered => exact ⟨rfl, acksIn_commitBegin answered⟩

end acknowledgements

section origins

structure Own (origin : Nat) (session : Session W) : Prop where
  pending : ∀ writes, session.pending = some writes → ∀ entry ∈ writes, entry.1 = origin
  trace : ∀ other, other ≠ origin → storedOf other session.trace = []

theorem own_fresh (origin : Nat) : Own origin (⟨some [], []⟩ : Session W) where
  pending := by
    intro writes inside entry member
    obtain rfl := Option.some.inj inside
    exact absurd member List.not_mem_nil
  trace := fun _ _ => rfl

theorem own_stored {origin : Nat} {session : Session W} (own : Own origin session)
    {writes : List (Nat × W)} (inside : session.pending = some writes) {other : Nat}
    (different : other ≠ origin) : storedOf other (session.trace ++
      writes.map fun entry => Occurrence.stored entry.1 entry.2) = [] := by
  have none : storedOf other
      (writes.map fun entry => Occurrence.stored entry.1 entry.2) = [] := by
    simp only [storedOf, List.filterMap_map, List.filterMap_eq_nil_iff]
    intro entry member
    have mine := own.pending writes inside entry member
    simp [mine, Ne.symm different]
  rw [storedOf_append, own.trace other different, none, List.append_nil]

theorem own_execute {origin : Nat} {session : Session W} (own : Own origin session)
    (statement : Statement W) : Own origin (session.execute origin statement) := by
  cases statement with
  | write write =>
    cases inside : session.pending with
    | none =>
      simp only [Session.execute, Session.write, inside]
      constructor
      · exact fun writes none => nomatch none
      · intro other different
        rw [storedOf_append, own.trace other different]
        simp [storedOf, Ne.symm different]
    | some writes =>
      simp only [Session.execute, Session.write, inside]
      constructor
      · intro all same entry member
        obtain rfl := Option.some.inj same
        rcases List.mem_append.mp member with old | new
        · exact own.pending writes inside entry old
        · rw [List.mem_singleton.mp new]
      · exact own.trace
  | begin =>
    unfold Session.execute
    cases started : session.beginTransaction with
    | error err => exact own
    | ok begun =>
      obtain ⟨_, rfl⟩ := beginTransaction_ok.mp started
      exact ⟨(own_fresh origin).pending, own.trace⟩
  | commit =>
    unfold Session.execute
    cases stored : session.commitTransaction with
    | error err => exact own
    | ok committed =>
      obtain ⟨writes, inside, rfl⟩ := commitTransaction_ok.mp stored
      constructor
      · exact fun writes none => nomatch none
      · exact fun other => own_stored own inside
  | rollback =>
    constructor
    · exact fun writes none => nomatch none
    · exact own.trace

theorem own_executeAll {origin : Nat} {session : Session W} (own : Own origin session)
    (statements : List (Statement W)) : Own origin (session.executeAll origin statements) := by
  unfold Session.executeAll
  induction statements generalizing session with
  | nil => exact own
  | cons statement rest ih => exact ih (own_execute own statement)

theorem own_commitBegin {origin : Nat} {session next : Session W} {answers : Answers}
    {result : Except String Unit} (own : Own origin session)
    (answered : session.commitBegin answers = (next, result)) :
    (∀ other, other ≠ origin → storedOf other next.trace = []) ∧
      (result = .ok () → next.pending = some []) := by
  cases commitBegin_cases answered with
  | kept err => exact ⟨own.trace, nofun⟩
  | committed err answer inside => exact ⟨fun other => own_stored own inside, nofun⟩
  | done answer inside => exact ⟨fun other => own_stored own inside, fun _ => rfl⟩

theorem own_ended {origin position : Nat} {ran session : Session W} {turn : Turn W}
    {ack : WorkerAck} (own : Own origin ran) (ended : Ended ran turn position session ack) :
    (∀ other, other ≠ origin → storedOf other session.trace = []) ∧
      (ack = .ok position → session.pending = some []) := by
  cases ended with
  | panicked ending => exact ⟨own.trace, nofun⟩
  | failed ending => exact ⟨own.trace, nofun⟩
  | refused ending answered => exact ⟨(own_commitBegin own answered).1, nofun⟩
  | done ending answered =>
    obtain ⟨mine, fresh⟩ := own_commitBegin own answered
    exact ⟨mine, fun _ => fresh rfl⟩

end origins

section turns

def Statement.written : Statement W → Option W
  | .write made => some made
  | .begin => none
  | .commit => none
  | .rollback => none

def Turn.writes (turn : Turn W) : List W := turn.statements.filterMap Statement.written

/-- The guest does not end the transaction it is called in. -/
def Turn.KeepsTransaction (turn : Turn W) : Prop :=
  ∀ statement ∈ turn.statements, statement ≠ .commit ∧ statement ≠ .rollback

/-- The handler or the `COMMIT` after it failed. -/
def Turn.Fails (turn : Turn W) : Prop := turn.ending ≠ .ok ∨ turn.answers.commit ≠ none

def Turn.outcome (turn : Turn W) : HandlerOutcome :=
  match turn.ending with
  | .failed err => .failed err
  | .panicked err => .blewUp false err
  | .ok =>
    match turn.answers.commit with
    | some err => .blewUp false err
    | none =>
      match turn.answers.begin with
      | some err => .blewUp true err
      | none => .ok

theorem fails_iff {turn : Turn W} : turn.Fails ↔ turn.outcome.committed = false := by
  unfold Turn.Fails Turn.outcome
  cases turn.ending with
  | failed err => simp [HandlerOutcome.committed]
  | panicked err => simp [HandlerOutcome.committed]
  | ok =>
    cases turn.answers.commit with
    | some err => simp [HandlerOutcome.committed]
    | none =>
      cases turn.answers.begin with
      | some err => simp [HandlerOutcome.committed]
      | none => simp [HandlerOutcome.committed]

theorem executeAll_open {statements : List (Statement W)} (origin : Nat)
    (keeps : ∀ statement ∈ statements, statement ≠ .commit ∧ statement ≠ .rollback)
    (before : List (Nat × W)) (trace : List (Occurrence W)) :
    Session.executeAll origin ⟨some before, trace⟩ statements =
      ⟨some (before ++ (statements.filterMap Statement.written).map fun write =>
        (origin, write)), trace⟩ := by
  unfold Session.executeAll
  induction statements generalizing before with
  | nil => simp
  | cons statement rest ih =>
    have others := fun other member => keeps other (List.mem_cons_of_mem statement member)
    rw [List.foldl_cons]
    cases statement with
    | write write =>
      have later := ih others (before ++ [(origin, write)])
      rw [List.append_assoc] at later
      exact later
    | begin => exact ih others before
    | commit => exact absurd rfl (keeps .commit List.mem_cons_self).1
    | rollback => exact absurd rfl (keeps .rollback List.mem_cons_self).2

theorem ended_trace {origin position : Nat} {turn : Turn W} {session : Session W}
    {ack : WorkerAck} (keeps : turn.KeepsTransaction)
    (ended : Ended (Session.executeAll origin ⟨some [], []⟩ turn.statements) turn position
      session ack) :
    (session.send ack).trace =
      (if turn.outcome.committed then turn.writes else []).map (Occurrence.stored origin) ++
        [.sent (turn.outcome.ack position)] := by
  rw [executeAll_open origin keeps [] [], List.nil_append] at ended
  cases ended with
  | panicked ending => simp [Session.send, Turn.outcome, ending, HandlerOutcome.committed,
      HandlerOutcome.ack]
  | failed ending => simp [Session.send, Turn.outcome, ending, HandlerOutcome.committed,
      HandlerOutcome.ack]
  | refused ending answered =>
    unfold Session.commitBegin at answered
    cases commit : turn.answers.commit with
    | some err =>
      simp only [commit, Prod.mk.injEq, Except.error.injEq] at answered
      obtain ⟨rfl, rfl⟩ := answered
      simp [Session.send, Turn.outcome, ending, commit, HandlerOutcome.committed,
        HandlerOutcome.ack]
    | none =>
      cases begin : turn.answers.begin with
      | some err =>
        simp only [commit, begin, Session.commitTransaction, Prod.mk.injEq,
          Except.error.injEq] at answered
        obtain ⟨rfl, rfl⟩ := answered
        simp [Session.send, Turn.outcome, ending, commit, begin, HandlerOutcome.committed,
          HandlerOutcome.ack, Turn.writes]
      | none =>
        simp [commit, begin, Session.commitTransaction, Session.beginTransaction] at answered
  | done ending answered =>
    unfold Session.commitBegin at answered
    cases commit : turn.answers.commit with
    | some err => simp [commit] at answered
    | none =>
      cases begin : turn.answers.begin with
      | some err => simp [commit, begin, Session.commitTransaction] at answered
      | none =>
        simp only [commit, begin, Session.commitTransaction, Session.beginTransaction,
          Prod.mk.injEq, and_true] at answered
        subst answered
        simp [Session.send, Turn.outcome, ending, commit, begin, HandlerOutcome.committed,
          HandlerOutcome.ack, Turn.writes]

end turns

section runs

/-- One ack for every event that a worker started on, for that event; none for a start. -/
structure Acknowledged (worker : Worker W) : Prop where
  event : ∀ (n : Nat) message turn trace,
    worker.history[n]? = some (Entry.event message turn, trace) →
    ∃ ack, acksIn trace = [ack] ∧ ack.position = message.position
  start : ∀ (n : Nat) turn trace,
    worker.history[n]? = some (Entry.start turn, trace) → acksIn trace = []

/-- The writes of an event whose guest does not end its transaction: all of them are in the
    file when an ack for it is positive, and none is ever stored, in whichever turn, when
    the handler or its `COMMIT` failed. -/
structure NoPartialWrites (worker : Worker W) : Prop where
  committed : ∀ (n : Nat) message turn trace,
    worker.history[n]? = some (Entry.event message turn, trace) → turn.KeepsTransaction →
    ∀ before after position, trace = before ++ .sent (.ok position) :: after →
      storedOf n before = turn.writes
  dropped : ∀ (n : Nat) message turn trace,
    worker.history[n]? = some (Entry.event message turn, trace) → turn.KeepsTransaction →
    turn.Fails → ∀ record ∈ worker.history, storedOf n record.2 = []

/-- Between two messages a worker that runs has an empty transaction open, and every record
    is that of a turn that started so. -/
structure Kept (worker : Worker W) : Prop where
  clean : ∀ actor, worker.actor = some actor → actor.session = ⟨some [], []⟩
  own : ∀ (n : Nat) entry trace, worker.history[n]? = some (entry, trace) →
    ∀ other, other ≠ n → storedOf other trace = []
  event : ∀ (n : Nat) message turn trace,
    worker.history[n]? = some (Entry.event message turn, trace) →
    ∃ session ack, Ended (Session.executeAll n ⟨some [], []⟩ turn.statements) turn
      message.position session ack ∧ trace = (session.send ack).trace
  start : ∀ (n : Nat) turn trace,
    worker.history[n]? = some (Entry.start turn, trace) → acksIn trace = []

theorem initial_kept : Kept (initial : Worker W) := by
  have empty (n : Nat) : (initial : Worker W).history[n]? = none := List.getElem?_nil
  constructor
  · exact fun actor running => nomatch running
  · intro n entry trace found
    rw [empty n] at found
    exact nomatch found
  · intro n message turn trace found
    rw [empty n] at found
    exact nomatch found
  · intro n turn trace found
    rw [empty n] at found
    exact nomatch found

theorem stop_kept {worker : Worker W} (kept : Kept worker) :
    Kept { worker with actor := none } where
  clean := nofun
  own := kept.own
  event := kept.event
  start := kept.start

theorem onStart_cases (origin : Nat) (refused : Option String) (turn : Turn W) :
    (∀ actor, (onStart origin refused turn).1 = some actor → actor.session = ⟨some [], []⟩) ∧
      (∀ other, other ≠ origin → storedOf other (onStart origin refused turn).2 = []) ∧
      acksIn (onStart origin refused turn).2 = [] := by
  have own := own_executeAll (own_fresh origin) turn.statements
  have silent := acksIn_executeAll origin (⟨some [], []⟩ : Session W) turn.statements
  cases refused with
  | some err => exact ⟨nofun, fun _ _ => rfl, rfl⟩
  | none =>
    cases ending : turn.ending with
    | failed err =>
      simp only [onStart, ending]
      exact ⟨nofun, own.trace, silent⟩
    | panicked err =>
      simp only [onStart, ending]
      exact ⟨nofun, own.trace, silent⟩
    | ok =>
      cases answered : (Session.executeAll origin ⟨some [], []⟩ turn.statements).commitBegin
        turn.answers with
      | mk session result =>
        obtain ⟨mine, fresh⟩ := own_commitBegin own answered
        have quiet := (acksIn_commitBegin answered).trans silent
        cases result with
        | error err =>
          simp only [onStart, ending, answered]
          exact ⟨nofun, mine, quiet⟩
        | ok done =>
          simp only [onStart, ending, answered]
          refine ⟨?_, mine, quiet⟩
          intro actor started
          rw [← Option.some.inj started, fresh rfl]

theorem start_kept {worker : Worker W} (kept : Kept worker) (refused : Option String)
    (turn : Turn W) :
    Kept ⟨(onStart worker.history.length refused turn).1, worker.history ++
      [(.start turn, (onStart worker.history.length refused turn).2)]⟩ := by
  obtain ⟨fresh, mine, silent⟩ := onStart_cases worker.history.length refused turn
  constructor
  · exact fresh
  · intro n entry trace found
    rcases entry_snoc.mp found with old | ⟨rfl, new⟩
    · exact kept.own n entry trace old
    · obtain ⟨_, rfl⟩ := Prod.mk.inj new
      exact mine
  · intro n message turn trace found
    rcases entry_snoc.mp found with old | ⟨rfl, new⟩
    · exact kept.event n message turn trace old
    · exact nomatch (Prod.mk.inj new).1
  · intro n turn trace found
    rcases entry_snoc.mp found with old | ⟨rfl, new⟩
    · exact kept.start n turn trace old
    · obtain ⟨_, rfl⟩ := Prod.mk.inj new
      exact silent

theorem handle_kept {worker : Worker W} (kept : Kept worker) {actor : ModuleWorkerActor W}
    (live : worker.actor = some actor) (message : ProcessEvent) (turn : Turn W) :
    Kept (handle worker actor message turn) := by
  obtain ⟨session, ack, ended, history, left⟩ := handle_ended worker actor message turn
  rw [kept.clean actor live] at ended
  have own := own_executeAll (own_fresh worker.history.length) turn.statements
  obtain ⟨mine, fresh⟩ := own_ended own ended
  constructor
  · intro next running
    obtain ⟨positive, same, _⟩ := left next running
    rw [same, fresh positive]
  · rw [history]
    intro n entry trace found other different
    rcases entry_snoc.mp found with old | ⟨rfl, new⟩
    · exact kept.own n entry trace old other different
    · obtain ⟨_, rfl⟩ := Prod.mk.inj new
      rw [Session.send, storedOf_append, mine other different]
      rfl
  · rw [history]
    intro n message' turn' trace found
    rcases entry_snoc.mp found with old | ⟨rfl, new⟩
    · exact kept.event n message' turn' trace old
    · obtain ⟨same, rfl⟩ := Prod.mk.inj new
      obtain ⟨rfl, rfl⟩ := Entry.event.inj same
      exact ⟨session, ack, ended, rfl⟩
  · rw [history]
    intro n turn' trace found
    rcases entry_snoc.mp found with old | ⟨rfl, new⟩
    · exact kept.start n turn' trace old
    · exact nomatch (Prod.mk.inj new).1

theorem step_kept {worker next : Worker W} {action : Action W} (kept : Kept worker)
    (taken : step worker action = some next) : Kept next := by
  cases action with
  | start refused turn =>
    cases live : worker.actor with
    | some actor => simp [step, live] at taken
    | none =>
      simp only [step, live, Option.some.injEq] at taken
      subst taken
      exact start_kept kept refused turn
  | process message turn =>
    obtain ⟨actor, live, rfl⟩ := Option.map_eq_some_iff.mp taken
    exact handle_kept kept live message turn
  | stop =>
    obtain rfl := Option.some.inj taken
    exact stop_kept kept

theorem kept_acknowledged {worker : Worker W} (kept : Kept worker) : Acknowledged worker := by
  constructor
  · intro n message turn trace found
    obtain ⟨session, ack, ended, rfl⟩ := kept.event n message turn trace found
    obtain ⟨position, silent⟩ := ended_acks ended
    refine ⟨ack, ?_, position⟩
    rw [acksIn_send, silent, acksIn_executeAll]
    rfl
  · exact kept.start

theorem before_ack {origin : Nat} {writes : List W} {ack other : WorkerAck}
    {before after : List (Occurrence W)}
    (same : writes.map (Occurrence.stored origin) ++ [.sent ack] =
      before ++ .sent other :: after) :
    before = writes.map (Occurrence.stored origin) ∧ ack = other := by
  induction writes generalizing before with
  | nil =>
    cases before with
    | nil =>
      obtain ⟨here, _⟩ := List.cons.inj same
      exact ⟨rfl, Occurrence.sent.inj here⟩
    | cons first rest => simp at same
  | cons write rest ih =>
    cases before with
    | nil => simp at same
    | cons first more =>
      rw [List.map_cons, List.cons_append, List.cons_append] at same
      obtain ⟨rfl, later⟩ := List.cons.inj same
      obtain ⟨tail, acks⟩ := ih later
      exact ⟨by rw [tail, List.map_cons], acks⟩

theorem committed_of_positive {outcome : HandlerOutcome} {position acked : Nat}
    (positive : outcome.ack position = .ok acked) : outcome.committed = true := by
  cases outcome with
  | ok => rfl
  | failed err => exact nomatch positive
  | blewUp committed err => exact nomatch positive

theorem kept_no_partial {worker : Worker W} (kept : Kept worker) : NoPartialWrites worker := by
  constructor
  · intro n message turn trace found keeps before after position split
    obtain ⟨session, ack, ended, rfl⟩ := kept.event n message turn trace found
    rw [ended_trace keeps ended] at split
    obtain ⟨rfl, positive⟩ := before_ack split
    rw [storedOf_own, if_pos (committed_of_positive positive)]
  · intro n message turn trace found keeps fails record member
    obtain ⟨m, within⟩ := List.getElem?_of_mem member
    by_cases same : n = m
    · subst same
      obtain ⟨session, ack, ended, rfl⟩ := kept.event n message turn trace found
      obtain rfl := Option.some.inj (found.symm.trans within)
      rw [ended_trace keeps ended, storedOf_append, storedOf_own, fails_iff.mp fails]
      rfl
    · exact kept.own m record.1 record.2 within n same

/-- Over every run of a worker and its restarts. -/
theorem one_ack_no_partial_writes (actions : List (Action W)) (worker : Worker W)
    (ran : exec step initial actions = some worker) :
    Acknowledged worker ∧ NoPartialWrites worker := by
  have kept : Kept worker := invariant step_kept initial_kept ran
  exact ⟨kept_acknowledged kept, kept_no_partial kept⟩

end runs

section sample

def emailEvent (position : Nat) : ProcessEvent where
  currentEventId := BitVec.ofNat 128 position
  correlationId := 0
  event := ⟨"", position, "user.registered", [], 0, "", "", none, none, none, none, "null"⟩
  position := position

def accepting : Answers := ⟨none, none⟩

/-- The second handler fails after its write, the worker is restarted, and the database
    refuses the `BEGIN` after the third event. -/
def failingRun : List (Action String) :=
  [.start none ⟨[], .ok, accepting⟩,
    .process (emailEvent 1) ⟨[.write "first"], .ok, accepting⟩,
    .process (emailEvent 2) ⟨[.write "second"], .failed "mail server gone", accepting⟩,
    .start none ⟨[.write "table"], .ok, accepting⟩,
    .process (emailEvent 3) ⟨[.write "third"], .ok, ⟨none, some "disk I/O error"⟩⟩]

theorem failing_run_acknowledged : ∃ worker, exec step initial failingRun = some worker ∧
    worker.history.flatMap (fun record => acksIn record.2) =
      [.ok 1, .error 2 "mail server gone", .error 3 "disk I/O error"] ∧
    Acknowledged worker ∧ NoPartialWrites worker :=
  ⟨_, rfl, rfl, one_ack_no_partial_writes failingRun _ rfl⟩

def committingRun : List (Action String) :=
  [.start none ⟨[], .ok, accepting⟩,
    .process (emailEvent 1) ⟨[.write "first", .commit], .failed "mail server gone", accepting⟩]

theorem own_commit_outlives_failure : ¬ ∀ (actions : List (Action String)) worker,
    exec step initial actions = some worker → ∀ (n : Nat) message turn trace,
      worker.history[n]? = some (Entry.event message turn, trace) → turn.Fails →
      ∀ record ∈ worker.history, storedOf n record.2 = [] := by
  intro none
  have empty := none committingRun _ rfl 1 _ _ _ rfl (Or.inl nofun) _
    (List.mem_cons_of_mem _ List.mem_cons_self)
  exact absurd empty (List.cons_ne_nil "first" [])

end sample
end UmariWorkerAcks
