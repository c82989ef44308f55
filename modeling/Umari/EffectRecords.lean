import Umari.AtLeastOnce
import Umari.RecordedTurns

/-!
An effect that records what it did through a command whose idempotency key is the identifier
of the event. The runs are those of the pooled actor together with its workers' turns: a turn
is handed an event, after a crash or a reset the event is handed out again, and a turn of an
earlier incarnation may still run. A turn runs the command on the store, between the appends
of all the others, and ends well only where the command returned.
-/
namespace UmariEffectRecords
open PositionedLogs GuardedRuns UmariEventStore UmariStoredEvents UmariModuleActor
open UmariStateDatabases UmariTransactions UmariDcbQueries UmariFolds UmariIdempotency
open UmariRecordedTurns
open UmariPooledDispatch (Config Dispatcher ProcessEvent HandlerOutcome WorkerId Tidy TidyActor
  prepareEvent prepareEvent_position applyAck skipEvent startActor workStep tidy_step moved_of_step
  tidy_initial)
open UmariAtLeastOnce (AtLeastOnce Settled skipsLast skipsShredded)
variable {V I : Type}

/-- How the handler of an effect calls the command for an event it is handed. The query of
    the command does not depend on what the key store answered when the event was read. -/
structure Effect [DecidableEq V] (cfg : Config V) (rules : NameRules) (I : Type) where
  command : ProcessEvent → Command V I
  scope : Nat × Event → Query
  keyed : ∀ message, (command message).idempotencyKey = some message.currentEventId
  built : ∀ entry answer partition key message,
    prepareEvent cfg.codec entry answer partition = .ok (some (key, message)) →
      (command message).query rules = .ok (scope entry)
  selects : ∀ entry, queryIsEmpty (scope entry) = false

structure Turns (V : Type) where
  transactions : Transactions
  executions : List (Execution V)

/-- `sent` is every message a worker was ever handed, `turns` what the turns of the event at
    a position have opened and run. -/
structure System (V : Type) where
  actor : UmariPooledDispatch.System
  sent : List ProcessEvent
  turns : Nat → Turns V

inductive Action (V : Type) where
  | actor (a : UmariPooledDispatch.Action)
  | turn (message : ProcessEvent) (a : UmariIdempotency.Action V)

def initial (log : List Event) : System V where
  actor := UmariPooledDispatch.initial log
  sent := []
  turns := fun _ => ⟨[], []⟩

def System.store (s : System V) (position : Nat) : UmariIdempotency.System V where
  log := s.actor.log
  transactions := (s.turns position).transactions
  executions := (s.turns position).executions

/-- `handle` panics where the command did not return. -/
def returned (s : System V) (position : Nat) : Bool :=
  (s.turns position).executions.any fun ex => ex.ended.any Except.isOk

def answers (s : System V) : UmariPooledDispatch.Action → Bool
  | .work worker outcome =>
    !outcome.committed || (s.actor.mailboxes worker).head?.all fun m => returned s m.position
  | .workOrphan index outcome =>
    !outcome.committed || s.actor.orphans[index]?.all fun m => returned s m.position
  | _ => true

def ofTurn : UmariIdempotency.Action V → Bool
  | .append _ => false
  | .start _ _ => true
  | .finish _ _ _ _ _ _ _ => true

section step
variable [DecidableEq V] {cfg : Config V} {rules : NameRules} (newV5 : List UInt8 → Uuid)
  (effect : Effect cfg rules I)

def sentBy (cfg : Config V) (s : UmariPooledDispatch.System) :
    UmariPooledDispatch.Action → List ProcessEvent
  | .dispatch answer partition _ =>
    match s.actor.bind fun d => d.batch.head? with
    | none => []
    | some entry =>
      match prepareEvent cfg.codec entry answer partition with
      | .ok (some (_, message)) => [message]
      | _ => []
  | _ => []

def actorStep (cfg : Config V) (s : System V) (a : UmariPooledDispatch.Action)
    (next : UmariPooledDispatch.System) : System V where
  actor := next
  sent := s.sent ++ sentBy cfg s.actor a
  turns := s.turns

def turnStep (s : System V) (position : Nat) (store : UmariIdempotency.System V) : System V where
  actor := { s.actor with log := store.log }
  sent := s.sent
  turns := Function.update s.turns position ⟨store.transactions, store.executions⟩

def step (s : System V) : Action V → Option (System V)
  | .actor a =>
    if answers s a then
      (UmariPooledDispatch.step cfg s.actor a).map (actorStep cfg s a)
    else none
  | .turn message a =>
    if message ∈ s.sent ∧ ofTurn a then
      (UmariIdempotency.step cfg.codec rules newV5 (effect.command message)
        (s.store message.position) a).map (turnStep s message.position)
    else none

end step

/-- Whatever a decision of the effect's command emits, an event its query selects is among it. -/
def Records [DecidableEq V] {cfg : Config V} {rules : NameRules} (effect : Effect cfg rules I) :
    Action V → Prop
  | .actor _ => True
  | .turn message a => ∀ query, (effect.command message).query rules = .ok query →
      RecordsMatching query a

structure Stands (cfg : Config V) (log : List Event) (p : Nat) (e : Event)
    (event : StoredEvent V) : Prop where
  logged : (p, e) ∈ entries log
  reads : deserializeEvent cfg.codec (p, e) = .ok event

structure Inv [DecidableEq V] {cfg : Config V} {rules : NameRules} (effect : Effect cfg rules I)
    (s : System V) : Prop where
  tidy : Tidy cfg s.actor
  sent : ∀ m ∈ s.sent, ∃ e answer partition key, (m.position, e) ∈ entries s.actor.log ∧
    prepareEvent cfg.codec (m.position, e) answer partition = .ok (some (key, m))
  handed : ∀ p, s.turns p = ⟨[], []⟩ ∨ ∃ e event, Stands cfg s.actor.log p e event
  recording : ∀ p e event, Stands cfg s.actor.log p e event →
    Recording cfg.codec event.id (effect.scope (p, e)) (s.store p)
  committed : ∀ p ∈ s.actor.committed, ∃ e event, Stands cfg s.actor.log p e event ∧
    Marked cfg.codec event.id (effect.scope (p, e)) s.actor.log

section actor
variable {cfg : Config V} {s t : UmariPooledDispatch.System}

theorem applyAck_keeps (s : UmariPooledDispatch.System) (d : Dispatcher) (position : Nat)
    (commits : Bool) :
    (applyAck s d position commits).log = s.log ∧
      (applyAck s d position commits).committed = s.committed := by
  unfold applyAck
  cases handleAck d.progress s.row position with
  | error err => exact ⟨rfl, rfl⟩
  | ok result =>
    dsimp only
    split
    · exact ⟨rfl, rfl⟩
    · exact ⟨rfl, rfl⟩

variable [DecidableEq V]

theorem actor_grows {a : UmariPooledDispatch.Action}
    (taken : UmariPooledDispatch.step cfg s a = some t) : ∃ more, t.log = s.log ++ more := by
  have same : ∀ {log : List Event}, log = s.log → ∃ more, log = s.log ++ more :=
    fun equal => ⟨[], equal.trans (List.append_nil s.log).symm⟩
  cases moved_of_step taken with
  | appended events => exact ⟨events, rfl⟩
  | started version idle => exact same rfl
  | batched d upto live done forward inside => exact same rfl
  | skipped d entry rest commits live next shredded => exact same (applyAck_keeps _ _ _ _).1
  | sent d entry rest key message live next plain position => exact same rfl
  | worked worker message rest outcome mailbox => exact same rfl
  | restarted worker d live => exact same rfl
  | workedOrphan index message outcome => exact same rfl
  | acked d index position commits live between found => exact same (applyAck_keeps _ _ _ _).1
  | crashed => exact same rfl

theorem committed_by {a : UmariPooledDispatch.Action}
    (taken : UmariPooledDispatch.step cfg s a = some t) {p : Nat} (member : p ∈ t.committed) :
    p ∈ s.committed ∨ ∃ m : ProcessEvent, m.position = p ∧
      ((∃ worker outcome, a = .work worker outcome ∧ outcome.committed = true ∧
        (s.mailboxes worker).head? = some m) ∨
      ∃ index outcome, a = .workOrphan index outcome ∧ outcome.committed = true ∧
        s.orphans[index]? = some m) := by
  cases a with
  | work worker outcome =>
    cases mailbox : s.mailboxes worker with
    | nil => simp [UmariPooledDispatch.step, mailbox] at taken
    | cons message rest =>
      simp only [UmariPooledDispatch.step, mailbox, Option.ite_none_right_eq_some,
        Option.some.injEq] at taken
      obtain ⟨_, rfl⟩ := taken
      rcases UmariPooledDispatch.committed_worked.mp member with ⟨done, rfl⟩ | old
      · exact Or.inr ⟨message, rfl, Or.inl ⟨worker, outcome, rfl, done, by simp [mailbox]⟩⟩
      · exact Or.inl old
  | workOrphan index outcome =>
    cases found : s.orphans[index]? with
    | none => simp [UmariPooledDispatch.step, found] at taken
    | some message =>
      simp only [UmariPooledDispatch.step, found, Option.some.injEq] at taken
      subst taken
      dsimp only at member
      split at member
      · rename_i done
        rcases List.mem_cons.mp member with rfl | old
        · exact Or.inr ⟨message, rfl, Or.inr ⟨index, outcome, rfl, done, found⟩⟩
        · exact Or.inl old
      · exact Or.inl member
  | append events =>
    cases taken
    exact Or.inl member
  | crash =>
    cases taken
    exact Or.inl member
  | start version =>
    left
    cases moved_of_step taken with
    | started _ idle =>
      simp only [startActor] at member
      split at member
      · exact absurd member List.not_mem_nil
      · exact member
    | crashed => exact member
  | nextBatch upto =>
    left
    cases moved_of_step taken with
    | batched => exact member
    | crashed => exact member
  | restart worker =>
    left
    cases moved_of_step taken with
    | restarted => exact member
    | crashed => exact member
  | dispatch answer partition commits =>
    left
    cases moved_of_step taken with
    | skipped d entry rest _ live next shredded =>
      rwa [skipEvent, (applyAck_keeps _ _ _ _).2] at member
    | sent => exact member
    | crashed => exact member
  | ack index commits =>
    left
    cases moved_of_step taken with
    | acked d _ position _ live between found => rwa [(applyAck_keeps _ _ _ _).2] at member
    | crashed => exact member

theorem sentBy_prepared (tidy : Tidy cfg s) {a : UmariPooledDispatch.Action} {m : ProcessEvent}
    (member : m ∈ sentBy cfg s a) : ∃ e answer partition key, (m.position, e) ∈ entries s.log ∧
      prepareEvent cfg.codec (m.position, e) answer partition = .ok (some (key, m)) := by
  cases a with
  | dispatch answer partition commits =>
    unfold sentBy at member
    cases head : s.actor.bind fun d => d.batch.head? with
    | none => simp [head] at member
    | some entry =>
      obtain ⟨d, live, first⟩ := Option.bind_eq_some_iff.mp head
      have waits : entry ∈ d.batch := List.mem_of_head? first
      simp only [head] at member
      cases prepared : prepareEvent cfg.codec entry answer partition with
      | error err => simp [prepared] at member
      | ok result =>
        cases result with
        | none => simp [prepared] at member
        | some pair =>
          obtain ⟨key, message⟩ := pair
          simp only [prepared, List.mem_singleton] at member
          subst member
          have same := prepareEvent_position prepared
          refine ⟨entry.2, answer, partition, key, ?_, ?_⟩
          · rw [same]
            exact ((tidy.actor d live).rest entry.1 entry.2 waits).1
          · rw [same]
            exact prepared
  | _ => exact absurd member (by simp [sentBy])

end actor

section system
variable [DecidableEq V] {cfg : Config V} {rules : NameRules} {newV5 : List UInt8 → Uuid}
  {effect : Effect cfg rules I} {s t : System V}

omit [DecidableEq V] in
theorem decryptStoredEvent_id (codec : Codec V) (answer : Except String (Option CryptoKey))
    (event : StoredEvent V) : (decryptStoredEvent codec answer event).id = event.id := by
  unfold decryptStoredEvent
  split
  · rfl
  · split
    · rfl
    · rfl

theorem prepared_id {codec : Codec V} {entry : Nat × Event}
    {answer : Except String (Option CryptoKey)} {partition : Except String PartitionKey}
    {key : PartitionKey} {m : ProcessEvent}
    (prepared : prepareEvent codec entry answer partition = .ok (some (key, m))) :
    ∃ event, deserializeEvent codec entry = .ok event ∧ m.currentEventId = event.id := by
  unfold prepareEvent at prepared
  cases decoded : deserializeEvent codec entry with
  | error err => simp [decoded] at prepared
  | ok event =>
    refine ⟨event, rfl, ?_⟩
    simp only [decoded] at prepared
    split at prepared
    · simp at prepared
    · cases partition with
      | error err => simp at prepared
      | ok given =>
        simp only [Except.ok.injEq, Option.some.injEq, Prod.mk.injEq] at prepared
        rw [← prepared.2]
        exact decryptStoredEvent_id codec answer event

omit [DecidableEq V] in
theorem Stands.grown {log : List Event} {p : Nat} {e : Event} {event : StoredEvent V}
    (stands : Stands cfg log p e event) (more : List Event) :
    Stands cfg (log ++ more) p e event where
  logged := mem_entries_append_left stands.logged
  reads := stands.reads

omit [DecidableEq V] in
theorem Stands.unique {log : List Event} {p : Nat} {e f : Event} {event other : StoredEvent V}
    (left : Stands cfg log p e event) (right : Stands cfg log p f other) :
    e = f ∧ event = other := by
  obtain rfl := ascending_unique (entries_ascending log) left.logged right.logged
  exact ⟨rfl, Except.ok.inj (left.reads.symm.trans right.reads)⟩

theorem recording_grown (inv : Inv effect s) (more : List Event) {p : Nat} {e : Event}
    {event : StoredEvent V} (stands : Stands cfg (s.actor.log ++ more) p e event) :
    Recording cfg.codec event.id (effect.scope (p, e))
      { s.store p with log := s.actor.log ++ more } := by
  by_cases old : p ≤ s.actor.log.length
  · have before : Stands cfg s.actor.log p e event :=
      ⟨mem_entries_of_le stands.logged old, stands.reads⟩
    exact recording_append (inv.recording p e event before) more
  · rcases inv.handed p with none | ⟨f, other, there⟩
    · have empty : ({ s.store p with log := s.actor.log ++ more } : UmariIdempotency.System V) =
          ⟨s.actor.log ++ more, [], []⟩ := by simp [System.store, none]
      rw [empty]
      exact recording_empty _
    · exact absurd (entries_bounds there.logged).2 old

theorem returned_marked (inv : Inv effect s) {p : Nat} (returns : returned s p = true) :
    ∃ e event, Stands cfg s.actor.log p e event ∧
      Marked cfg.codec event.id (effect.scope (p, e)) s.actor.log := by
  obtain ⟨ex, member, ended⟩ := List.any_eq_true.mp returns
  rcases inv.handed p with none | ⟨e, event, stands⟩
  · simp [none] at member
  · refine ⟨e, event, stands, ?_⟩
    cases finished : ex.ended with
    | none => simp [finished] at ended
    | some result =>
      cases result with
      | error err => simp [finished, Except.isOk, Except.toBool] at ended
      | ok output => exact (inv.recording p e event stands).returned ex member output finished

theorem inv_actor (inv : Inv effect s) {a : UmariPooledDispatch.Action}
    {next : UmariPooledDispatch.System} (good : answers s a = true)
    (taken : UmariPooledDispatch.step cfg s.actor a = some next) :
    Inv effect (actorStep cfg s a next) := by
  obtain ⟨more, grown⟩ := actor_grows taken
  have wider : ∀ {p e event}, Stands cfg s.actor.log p e event → Stands cfg next.log p e event := by
    intro p e event stands
    rw [grown]
    exact stands.grown more
  constructor
  · exact tidy_step inv.tidy taken
  · intro m member
    have known : ∃ e answer partition key, (m.position, e) ∈ entries s.actor.log ∧
        prepareEvent cfg.codec (m.position, e) answer partition = .ok (some (key, m)) := by
      rcases List.mem_append.mp member with old | new
      · exact inv.sent m old
      · exact sentBy_prepared inv.tidy new
    obtain ⟨e, answer, partition, key, logged, prepared⟩ := known
    refine ⟨e, answer, partition, key, ?_, prepared⟩
    show (m.position, e) ∈ entries next.log
    rw [grown]
    exact mem_entries_append_left logged
  · intro p
    rcases inv.handed p with none | ⟨e, event, stands⟩
    · exact Or.inl none
    · exact Or.inr ⟨e, event, wider stands⟩
  · intro p e event stands
    have stands' : Stands cfg (s.actor.log ++ more) p e event := grown ▸ stands
    have kept := recording_grown inv more stands'
    rw [← grown] at kept
    exact kept
  · intro p member
    have before : ∃ e event, Stands cfg s.actor.log p e event ∧
        Marked cfg.codec event.id (effect.scope (p, e)) s.actor.log := by
      rcases committed_by taken member with old | ⟨m, rfl, turn⟩
      · exact inv.committed p old
      · apply returned_marked inv
        rcases turn with ⟨worker, outcome, rfl, done, front⟩ | ⟨index, outcome, rfl, done, found⟩
        · simpa [answers, done, front] using good
        · simpa [answers, done, found] using good
    obtain ⟨e, event, stands, marked⟩ := before
    refine ⟨e, event, wider stands, ?_⟩
    show Marked _ _ _ next.log
    rw [grown]
    exact marked_append marked

theorem sent_command (inv : Inv effect s) {m : ProcessEvent} (sent : m ∈ s.sent) :
    ∃ e event, Stands cfg s.actor.log m.position e event ∧
      (effect.command m).idempotencyKey = some event.id ∧
      (effect.command m).query rules = .ok (effect.scope (m.position, e)) := by
  obtain ⟨e, answer, partition, key, logged, prepared⟩ := inv.sent m sent
  obtain ⟨event, reads, same⟩ := prepared_id prepared
  refine ⟨e, event, ⟨logged, reads⟩, ?_, effect.built _ answer partition key m prepared⟩
  rw [effect.keyed m, same]

theorem inv_turn (stores : StoresEvents rules) (keeps : KeepsKeys cfg.codec) (inv : Inv effect s)
    {m : ProcessEvent} (sent : m ∈ s.sent) {a : UmariIdempotency.Action V}
    (records : Records effect (.turn m a)) {store : UmariIdempotency.System V}
    (taken : UmariIdempotency.step cfg.codec rules newV5 (effect.command m)
      (s.store m.position) a = some store) : Inv effect (turnStep s m.position store) := by
  obtain ⟨f, own, standsOwn, keyed, built⟩ := sent_command inv sent
  obtain ⟨more, grown⟩ := turn_grows taken
  have sameLog : store.log = s.actor.log ++ more := grown
  have wider : ∀ {p e event}, Stands cfg s.actor.log p e event →
      Stands cfg store.log p e event := by
    intro p e event stands
    rw [sameLog]
    exact stands.grown more
  have own' : Recording cfg.codec own.id (effect.scope (m.position, f)) store :=
    recording_step stores keeps built (effect.selects _) keyed
      (inv.recording m.position f own standsOwn) (records _ built) taken
  constructor
  · have appended : UmariPooledDispatch.step cfg s.actor (.append more) =
        some { s.actor with log := store.log } := by rw [sameLog]; rfl
    exact tidy_step inv.tidy appended
  · intro other member
    obtain ⟨e, answer, partition, key, logged, prepared⟩ := inv.sent other member
    refine ⟨e, answer, partition, key, ?_, prepared⟩
    show (other.position, e) ∈ entries store.log
    rw [sameLog]
    exact mem_entries_append_left logged
  · intro p
    by_cases here : p = m.position
    · subst here
      exact Or.inr ⟨f, own, wider standsOwn⟩
    · rcases inv.handed p with none | ⟨e, event, stands⟩
      · exact Or.inl ((Function.update_of_ne here _ _).trans none)
      · exact Or.inr ⟨e, event, wider stands⟩
  · intro p e event stands
    by_cases here : p = m.position
    · subst here
      obtain ⟨rfl, rfl⟩ := stands.unique (wider standsOwn)
      simpa [turnStep, System.store] using own'
    · have stands' : Stands cfg (s.actor.log ++ more) p e event := sameLog ▸ stands
      have kept := recording_grown inv more stands'
      rw [← sameLog] at kept
      simpa [turnStep, System.store, here] using kept
  · intro p member
    obtain ⟨e, event, stands, marked⟩ := inv.committed p member
    refine ⟨e, event, wider stands, ?_⟩
    show Marked _ _ _ store.log
    rw [sameLog]
    exact marked_append marked

theorem step_cases {a : Action V} (taken : step newV5 effect s a = some t) :
    (∃ b next, a = .actor b ∧ answers s b = true ∧
      UmariPooledDispatch.step cfg s.actor b = some next ∧ t = actorStep cfg s b next) ∨
    ∃ m b store, a = .turn m b ∧ m ∈ s.sent ∧
      UmariIdempotency.step cfg.codec rules newV5 (effect.command m) (s.store m.position) b =
        some store ∧ t = turnStep s m.position store := by
  cases a with
  | actor b =>
    simp only [step] at taken
    split at taken
    · rename_i good
      obtain ⟨next, moved, rfl⟩ := Option.map_eq_some_iff.mp taken
      exact Or.inl ⟨b, next, rfl, good, moved, rfl⟩
    · exact absurd taken (by simp)
  | turn m b =>
    simp only [step] at taken
    split at taken
    · rename_i allowed
      obtain ⟨store, ran, rfl⟩ := Option.map_eq_some_iff.mp taken
      exact Or.inr ⟨m, b, store, rfl, allowed.1, ran, rfl⟩
    · exact absurd taken (by simp)

theorem step_grows {a : Action V} (taken : step newV5 effect s a = some t) :
    ∃ more, t.actor.log = s.actor.log ++ more := by
  rcases step_cases taken with ⟨_, _, _, _, moved, rfl⟩ | ⟨_, _, _, _, _, ran, rfl⟩
  · exact actor_grows moved
  · exact turn_grows ran

theorem inv_step (stores : StoresEvents rules) (keeps : KeepsKeys cfg.codec) {a : Action V}
    (inv : Inv effect s) (records : Records effect a) (taken : step newV5 effect s a = some t) :
    Inv effect t := by
  rcases step_cases taken with ⟨_, _, rfl, good, moved, rfl⟩ | ⟨_, _, _, rfl, sent, ran, rfl⟩
  · exact inv_actor inv good moved
  · exact inv_turn stores keeps inv sent records ran

theorem inv_initial (effect : Effect cfg rules I) (log : List Event) :
    Inv effect (initial log : System V) where
  tidy := tidy_initial cfg log
  sent := fun _ member => absurd member List.not_mem_nil
  handed := fun _ => Or.inl rfl
  recording := fun _ _ _ _ => recording_empty log
  committed := fun _ member => absurd member List.not_mem_nil

/-- The record of an event that stands in the log, and what its turns have written. -/
structure Fixed (effect : Effect cfg rules I) (p : Nat) (e : Event) (event : StoredEvent V)
    (batches : List (List Event)) (s : System V) : Prop where
  inv : Inv effect s
  stands : Stands cfg s.actor.log p e event
  marked : Marked cfg.codec event.id (effect.scope (p, e)) s.actor.log
  written : written (s.turns p).executions = batches

theorem fixed_step (stores : StoresEvents rules) (keeps : KeepsKeys cfg.codec) {p : Nat} {e : Event}
    {event : StoredEvent V} {batches : List (List Event)} {a : Action V}
    (fixed : Fixed effect p e event batches s) (records : Records effect a)
    (taken : step newV5 effect s a = some t) : Fixed effect p e event batches t := by
  obtain ⟨more, grown⟩ := step_grows taken
  constructor
  · exact inv_step stores keeps fixed.inv records taken
  · rw [grown]
    exact fixed.stands.grown more
  · rw [grown]
    exact marked_append fixed.marked
  · rw [← fixed.written]
    rcases step_cases taken with ⟨_, _, _, _, _, rfl⟩ | ⟨m, _, store, _, _, ran, rfl⟩
    · rfl
    · by_cases here : p = m.position
      · subst here
        have same := written_step (fixed.inv.recording _ e event fixed.stands) fixed.marked ran
        simpa [turnStep, System.store] using same
      · simp [turnStep, here]

def skipsOnlyShredded (cfg : Config V) (s : System V) : Action V → Bool
  | .actor a => skipsShredded cfg s.actor a && skipsLast cfg s.actor a
  | .turn _ _ => true

theorem delivered_step {a : Action V} (held : UmariAtLeastOnce.Inv cfg s.actor)
    (skips : skipsOnlyShredded cfg s a = true) (taken : step newV5 effect s a = some t) :
    UmariAtLeastOnce.Inv cfg t.actor := by
  rcases step_cases taken with ⟨_, _, rfl, _, moved, rfl⟩ | ⟨_, _, store, _, _, ran, rfl⟩
  · obtain ⟨gone, last⟩ := Bool.and_eq_true_iff.mp skips
    exact UmariAtLeastOnce.inv_step held gone last moved
  · obtain ⟨more, grown⟩ := turn_grows ran
    have sameLog : store.log = s.actor.log ++ more := grown
    have appended : UmariPooledDispatch.step cfg s.actor (.append more) =
        some { s.actor with log := store.log } := by rw [sameLog]; rfl
    exact UmariAtLeastOnce.inv_step held rfl rfl appended

end system

section results
variable [DecidableEq V] {cfg : Config V} {rules : NameRules} {newV5 : List UInt8 → Uuid}

/-- However often an event is handed out, its turns write one record at most. When a worker
    has committed the event the record is in the log, and from then on its turns write
    nothing, whatever is redelivered, reset or restarted. -/
theorem effect_records_once (effect : Effect cfg rules I) (stores : StoresEvents rules)
    (keeps : KeepsKeys cfg.codec) {log : List Event} {actions : List (Action V)}
    (records : ∀ a ∈ actions, Records effect a) {s : System V}
    (run : exec (step newV5 effect) (initial log) actions = some s) :
    (∀ p, (written (s.turns p).executions).length ≤ 1) ∧
      ∀ p ∈ s.actor.committed, ∃ e event, Stands cfg s.actor.log p e event ∧
        Marked cfg.codec event.id (effect.scope (p, e)) s.actor.log ∧
        ∀ later t, (∀ a ∈ later, Records effect a) → exec (step newV5 effect) s later = some t →
          written (t.turns p).executions = written (s.turns p).executions := by
  have met : Meets (step newV5 effect) (fun _ a => Records effect a) (initial log) actions :=
    meets_of_mem (fun _ a member => records a member) _
  have inv : Inv effect s := guarded_invariant
    (fun held guard taken => inv_step stores keeps held guard taken) (inv_initial effect log) run
    met
  constructor
  · intro p
    rcases inv.handed p with none | ⟨e, event, stands⟩
    · simp [none, written]
    · exact written_once (inv.recording p e event stands)
  · intro p member
    obtain ⟨e, event, stands, marked⟩ := inv.committed p member
    refine ⟨e, event, stands, marked, ?_⟩
    intro later t recordsLater runLater
    have metLater : Meets (step newV5 effect) (fun _ a => Records effect a) s later :=
      meets_of_mem (fun _ a member => recordsLater a member) _
    have fixed : Fixed effect p e event (written (s.turns p).executions) t := guarded_invariant
      (fun held guard taken => fixed_step stores keeps held guard taken)
      ⟨inv, stands, marked, rfl⟩ runLater metLater
    exact fixed.written

/-- Behind the stored position nothing is left to record: where only events whose key is gone
    are skipped, and committed skips with nothing in flight come last in their batch, every
    matching event up to it has its record in the log, or was shredded. -/
theorem resumed_recorded (effect : Effect cfg rules I) (stores : StoresEvents rules)
    (keeps : KeepsKeys cfg.codec) {log : List Event} {actions : List (Action V)}
    (records : ∀ a ∈ actions, Records effect a)
    (skips : Meets (step newV5 effect) (fun s a => skipsOnlyShredded cfg s a = true) (initial log)
      actions)
    {s : System V} (run : exec (step newV5 effect) (initial log) actions = some s) {p : Nat}
    {e : Event} (logged : (p, e) ∈ entries s.actor.log) (selected : cfg.query.matches e = true)
    (behind : p ≤ resumePosition (storedPosition s.actor.row)) :
    p ∈ s.actor.shredded ∨ ∃ event, Stands cfg s.actor.log p e event ∧
      Marked cfg.codec event.id (effect.scope (p, e)) s.actor.log := by
  have preserved : ∀ {s : System V} {a t}, (Inv effect s ∧ UmariAtLeastOnce.Inv cfg s.actor) →
      (skipsOnlyShredded cfg s a = true ∧ Records effect a) → step newV5 effect s a = some t →
      (Inv effect t ∧ UmariAtLeastOnce.Inv cfg t.actor) :=
    fun held guard taken =>
      ⟨inv_step stores keeps held.1 guard.2 taken, delivered_step held.2 guard.1 taken⟩
  obtain ⟨inv, delivered⟩ := guarded_invariant preserved
    ⟨inv_initial effect log, UmariAtLeastOnce.inv_initial cfg log⟩ run
    (meets_labelled records skips)
  rcases delivered.settled p e logged selected behind with committed | shredded
  · obtain ⟨f, event, stands, marked⟩ := inv.committed p committed
    obtain rfl := ascending_unique (entries_ascending _) logged stands.logged
    exact Or.inr ⟨event, stands, marked⟩
  · exact Or.inl shredded

end results

section sample
open UmariJsonCodec UmariCommandRuns UmariQueryCoverage UmariSealedEvents

def signupRecord : StoredEventData String :=
  ⟨5, 0, 0x11111111111111111111111111111111, secondCausation, none, none, none, none, "\x7b\x7d"⟩

def signup : Event := ⟨"user.registered", [], recordBytes signupRecord⟩

def greetedRecord (id causationId : Uuid) : StoredEventData String :=
  ⟨id, 0, 0x11111111111111111111111111111111, causationId, some 5, some 5, none, none, "\x7b\x7d"⟩

def greetConfig : Config String where
  codec := jsonCodec [signupRecord,
      greetedRecord 0xd8bee0eaf637579c828593706e9e67d5 firstCausation,
      greetedRecord 0x205f8c5e173d59949cc2fa45b2402a79 secondCausation]
    [0x11111111111111111111111111111111, firstCausation, secondCausation,
      0xd8bee0eaf637579c828593706e9e67d5, 0x205f8c5e173d59949cc2fa45b2402a79, 5] adaMessage
  query := .items [⟨["user.registered"], []⟩]
  hash := fun _ => 0
  name := "greet"

def greetScope : Query := .items [⟨["task.created"], ["project_id:p1", "task_id:t1"]⟩]

def recordGreeting (key : Uuid) : Command String Unit :=
  (Command.new () (fun _ => taskInput) (some key)).fold (countFold taskCreated ["project_id"])
    fun _ _ => .ok ()

theorem recordGreeting_query (key : Uuid) :
    (recordGreeting key).query plainNames = .ok greetScope := by
  have same : (recordGreeting key).query plainNames = (recordGreeting 0).query plainNames := rfl
  rw [same]
  decide +kernel

def greeting : Effect greetConfig plainNames Unit where
  command := fun message => recordGreeting message.currentEventId
  scope := fun _ => greetScope
  keyed := fun _ => rfl
  built := fun _ _ _ _ message _ => recordGreeting_query message.currentEventId
  selects := fun _ => rfl

def signupEvent : StoredEvent String :=
  ⟨5, 1, "user.registered", [], 0, 0x11111111111111111111111111111111, secondCausation, none, none,
    none, none, "\x7b\x7d"⟩

def signupMessage : ProcessEvent :=
  ⟨5, 0x11111111111111111111111111111111, signupEvent.toWit greetConfig.codec, 1⟩

def greetStart (head : Nat) : Action String :=
  .turn signupMessage (.start (fun _ _ => .ok none) (.ok head))

def greetFinish (index : Nat) (causationId : Uuid) : Action String :=
  .turn signupMessage (.finish index (.eventHandler 0 5) 0x11111111111111111111111111111111
    causationId (some 5) (.ok [taskEmit]) fun _ => .error "unused")

def handOut (upto : Nat) : List (Action String) :=
  [.actor (.start (release 1 0 0)), .actor (.nextBatch upto),
    .actor (.dispatch (.ok none) (.ok .unkeyed) true)]

/-- The actor dies after the record is written and before the event is acknowledged. -/
def diesOnce : List (Action String) :=
  handOut 1 ++ [greetStart 1, greetFinish 0 firstCausation, .actor .crash] ++ handOut 2 ++
    [greetStart 2, greetFinish 1 secondCausation, .actor (.work .global .ok), .actor (.ack 0 true)]

theorem diesOnce_records : ∀ a ∈ diesOnce, Records greeting a := by
  intro a member
  have selected : greetScope.matches ⟨taskEmit.eventType, taskEmit.tags, []⟩ = true := by
    decide +kernel
  have finishes : ∀ index causationId, Records greeting (greetFinish index causationId) := by
    intro index causationId query built
    obtain rfl := Except.ok.inj ((recordGreeting_query _).symm.trans built)
    exact ⟨taskEmit, List.mem_cons_self, selected⟩
  simp only [diesOnce, handOut, List.cons_append, List.nil_append, List.mem_cons, List.not_mem_nil,
    or_false] at member
  rcases member with rfl | rfl | rfl | rfl | rfl | rfl | rfl | rfl | rfl | rfl | rfl | rfl | rfl
  · trivial
  · trivial
  · trivial
  · exact fun _ _ => trivial
  · exact finishes _ _
  · trivial
  · trivial
  · trivial
  · trivial
  · exact fun _ _ => trivial
  · exact finishes _ _
  · trivial
  · trivial

theorem greetConfig_keepsKeys : KeepsKeys greetConfig.codec :=
  jsonCodec_keepsKeys (by decide +kernel)

def seen (s : System String) : List Nat × Option Nat × List Event × List Nat :=
  (s.actor.committed, storedPosition s.actor.row, s.actor.log.take 1,
    (s.turns 1).executions.map fun ex => ex.appended.length)

theorem diesOnce_seen : ∃ s, exec (step knownV5 greeting) (initial [signup]) diesOnce = some s ∧
    seen s = ([1], some 2, [signup], [1, 0]) := by
  apply Option.map_eq_some_iff.mp
  decide +kernel

theorem greeting_recorded_once : ∃ s,
    exec (step knownV5 greeting) (initial [signup]) diesOnce = some s ∧
      seen s = ([1], some 2, [signup], [1, 0]) ∧
      (∀ p, (written (s.turns p).executions).length ≤ 1) ∧
      ∃ e event, Stands greetConfig s.actor.log 1 e event ∧
        Marked greetConfig.codec event.id greetScope s.actor.log := by
  obtain ⟨s, run, fields⟩ := diesOnce_seen
  have committed : 1 ∈ s.actor.committed := by
    have first := congrArg Prod.fst fields
    simp only [seen] at first
    rw [first]
    exact List.mem_cons_self
  obtain ⟨once, recorded⟩ :=
    effect_records_once greeting plainNames_store greetConfig_keepsKeys diesOnce_records run
  obtain ⟨e, event, stands, marked, _⟩ := recorded 1 committed
  exact ⟨s, run, fields, once, e, event, stands, marked⟩

theorem signup_behind_position : ∃ s,
    exec (step knownV5 greeting) (initial [signup]) diesOnce = some s ∧
      storedPosition s.actor.row = some 2 ∧
      (1 ∈ s.actor.shredded ∨ ∃ event, Stands greetConfig s.actor.log 1 signup event ∧
        Marked greetConfig.codec event.id greetScope s.actor.log) := by
  obtain ⟨s, run, fields⟩ := diesOnce_seen
  simp only [seen, Prod.mk.injEq] at fields
  obtain ⟨_, stored, first, _⟩ := fields
  have logged : (1, signup) ∈ entries s.actor.log := by
    rw [← List.take_append_drop 1 s.actor.log, first]
    exact List.mem_cons_self
  exact ⟨s, run, stored, resumed_recorded greeting plainNames_store greetConfig_keepsKeys
    diesOnce_records (by decide +kernel) run logged (by decide +kernel) (by rw [stored]; decide)⟩

end sample

end UmariEffectRecords
