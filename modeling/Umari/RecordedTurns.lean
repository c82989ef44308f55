import Umari.Idempotency

/-!
The executions of a command that always emits, all under one idempotency key. One that
returns has written the record or has found it in the log; once the record is there, no
execution writes anything.
-/
namespace UmariRecordedTurns
open FallibleFolds PositionedLogs NumberedLists UmariEventStore UmariStoredEvents
open UmariTransactions UmariDcbQueries UmariFolds UmariSealedEvents UmariCommandRuns
open UmariIdempotency
open UmariSerializability (validSnapshot)
variable {V I : Type}

section replayed
variable [DecidableEq V] {codec : Codec V} {rules : NameRules} {cmd : Command V I} {key : Uuid}

theorem replayBatch_found {key : Option Uuid} {wits : List WitStoredEvent}
    {folds : List (RunningFold V)}
    (replayed : replayBatch codec key folds wits = .ok .idempotent) :
    ∃ wit ∈ wits, ∃ event, guestEvent codec wit = .ok event ∧ isIdempotent key event = true := by
  induction wits generalizing folds with
  | nil => exact absurd (Except.ok.inj replayed) (by simp)
  | cons first rest ih =>
    obtain ⟨event, typed, applied⟩ := bind_ok.mp replayed
    by_cases same : isIdempotent key event = true
    · exact ⟨first, List.mem_cons_self, event, typed, same⟩
    · rw [if_neg same] at applied
      obtain ⟨mid, _, later⟩ := bind_ok.mp applied
      obtain ⟨wit, member, found⟩ := ih later
      exact ⟨wit, List.mem_cons_of_mem first member, found⟩

omit [DecidableEq V] in
theorem idempotent_carries (keeps : KeepsKeys codec)
    {getKey : Uuid → Except String (Option CryptoKey)} {entry : Nat × Event} {wit : WitStoredEvent}
    {event : StoredEvent V} (decoded : batchEntry codec getKey entry = .ok wit)
    (typed : guestEvent codec wit = .ok event) (same : isIdempotent (some key) event = true) :
    Carries codec key entry.2 := by
  obtain ⟨record, parsed, text⟩ := batchEntry_key decoded
  have read := guestEvent_key typed
  have held : event.idempotencyKey = some key := by
    cases found : event.idempotencyKey with
    | none => simp [isIdempotent, found] at same
    | some other =>
      have equal : key = other := by simpa [isIdempotent, found] using same
      rw [equal]
  rw [held, text] at read
  have stored : record.idempotencyKey = some key := by
    cases written : record.idempotencyKey with
    | none => simp [written, parseOptionalUuid] at read
    | some other =>
      rw [written, Option.map_some, parseOptionalUuid] at read
      obtain ⟨id, parse, equal⟩ := map_ok.mp read
      obtain rfl := Option.some.inj equal
      unfold parseGuestUuid at parse
      cases back : codec.parseUuid (codec.uuidToString other) with
      | none => simp [back] at parse
      | some found =>
        rw [back] at parse
        obtain rfl := Except.ok.inj parse
        rw [keeps.uuid other found back]
  intro other again
  obtain rfl := Except.ok.inj (parsed.symm.trans again)
  exact stored

theorem replay_found (keeps : KeepsKeys codec) (names : KeepsNames rules) {query : Query}
    (built : cmd.query rules = .ok query) (selects : queryIsEmpty query = false)
    (keyed : cmd.idempotencyKey = some key) {log : List Event}
    {getKey : Nat → Uuid → Except String (Option CryptoKey)} {snapshot : Except String Nat}
    {tx : Nat} {transactions after : Transactions}
    (replayed : cmd.replay codec rules getKey 2 log transactions snapshot =
      .ok (after, tx, .idempotent)) : Marked codec key query log := by
  obtain ⟨_, query', item, wits, _, built', _, passed, _, unread, pinned, handed, batch⟩ :=
    replay_ok replayed
  obtain rfl := Except.ok.inj (built.symm.trans built')
  cases pin : item.read with
  | none =>
    have empty := unread pin
    rw [toQuery_empty passed, selects] at empty
    exact absurd empty (by simp)
  | some read =>
    obtain ⟨wit, among, event, typed, same⟩ := replayBatch_found batch
    obtain ⟨⟨p, e⟩, shown, decoded⟩ :=
      forall₂_exists_left (mapM_ok.mp (handed read.head (pinned read pin))) among
    obtain ⟨logged, _, _, selected⟩ := mem_window.mp shown
    rw [keyed] at same
    rw [toQuery_matches names passed] at selected
    exact ⟨e, mem_of_entries logged, selected, idempotent_carries keeps decoded typed same⟩

end replayed

section turns
variable {codec : Codec V} {rules : NameRules} {newV5 : List UInt8 → Uuid}
  {cmd : Command V I} {key : Uuid} {query : Query}

theorem finishRun_returned {createKey : String → Except String (Uuid × CryptoKey)}
    {log : List Event} {transactions : Transactions} {tx : Nat} {guest : Guest}
    {context : RunContext} {outcome : Outcome V} {decision : Except String (List (EmitItem V))}
    {output : ExecuteOutput}
    (returned : (finishRun codec rules newV5 createKey log transactions tx guest context outcome
      decision).result = .ok output) :
    outcome = .idempotent ∨ ∃ finals emit transactions' done, outcome = .states finals ∧
      decision = .ok emit ∧ hostCommit codec rules createKey log transactions tx guest context
        (emitEvents codec newV5 context emit) = (transactions', .ok done) ∧
      (finishRun codec rules newV5 createKey log transactions tx guest context outcome
        decision).log = done.log := by
  cases outcome with
  | idempotent => exact Or.inl rfl
  | states finals =>
    cases decision with
    | error err => exact absurd returned (by simp [finishRun])
    | ok emit =>
      cases committed : hostCommit codec rules createKey log transactions tx guest context
          (emitEvents codec newV5 context emit) with
      | mk left result =>
        cases result with
        | error err => exact absurd returned (by simp [finishRun, committed])
        | ok done =>
          exact Or.inr ⟨finals, emit, left, done, rfl, rfl, committed,
            by simp [finishRun, committed]⟩

theorem finishRun_grows (codec : Codec V) (rules : NameRules) (newV5 : List UInt8 → Uuid)
    (createKey : String → Except String (Uuid × CryptoKey)) (log : List Event)
    (transactions : Transactions) (tx : Nat) (guest : Guest) (context : RunContext)
    (outcome : Outcome V) (decision : Except String (List (EmitItem V))) :
    ∃ batch, (finishRun codec rules newV5 createKey log transactions tx guest context outcome
      decision).log = log ++ batch := by
  rcases (finishRun_cases (Eq.refl (finishRun codec rules newV5 createKey log transactions tx guest
    context outcome decision))).2 with same | ⟨_, _, done, _, _, committed, stored⟩
  · exact ⟨[], same.trans (List.append_nil log).symm⟩
  · obtain ⟨batch, grown⟩ := hostCommit_grown committed
    exact ⟨batch, stored.trans grown⟩

def RecordsMatching (query : Query) : UmariIdempotency.Action V → Prop
  | .finish _ _ _ _ _ (.ok emit) _ =>
    ∃ item ∈ emit, query.matches ⟨item.eventType, item.tags, []⟩ = true
  | _ => True

theorem RecordsMatching.emits {a : UmariIdempotency.Action V} (records : RecordsMatching query a) :
    EmitsMatching query a := by
  cases a with
  | append events => trivial
  | start getKey snapshot => trivial
  | finish index guest correlationId causationId triggeringEventId decision createKey =>
    cases decision with
    | error err => trivial
    | ok emit => exact Or.inr records

/-- The executions of all turns of one event; one that returned leaves the record in the
    log, whether it wrote it or found it. -/
structure Recording (codec : Codec V) (key : Uuid) (query : Query)
    (s : UmariIdempotency.System V) : Prop where
  single : UmariIdempotency.Inv codec key query s
  found : ∀ ex ∈ s.executions, ex.outcome = .idempotent → Marked codec key query s.log
  returned : ∀ ex ∈ s.executions, ∀ output, ex.ended = some (.ok output) →
    Marked codec key query s.log
  waiting : ∀ ex ∈ s.executions, ex.ended = none → ex.appended = []

theorem recording_empty (log : List Event) :
    Recording codec key query (⟨log, [], []⟩ : UmariIdempotency.System V) where
  single := inv_initial log
  found := fun _ member => absurd member List.not_mem_nil
  returned := fun _ member => absurd member List.not_mem_nil
  waiting := fun _ member => absurd member List.not_mem_nil

theorem recording_append {s : UmariIdempotency.System V} (held : Recording codec key query s)
    (more : List Event) : Recording codec key query { s with log := s.log ++ more } where
  single := inv_append held.single more
  found := fun ex member same => marked_append (held.found ex member same)
  returned := fun ex member output ended => marked_append (held.returned ex member output ended)
  waiting := held.waiting

variable [DecidableEq V] {s t : UmariIdempotency.System V}

theorem recording_start (stores : StoresEvents rules) (keeps : KeepsKeys codec)
    (built : cmd.query rules = .ok query) (selects : queryIsEmpty query = false)
    (keyed : cmd.idempotencyKey = some key)
    {getKey : Nat → Uuid → Except String (Option CryptoKey)} {snapshot : Except String Nat}
    (held : Recording codec key query s) (valid : validSnapshot s.log snapshot = true) :
    Recording codec key query (startStep codec rules cmd s getKey snapshot) := by
  have single : UmariIdempotency.Inv codec key query
      (startStep codec rules cmd s getKey snapshot) :=
    inv_start keeps stores.names built selects keyed held.single valid
  unfold startStep at single ⊢
  cases replayed : cmd.replay codec rules getKey 2 s.log s.transactions snapshot with
  | error err => exact held
  | ok result =>
    obtain ⟨after, tx, outcome⟩ := result
    rw [replayed] at single
    constructor
    · exact single
    · intro ex member same
      rcases List.mem_append.mp member with old | new
      · exact held.found ex old same
      · obtain rfl := List.mem_singleton.mp new
        dsimp only at same
        subst same
        exact replay_found keeps stores.names built selects keyed replayed
    · intro ex member output ended
      rcases List.mem_append.mp member with old | new
      · exact held.returned ex old output ended
      · obtain rfl := List.mem_singleton.mp new
        exact absurd ended (by simp)
    · intro ex member waits
      rcases List.mem_append.mp member with old | new
      · exact held.waiting ex old waits
      · obtain rfl := List.mem_singleton.mp new
        rfl

omit [DecidableEq V] in
theorem recording_finish {index : Nat} {before : Execution V}
    (held : Recording codec key query s) (here : s.executions[index]? = some before)
    {finished : RunEnd} {batch : List Event}
    (single : UmariIdempotency.Inv codec key query
      (finishStep s index before.tx before.outcome finished))
    (grown : finished.log = s.log ++ batch)
    (returned : ∀ output, finished.result = .ok output → before.outcome = .idempotent ∨
      Marked codec key query finished.log) :
    Recording codec key query (finishStep s index before.tx before.outcome finished) := by
  have kept : Marked codec key query s.log → Marked codec key query finished.log := by
    intro marked
    rw [grown]
    exact marked_append marked
  have member := List.mem_of_getElem? here
  constructor
  · exact single
  · intro ex among same
    rcases List.mem_or_eq_of_mem_set among with was | rfl
    · exact kept (held.found ex was same)
    · exact kept (held.found before member same)
  · intro ex among output ended
    rcases List.mem_or_eq_of_mem_set among with was | rfl
    · exact kept (held.returned ex was output ended)
    · rcases returned output (Option.some.inj ended) with same | marked
      · exact kept (held.found before member same)
      · exact marked
  · intro ex among waits
    rcases List.mem_or_eq_of_mem_set among with was | rfl
    · exact held.waiting ex was waits
    · exact absurd waits (by simp)

theorem recording_step (stores : StoresEvents rules) (keeps : KeepsKeys codec)
    (built : cmd.query rules = .ok query) (selects : queryIsEmpty query = false)
    (keyed : cmd.idempotencyKey = some key) {a : UmariIdempotency.Action V}
    (held : Recording codec key query s) (records : RecordsMatching query a)
    (taken : UmariIdempotency.step codec rules newV5 cmd s a = some t) :
    Recording codec key query t := by
  have single := inv_step stores keeps built selects keyed held.single records.emits taken
  cases a with
  | append events =>
    obtain rfl := Option.some.inj taken
    exact recording_append held events
  | start getKey snapshot =>
    simp only [UmariIdempotency.step] at taken
    split at taken
    · rename_i valid
      obtain rfl := Option.some.inj taken
      exact recording_start stores keeps built selects keyed held valid
    · exact absurd taken (by simp)
  | finish index guest correlationId causationId triggeringEventId decision createKey =>
    simp only [UmariIdempotency.step] at taken
    split at taken
    · rename_i tx outcome appended here
      obtain rfl := Option.some.inj taken
      obtain ⟨batch, grown⟩ := finishRun_grows codec rules newV5 createKey s.log s.transactions tx
        guest ⟨correlationId, causationId, triggeringEventId, cmd.idempotencyKey⟩ outcome decision
      apply recording_finish held here single grown
      intro output returned
      rcases finishRun_returned returned with same | ⟨_, emit, _, done, _, rfl, committed, log⟩
      · exact Or.inl same
      · obtain ⟨item, among, selected⟩ := records
        rw [log] at grown ⊢
        obtain ⟨carries, named⟩ := committed_carries stores keeps keyed committed grown
        obtain ⟨event, stands, ty, tags⟩ := forall₂_exists_left named.flip among
        right
        rw [grown]
        refine ⟨event, List.mem_append_right _ stands, ?_, carries event stands⟩
        rw [matches_congr (b := ⟨item.eventType, item.tags, []⟩) ty tags]
        exact selected
    · exact absurd taken (by simp)

theorem turn_grows {a : UmariIdempotency.Action V}
    (taken : UmariIdempotency.step codec rules newV5 cmd s a = some t) :
    ∃ batch, t.log = s.log ++ batch := by
  cases a with
  | append events =>
    obtain rfl := Option.some.inj taken
    exact ⟨events, rfl⟩
  | start getKey snapshot =>
    simp only [UmariIdempotency.step] at taken
    split at taken
    · obtain rfl := Option.some.inj taken
      unfold startStep
      split
      · exact ⟨[], (List.append_nil s.log).symm⟩
      · exact ⟨[], (List.append_nil s.log).symm⟩
    · exact absurd taken (by simp)
  | finish index guest correlationId causationId triggeringEventId decision createKey =>
    simp only [UmariIdempotency.step] at taken
    split at taken
    · obtain rfl := Option.some.inj taken
      exact finishRun_grows codec rules newV5 createKey s.log s.transactions _ guest _ _ decision
    · exact absurd taken (by simp)

def written (executions : List (Execution V)) : List (List Event) :=
  (executions.map fun ex => ex.appended).filter fun batch => decide (batch ≠ [])

omit [DecidableEq V] in
theorem commit_marked (held : Recording codec key query s)
    {before : Execution V} (member : before ∈ s.executions) {finals : List (RunningFold V)}
    (left : before.outcome = .states finals) (marked : Marked codec key query s.log)
    {createKey : String → Except String (Uuid × CryptoKey)} {guest : Guest} {context : RunContext}
    {events : List EmitEvent} {transactions' : Transactions} {done : Committed} {batch : List Event}
    (committed : hostCommit codec rules createKey s.log s.transactions before.tx guest context
      events = (transactions', .ok done)) (grown : done.log = s.log ++ batch) : batch = [] := by
  obtain ⟨envelope, _, stored⟩ := hostCommit_ok committed
  obtain ⟨item, batch', found, _, grown', quiet⟩ := transactionCommit_ok stored
  obtain rfl := List.append_cancel_left (grown.symm.trans grown')
  by_contra appends
  exact unmarked_of_fence (held.single.unseen before member finals left item found) (quiet appends)
    marked

omit [DecidableEq V] in
theorem written_once (held : Recording codec key query s) : (written s.executions).length ≤ 1 := by
  apply filter_length_le_one
  intro i j a b first second appendsA appendsB
  rw [List.getElem?_map, Option.map_eq_some_iff] at first second
  obtain ⟨exA, atI, rfl⟩ := first
  obtain ⟨exB, atJ, rfl⟩ := second
  exact held.single.once i j exA exB atI atJ (of_decide_eq_true appendsA)
    (of_decide_eq_true appendsB)

theorem written_step {a : UmariIdempotency.Action V} (held : Recording codec key query s)
    (marked : Marked codec key query s.log)
    (taken : UmariIdempotency.step codec rules newV5 cmd s a = some t) :
    written t.executions = written s.executions := by
  cases a with
  | append events =>
    obtain rfl := Option.some.inj taken
    rfl
  | start getKey snapshot =>
    simp only [UmariIdempotency.step] at taken
    split at taken
    · obtain rfl := Option.some.inj taken
      unfold startStep
      split
      · rfl
      · simp [written]
    · exact absurd taken (by simp)
  | finish index guest correlationId causationId triggeringEventId decision createKey =>
    simp only [UmariIdempotency.step] at taken
    split at taken
    · rename_i tx outcome appended here
      obtain rfl := Option.some.inj taken
      have member := List.mem_of_getElem? here
      obtain rfl : appended = [] := held.waiting _ member rfl
      have same : (finishRun codec rules newV5 createKey s.log s.transactions tx guest
          ⟨correlationId, causationId, triggeringEventId, cmd.idempotencyKey⟩ outcome
          decision).log = s.log := by
        rcases (finishRun_cases (Eq.refl (finishRun codec rules newV5 createKey s.log
          s.transactions tx guest ⟨correlationId, causationId, triggeringEventId,
            cmd.idempotencyKey⟩ outcome decision))).2 with
          unchanged | ⟨finals, _, done, left, _, committed, stored⟩
        · exact unchanged
        · obtain ⟨batch, grown⟩ := hostCommit_grown committed
          have nothing := commit_marked held member left marked committed grown
          rw [stored, grown, nothing, List.append_nil]
      have place : (s.executions.map fun ex => ex.appended)[index]? = some [] := by
        rw [List.getElem?_map, here]
        rfl
      obtain ⟨inside, value⟩ := List.getElem?_eq_some_iff.mp place
      have unchanged := List.set_getElem_self inside
      rw [value] at unchanged
      simp only [written, finishStep, same, List.drop_length, List.map_set, unchanged]
    · exact absurd taken (by simp)

end turns
end UmariRecordedTurns
