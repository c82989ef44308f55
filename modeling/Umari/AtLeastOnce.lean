import Umari.PooledDispatch

/-!
Delivery by the pooled dispatcher. The stored position promises that every
matching event up to it was handled by a worker or skipped after its key had been
deleted. Skipping such an event with nothing in flight breaks the promise: it stores
the cursor, which already stands behind the whole batch. So does skipping a live
event, as after a lookup of its key that failed.
-/
namespace UmariAtLeastOnce
open OrderedSets PositionedLogs GuardedRuns UmariEventStore UmariStoredEvents
open UmariStateDatabases UmariModuleActor UmariPooledDispatch
variable {V : Type}

/-- A worker committed the event, or it was skipped for want of its key. -/
def Settled (s : System) (position : Nat) : Prop :=
  position ∈ s.committed ∨ position ∈ s.shredded

/-- Nothing that a restart at the resume position leaves out is unhandled. With no
    stored position the stream starts at zero, and no event is left out. -/
def AtLeastOnce (cfg : Config V) (s : System) : Prop :=
  ∀ p e, (p, e) ∈ entries s.log → cfg.query.matches e = true →
    p ≤ resumePosition (storedPosition s.row) → Settled s p

/-- The condition on a skip: when nothing is in flight and the update commits, the
    rest of the batch is settled already. -/
def skipsLast [DecidableEq V] (cfg : Config V) (s : System) : Action → Bool
  | .dispatch answer partition commits =>
    match s.actor with
    | none => true
    | some d =>
      match d.batch with
      | [] => true
      | entry :: rest =>
        match prepareEvent cfg.codec entry answer partition with
        | .ok none =>
          !commits || !d.progress.inFlight.isEmpty ||
            rest.all fun later => decide (later.1 ∈ s.committed) || decide (later.1 ∈ s.shredded)
        | _ => true
  | _ => true

/-- The condition on what is skipped: the key store had no key for the event. A lookup that
    fails, a payload that does not open and a payload that is null all skip a live event. -/
def skipsShredded [DecidableEq V] (cfg : Config V) (s : System) : Action → Bool
  | .dispatch answer partition _ =>
    match s.actor.bind fun d => d.batch.head? with
    | none => true
    | some entry =>
      match prepareEvent cfg.codec entry answer partition with
      | .ok none => keyGone cfg.codec entry answer
      | _ => true
  | _ => true

structure Inv (cfg : Config V) (s : System) : Prop where
  tidy : Tidy cfg s
  settled : AtLeastOnce cfg s
  delivered : ∀ d, s.actor = some d → ∀ p e, (p, e) ∈ entries s.log →
    cfg.query.matches e = true → p ≤ d.progress.cursor →
    Settled s p ∨ p ∈ d.progress.inFlight ∨ (p, e) ∈ d.batch
  acked : ∀ p, WorkerAck.ok p ∈ s.acks → p ∈ s.committed

variable {cfg : Config V} {s t : System}

theorem inv_crash (stored : ∀ n, storedPosition s.row = some n → n ≤ s.log.length)
    (settled : AtLeastOnce cfg s) : Inv cfg (crash s) where
  tidy := tidy_crash stored
  settled := settled
  delivered := fun _ live => absurd live (by simp [crash])
  acked := fun _ member => absurd member (by simp [crash])

theorem inv_applyAck {d : Dispatcher} {position : Nat} {commits : Bool}
    (stored : ∀ n, storedPosition s.row = some n → n ≤ s.log.length) (tidy : TidyActor cfg s d)
    (settled : AtLeastOnce cfg s)
    (delivered : ∀ p e, (p, e) ∈ entries s.log → cfg.query.matches e = true →
      p ≤ d.progress.cursor → Settled s p ∨ p ∈ d.progress.inFlight ∨ (p, e) ∈ d.batch)
    (acked : ∀ p, WorkerAck.ok p ∈ s.acks → p ∈ s.committed)
    (bound : position ≤ d.progress.cursor) (done : Settled s position)
    (drained : commits = true → (∀ p, ¬ p ∈ d.progress.inFlight.remove position) →
      ∀ q e, (q, e) ∈ d.batch → Settled s q) :
    Inv cfg (applyAck s d position commits) := by
  have tidyAfter : Tidy cfg (applyAck s d position commits) := tidy_applyAck stored tidy bound
  have flight : ∀ p, p ∈ d.progress.inFlight →
      Settled s p ∨ p ∈ d.progress.inFlight.remove position := by
    intro p flying
    by_cases same : p = position
    · exact Or.inl (same ▸ done)
    · exact Or.inr (OrderedSet.mem_remove.mpr ⟨flying, same⟩)
  rcases applyAck_cases position commits tidy.synced with
    stopped | ⟨watermark, writes, computed, _, result⟩
  · rw [stopped]
    exact inv_crash stored settled
  · rcases result with stopped | ⟨row, _, updated, commit, applied⟩
    · rw [stopped]
      exact inv_crash stored settled
    · rw [applied] at tidyAfter ⊢
      obtain ⟨least, _, pinned⟩ := calculateWatermark_some computed
      have reached : watermark ≤ d.progress.cursor :=
        watermark_le_cursor computed (Nat.max_le.mpr ⟨tidy.completed, bound⟩)
          (fun p member => tidy.flying p (OrderedSet.mem_remove.mp member).1)
      refine ⟨tidyAfter, ?_, ?_, acked⟩
      · intro p e member selected below
        simp only [updated, resumePosition, Option.getD_some] at below
        rcases commit with yes | kept
        · rcases delivered p e member selected (Nat.le_trans below reached) with
            ready | flying | waiting
          · exact ready
          · rcases flight p flying with ready | other
            · exact ready
            · have above := least p other
              omega
          · by_cases busy : ∃ q, q ∈ d.progress.inFlight.remove position
            · obtain ⟨q, flying, next⟩ := pinned busy
              have ahead := tidy.ahead q (OrderedSet.mem_remove.mp flying).1 p e waiting
              omega
            · exact drained yes (fun q flying => busy ⟨q, flying⟩) p e waiting
        · exact settled p e member selected (by rw [kept]; exact below)
      · intro d' live p e member selected below
        obtain rfl := Option.some.inj live
        rcases delivered p e member selected below with ready | flying | waiting
        · exact Or.inl ready
        · rcases flight p flying with ready | other
          · exact Or.inl ready
          · exact Or.inr (Or.inl other)
        · exact Or.inr (Or.inr waiting)

theorem inv_skip {d : Dispatcher} {entry : Nat × Event} {rest : List (Nat × Event)}
    {commits : Bool} (inv : Inv cfg s) (live : s.actor = some d) (next : d.batch = entry :: rest)
    (last : commits = true → d.progress.inFlight.isEmpty = true →
      ∀ q e, (q, e) ∈ rest → Settled s q) :
    Inv cfg (skipEvent s d rest entry.1 true commits) := by
  have old := inv.tidy.actor d live
  have widen : ∀ p, Settled s p → Settled { s with shredded := entry.1 :: s.shredded } p := by
    intro p ready
    exact ready.imp (fun member => member) (List.mem_cons_of_mem entry.1)
  refine inv_applyAck inv.tidy.stored (tidy_skipping old next) ?_ ?_ inv.acked
    (tidy_rest old next).1 (Or.inr List.mem_cons_self) ?_
  · intro p e member selected below
    exact widen p (inv.settled p e member selected below)
  · intro p e member selected below
    rcases inv.delivered d live p e member selected below with ready | flying | waiting
    · exact Or.inl (widen p ready)
    · exact Or.inr (Or.inl (OrderedSet.mem_insert.mpr (Or.inr flying)))
    · rw [next] at waiting
      rcases List.mem_cons.mp waiting with here | tail
      · exact Or.inr (Or.inl (OrderedSet.mem_insert.mpr (Or.inl (congrArg Prod.fst here))))
      · exact Or.inr (Or.inr tail)
  · intro commit empty q e member
    refine widen q (last commit ?_ q e member)
    refine OrderedSet.isEmpty_iff.mpr ?_
    intro p flying
    by_cases same : p = entry.1
    · have ahead := old.ahead p flying entry.1 entry.2 (by rw [next]; exact List.mem_cons_self)
      omega
    · exact empty p (OrderedSet.mem_remove.mpr
        ⟨OrderedSet.mem_insert.mpr (Or.inr flying), same⟩)

variable [DecidableEq V]

theorem skipsLast_iff {d : Dispatcher} {entry : Nat × Event} {rest : List (Nat × Event)}
    {answer : Except String (Option CryptoKey)} {partition : Except String PartitionKey}
    {commits : Bool} (live : s.actor = some d) (next : d.batch = entry :: rest)
    (shredded : prepareEvent cfg.codec entry answer partition = .ok none) :
    skipsLast cfg s (.dispatch answer partition commits) = true ↔
      (commits = true → d.progress.inFlight.isEmpty = true →
        ∀ q e, (q, e) ∈ rest → Settled s q) := by
  simp only [skipsLast, live, next, shredded, Bool.or_eq_true, Bool.not_eq_true', List.all_eq_true,
    decide_eq_true_eq]
  constructor
  · rintro met commit empty q e member
    rcases met with (lost | busy) | every
    · exact absurd commit (by simp [lost])
    · exact absurd empty (by simp [busy])
    · exact every (q, e) member
  · intro rest
    cases commits with
    | false => exact Or.inl (Or.inl rfl)
    | true =>
      cases empty : d.progress.inFlight.isEmpty with
      | false => exact Or.inl (Or.inr rfl)
      | true => exact Or.inr (fun later member => rest rfl empty later.1 later.2 member)

theorem skipsShredded_iff {d : Dispatcher} {entry : Nat × Event} {rest : List (Nat × Event)}
    {answer : Except String (Option CryptoKey)} {partition : Except String PartitionKey}
    {commits : Bool} (live : s.actor = some d) (next : d.batch = entry :: rest)
    (nothing : prepareEvent cfg.codec entry answer partition = .ok none) :
    skipsShredded cfg s (.dispatch answer partition commits) = true ↔
      keyGone cfg.codec entry answer = true := by
  simp [skipsShredded, live, next, nothing]

section moves

omit [DecidableEq V] in
theorem inv_appended (events : List Event) (inv : Inv cfg s) :
    Inv cfg { s with log := s.log ++ events } := by
  have old : ∀ p e n, (p, e) ∈ entries (s.log ++ events) → p ≤ n → n ≤ s.log.length →
      (p, e) ∈ entries s.log := by
    intro p e n member below within
    exact mem_entries_of_le member (Nat.le_trans below within)
  refine ⟨tidy_appended events inv.tidy, ?_, ?_, inv.acked⟩
  · intro p e member selected below
    have positive := (entries_bounds member).1
    cases stored : storedPosition s.row with
    | none =>
      rw [stored] at below
      simp only [resumePosition, Option.getD_none] at below
      omega
    | some n =>
      rw [stored] at below
      exact inv.settled p e (old p e n member below (inv.tidy.stored n stored)) selected
        (by rw [stored]; exact below)
  · intro d live p e member selected below
    have within := (inv.tidy.actor d live).within
    exact inv.delivered d live p e (old p e _ member below within) selected below

omit [DecidableEq V] in
theorem inv_started (version : Version) (inv : Inv cfg s) : Inv cfg (startActor cfg s version) := by
  have base : AtLeastOnce cfg (startActor cfg s version) := by
    intro p e member selected below
    have positive := (entries_bounds member).1
    rw [startActor, openDatabase_position] at below
    by_cases reset : majorChanged s.row version = true
    · simp only [reset, ↓reduceIte, resumePosition, Option.getD_none] at below
      omega
    · simp only [reset, Bool.false_eq_true, ↓reduceIte] at below
      have ready := inv.settled p e member selected below
      simpa only [Settled, startActor, reset, Bool.false_eq_true, ↓reduceIte] using ready
  refine ⟨tidy_started version inv.tidy, base, ?_,
      fun _ member => absurd member (by simp [startActor])⟩
  intro d live p e member selected below
  obtain rfl := Option.some.inj live
  exact Or.inl (base p e member selected below)

omit [DecidableEq V] in
theorem inv_batched {d : Dispatcher} {upto : Nat} (inv : Inv cfg s) (live : s.actor = some d)
    (done : d.batch = []) (tidy : Tidy cfg (readBatch cfg.query s d upto)) :
    Inv cfg (readBatch cfg.query s d upto) := by
  refine ⟨tidy, inv.settled, ?_, inv.acked⟩
  intro d' live' p e member selected below
  obtain rfl := Option.some.inj live'
  by_cases new : d.progress.cursor < p
  · exact Or.inr (Or.inr (mem_window.mpr ⟨member, new, below, selected⟩))
  · rcases inv.delivered d live p e member selected (Nat.not_lt.mp new) with
      ready | flying | waiting
    · exact Or.inl ready
    · exact Or.inr (Or.inl flying)
    · rw [done] at waiting
      exact absurd waiting List.not_mem_nil

omit [DecidableEq V] in
theorem inv_sent {d : Dispatcher} {entry : Nat × Event} {rest : List (Nat × Event)}
    {key : PartitionKey} {message : ProcessEvent} (inv : Inv cfg s) (live : s.actor = some d)
    (next : d.batch = entry :: rest) (position : message.position = entry.1) :
    Inv cfg (sendEvent cfg.hash s d rest key message) := by
  refine ⟨tidy_sent inv.tidy live next position, inv.settled, ?_, inv.acked⟩
  intro d' live' p e member selected below
  obtain rfl := Option.some.inj live'
  rcases inv.delivered d live p e member selected below with ready | flying | waiting
  · exact Or.inl ready
  · exact Or.inr (Or.inl (OrderedSet.mem_insert.mpr (Or.inr flying)))
  · rw [next] at waiting
    rcases List.mem_cons.mp waiting with here | tail
    · refine Or.inr (Or.inl (OrderedSet.mem_insert.mpr (Or.inl ?_)))
      rw [position, ← here]
    · exact Or.inr (Or.inr tail)

omit [DecidableEq V] in
theorem inv_worked {worker : WorkerId} {message : ProcessEvent} {rest : List ProcessEvent}
    {outcome : HandlerOutcome} (inv : Inv cfg s) (mailbox : s.mailboxes worker = message :: rest) :
    Inv cfg (workStep s worker message rest outcome) := by
  have widen : ∀ p, p ∈ s.committed → p ∈ (workStep s worker message rest outcome).committed :=
    fun p member => committed_worked.mpr (Or.inr member)
  have settled : ∀ p, Settled s p → Settled (workStep s worker message rest outcome) p :=
    fun p ready => ready.imp (widen p) (fun member => member)
  constructor
  · exact tidy_worked inv.tidy mailbox
  · exact fun p e member selected below => settled p (inv.settled p e member selected below)
  · intro d live p e member selected below
    rcases inv.delivered d live p e member selected below with ready | rest
    · exact Or.inl (settled p ready)
    · exact Or.inr rest
  · intro p member
    rcases acked_worked.mp member with waiting | new
    · exact widen p (inv.acked p waiting)
    · cases outcome with
      | ok =>
        cases new
        exact List.mem_cons_self
      | failed text => exact absurd new (by simp [HandlerOutcome.ack])
      | blewUp done text => exact absurd new (by simp [HandlerOutcome.ack])

end moves

theorem inv_step {a : Action} (inv : Inv cfg s) (gone : skipsShredded cfg s a = true)
    (met : skipsLast cfg s a = true) (taken : step cfg s a = some t) : Inv cfg t := by
  have tidy := tidy_step inv.tidy taken
  cases moved_of_step taken with
  | appended events => exact inv_appended events inv
  | started version idle => exact inv_started version inv
  | batched d upto live done forward inside => exact inv_batched inv live done tidy
  | skipped d entry rest commits live next nothing =>
    rw [(skipsShredded_iff live next nothing).mp gone]
    exact inv_skip inv live next ((skipsLast_iff live next nothing).mp met)
  | sent d entry rest key message live next plain position => exact inv_sent inv live next position
  | worked worker message rest outcome mailbox => exact inv_worked inv mailbox
  | restarted worker d live =>
    exact ⟨tidy, inv.settled, inv.delivered, inv.acked⟩
  | workedOrphan index message outcome =>
    have widen : ∀ p, p ∈ s.committed → p ∈ (if outcome.committed then
        message.position :: s.committed else s.committed) := by
      intro p member
      split
      · exact List.mem_cons_of_mem _ member
      · exact member
    refine ⟨tidy, fun p e member selected below =>
        (inv.settled p e member selected below).imp (widen p) (fun member => member), ?_,
      fun p member => widen p (inv.acked p member)⟩
    intro d live p e member selected below
    rcases inv.delivered d live p e member selected below with ready | rest
    · exact Or.inl (ready.imp (widen p) (fun member => member))
    · exact Or.inr rest
  | acked d index position commits live between found =>
    have old := inv.tidy.actor d live
    have done : position ∈ s.committed := inv.acked position (List.mem_of_getElem? found)
    refine inv_applyAck inv.tidy.stored ?_ inv.settled (inv.delivered d live) ?_ ?_ (Or.inl done) ?_
    · exact tidy_received old index
    · exact fun p member => inv.acked p (List.mem_of_mem_eraseIdx member)
    · exact old.acked (.ok position) (List.mem_of_getElem? found)
    · intro _ _ q e member
      rw [between] at member
      exact absurd member List.not_mem_nil
  | crashed => exact inv_crash inv.tidy.stored inv.settled

omit [DecidableEq V] in
/-- A committed skip with nothing in flight stores the cursor, which is behind the
    whole batch, so what is left of the batch has to be settled by then. -/
theorem skip_needs_rest {d : Dispatcher} {entry : Nat × Event} {rest : List (Nat × Event)}
    (inv : Inv cfg s) (live : s.actor = some d) (next : d.batch = entry :: rest)
    (empty : d.progress.inFlight.isEmpty = true)
    {gone : Bool} (kept : AtLeastOnce cfg (skipEvent s d rest entry.1 gone true)) :
    ∀ q e, (q, e) ∈ rest → Settled s q := by
  have old := inv.tidy.actor d live
  obtain ⟨_, later, above, _⟩ := tidy_rest old next
  have skipTidy : TidyActor cfg
      { s with shredded := if gone then entry.1 :: s.shredded else s.shredded }
      (skipping d rest entry.1) := tidy_skipping old next
  have drained : (skipping d rest entry.1).progress.inFlight.remove entry.1 = OrderedSet.empty := by
    refine OrderedSet.ext_mem ?_
    intro p
    have none := OrderedSet.isEmpty_iff.mp empty p
    simp only [skipping, OrderedSet.mem_remove, OrderedSet.mem_insert, OrderedSet.not_mem_empty]
    tauto
  have computed : calculateWatermark ((skipping d rest entry.1).progress.inFlight.remove entry.1)
      (skipping d rest entry.1).progress.cursor
      (max (skipping d rest entry.1).progress.highestCompleted entry.1) =
        some (max d.progress.cursor (max d.progress.highestCompleted entry.1)) := by
    rw [drained]
    rfl
  obtain ⟨row, progress, writes, stored, applied⟩ :=
    applyAck_commits skipTidy.synced skipTidy.opened computed
  intro q e member
  have ready := kept q e
  rw [skipEvent, applied] at ready
  simp only [stored, resumePosition, Option.getD_some] at ready
  obtain ⟨inLog, selected, bound⟩ := old.rest q e (later q e member)
  rcases ready inLog selected (Nat.le_trans bound (Nat.le_max_left _ _)) with done | skip
  · exact Or.inl done
  · dsimp only at skip
    split at skip
    · rcases List.mem_cons.mp skip with same | before
      · have strict := above q e member
        omega
      · exact Or.inr before
    · exact Or.inr skip

theorem step_needs_skipsLast {a : Action} (inv : Inv cfg s) (taken : step cfg s a = some t)
    (kept : AtLeastOnce cfg t) : skipsLast cfg s a = true := by
  cases a with
  | dispatch answer partition commits =>
    cases live : s.actor with
    | none => simp [step, live] at taken
    | some d =>
      cases next : d.batch with
      | nil => simp [step, live, next] at taken
      | cons entry rest =>
        cases prepared : prepareEvent cfg.codec entry answer partition with
        | error err => simp [skipsLast, live, next, prepared]
        | ok result =>
          cases result with
          | some pair => simp [skipsLast, live, next, prepared]
          | none =>
            simp only [step, live, next, prepared, Option.some.injEq] at taken
            subst taken
            refine (skipsLast_iff live next prepared).mpr ?_
            intro commit empty
            subst commit
            exact skip_needs_rest inv live next empty kept
  | _ => rfl

omit [DecidableEq V] in
theorem inv_initial (cfg : Config V) (log : List Event) : Inv cfg (initial log) := by
  refine ⟨tidy_initial cfg log, ?_, fun _ live => absurd live (by simp [initial]),
    fun _ member => absurd member (by simp [initial])⟩
  intro p e member _ below
  have positive := (entries_bounds member).1
  simp only [initial, storedPosition, resumePosition, Option.bind_none, Option.getD_none] at below
  omega

/-- In a run that skips shredded events only, the pooled dispatcher keeps its promise in
    every state exactly when each committed skip with nothing in flight finds the rest of
    its batch settled. -/
theorem at_least_once_iff_skips_last (cfg : Config V) (log : List Event) (actions : List Action)
    (gone : Meets (step cfg) (fun s a => skipsShredded cfg s a = true) (initial log) actions) :
    Always (step cfg) (AtLeastOnce cfg) (initial log) actions ↔
      Meets (step cfg) (fun s a => skipsLast cfg s a = true) (initial log) actions :=
  always_iff_meets_given (fun inv gone met taken => inv_step inv gone met taken)
    (fun inv => inv.settled) (fun inv _ taken kept => step_needs_skipsLast inv taken kept)
    (inv_initial cfg log) gone

def oneAtATime : List Action := [
  .start (release 1 0 0),
  .nextBatch 1,
  .dispatch (.ok none) (.ok .unkeyed) true,
  .nextBatch 2,
  .dispatch (.ok none) (.ok .unkeyed) true,
  .work .global .ok,
  .ack 0 true]

theorem one_at_a_time_keeps_promise :
    (exec (step sampleConfig) (initial [secretEvent, plainEvent]) oneAtATime).map
        (fun final => (storedPosition final.row, final.committed, final.shredded)) =
      some (some 2, [2], [1]) ∧
    Always (step sampleConfig) (AtLeastOnce sampleConfig) (initial [secretEvent, plainEvent])
      oneAtATime := by
  constructor
  · decide +kernel
  · exact (at_least_once_iff_skips_last sampleConfig [secretEvent, plainEvent] oneAtATime
      (by decide +kernel)).mpr (by decide +kernel)

/-- A shredded event in front of a plain one: the skip stores position two, and the
    plain event is not delivered after a restart. -/
theorem skip_before_plain_loses_event : ∃ final,
    exec (step sampleConfig) (initial [secretEvent, plainEvent])
      [.start (release 1 0 0), .nextBatch 2, .dispatch (.ok none) (.ok .unkeyed) true] =
        some final ∧ ¬ AtLeastOnce sampleConfig final := by
  have seen : (exec (step sampleConfig) (initial [secretEvent, plainEvent])
      [.start (release 1 0 0), .nextBatch 2, .dispatch (.ok none) (.ok .unkeyed) true]).map
        (fun final => (final.log, storedPosition final.row, final.committed, final.shredded)) =
          some ([secretEvent, plainEvent], some 2, [], [1]) := by decide +kernel
  obtain ⟨final, run, fields⟩ := Option.map_eq_some_iff.mp seen
  simp only [Prod.mk.injEq] at fields
  obtain ⟨log, stored, committed, shredded⟩ := fields
  refine ⟨final, run, ?_⟩
  intro promise
  have logged : (2, plainEvent) ∈ entries final.log := by
    rw [log]
    exact List.mem_cons_of_mem _ List.mem_cons_self
  have settled := promise 2 plainEvent logged rfl (by rw [stored]; decide)
  rw [Settled, committed, shredded] at settled
  simp at settled

/-- The key store does not answer in time for an event whose key it has: the position is
    stored, and neither a worker nor a deleted key accounts for the event. -/
theorem failed_lookup_loses_event : ∃ final,
    exec (step sampleConfig) (initial [secretEvent])
      [.start (release 1 0 0), .nextBatch 1, .dispatch (.error "timeout") (.ok .unkeyed) true] =
        some final ∧ ¬ AtLeastOnce sampleConfig final := by
  have seen : (exec (step sampleConfig) (initial [secretEvent])
      [.start (release 1 0 0), .nextBatch 1, .dispatch (.error "timeout") (.ok .unkeyed) true]).map
        (fun final => (final.log, storedPosition final.row, final.committed, final.shredded)) =
          some ([secretEvent], some 1, [], []) := by decide +kernel
  obtain ⟨final, run, fields⟩ := Option.map_eq_some_iff.mp seen
  simp only [Prod.mk.injEq] at fields
  obtain ⟨log, stored, committed, shredded⟩ := fields
  refine ⟨final, run, ?_⟩
  intro promise
  have logged : (1, secretEvent) ∈ entries final.log := by
    rw [log]
    exact List.mem_cons_self
  have settled := promise 1 secretEvent logged rfl (by rw [stored]; decide)
  rw [Settled, committed, shredded] at settled
  simp at settled

end UmariAtLeastOnce
