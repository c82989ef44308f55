import Umari.PooledDispatch

/-!
Order of effects within one lane, in one run of the dispatcher: from the start of
the actor to its end. `dispatched` and `handled` are the history of that run. A
worker that fails stops, and the notice that would restart it comes to the
dispatcher behind the failed acknowledgement, which ends the run: what is queued
behind a failure is never taken up. No turn of a worker reads the dispatcher, so
what the workers of a stopped dispatcher still take up is what they take up in a
run whose dispatcher stands idle instead.
-/
namespace UmariPartitionOrder
open OrderedSets PositionedLogs GuardedRuns UmariEventStore UmariStoredEvents
open UmariStateDatabases UmariModuleActor UmariPooledDispatch
variable {V : Type}

/-- Whenever an event is handled, the earlier events of its lane were handled before. -/
def InOrder (s : System) : Prop :=
  ∀ p k, p ∈ s.handled → (p, k) ∈ s.dispatched →
    ∀ q k', (q, k') ∈ s.dispatched → lane k' = lane k → q < p → q ∈ s.handled

structure Inv (cfg : Config V) (s : System) : Prop where
  tidy : Tidy cfg s
  idle : s.actor = none → ∀ worker, s.mailboxes worker = []
  behind : ∀ d, s.actor = some d → ∀ p k, (p, k) ∈ s.dispatched →
    p ≤ d.progress.cursor ∧ ∀ q e, (q, e) ∈ d.batch → p < q
  ascending : s.dispatched.Pairwise (fun a b => a.1 < b.1)
  routed : ∀ worker message, message ∈ s.mailboxes worker →
    ∃ k, (message.position, k) ∈ s.dispatched ∧ workerFor cfg.hash k = worker
  fifo : ∀ worker, (s.mailboxes worker).Pairwise (fun a b => a.position < b.position)
  accounted : ∀ d, s.actor = some d → ∀ p k, (p, k) ∈ s.dispatched →
    p ∈ s.handled ∨ (workerFor cfg.hash k, p) ∈ s.down ∨
      ∃ message, message ∈ s.mailboxes (workerFor cfg.hash k) ∧ message.position = p
  announced : ∀ failure ∈ s.down, ∃ message, WorkerAck.error failure.2 message ∈ s.acks
  known : ∀ p, p ∈ s.handled → ∃ k, (p, k) ∈ s.dispatched
  order : InOrder s

variable {cfg : Config V} {s t : System}

theorem workerFor_lane {hash : String → Nat} {a b : PartitionKey} (same : lane a = lane b) :
    workerFor hash a = workerFor hash b := by
  cases a <;> cases b <;> simp_all [lane, workerFor]

theorem isUp_iff {worker : WorkerId} :
    isUp s worker = true ↔ ∀ p, (worker, p) ∉ s.down := by
  simp only [isUp, List.all_eq_true, decide_eq_true_eq]
  constructor
  · exact fun up p stopped => up (worker, p) stopped rfl
  · rintro up ⟨other, p⟩ stopped rfl
    exact up p stopped

theorem not_noticed {worker : WorkerId}
    (announced : ∀ failure ∈ s.down, ∃ message, WorkerAck.error failure.2 message ∈ s.acks)
    (stopped : isUp s worker = false) : deathNoticed s worker = false := by
  obtain ⟨p, failed⟩ : ∃ p, (worker, p) ∈ s.down := by
    by_contra none
    have up := isUp_iff.mpr fun p stopped => none ⟨p, stopped⟩
    rw [up] at stopped
    exact absurd stopped (by simp)
  obtain ⟨message, waits⟩ := announced (worker, p) failed
  apply Bool.eq_false_iff.mpr
  intro noticed
  have every := List.all_eq_true.mp noticed (worker, p) failed
  simp only [ne_eq, not_true_eq_false, decide_false, Bool.false_or] at every
  have gone := List.all_eq_true.mp every _ waits
  simp [WorkerAck.failsAt] at gone

theorem inv_crash (writes : List (Option Nat × Nat)) (shredded : List Nat) (acks : List WorkerAck)
    (inv : Inv cfg s) :
    Inv cfg (crash { s with writes := writes, shredded := shredded, acks := acks }) where
  tidy := tidy_crash inv.tidy.stored
  idle := fun _ _ => rfl
  behind := fun _ live => absurd live (by simp [crash])
  ascending := inv.ascending
  routed := fun _ _ member => absurd member (by simp [crash])
  fifo := fun _ => List.Pairwise.nil
  accounted := fun _ live => absurd live (by simp [crash])
  announced := fun _ member => absurd member (by simp [crash])
  known := inv.known
  order := inv.order

theorem inv_applyAck {d d' : Dispatcher} (shredded : List Nat) (acks : List WorkerAck)
    {position : Nat} {commits : Bool} (inv : Inv cfg s) (live : s.actor = some d)
    (tidy : TidyActor cfg { s with shredded := shredded, acks := acks } d')
    (delivered : position ≤ d'.progress.cursor) (cursor : d'.progress.cursor = d.progress.cursor)
    (later : ∀ q e, (q, e) ∈ d'.batch → (q, e) ∈ d.batch)
    (waiting : ∀ p message, WorkerAck.error p message ∈ s.acks → .error p message ∈ acks) :
    Inv cfg (applyAck { s with shredded := shredded, acks := acks } d' position commits) := by
  have tidyAfter : Tidy cfg
      (applyAck { s with shredded := shredded, acks := acks } d' position commits) :=
    tidy_applyAck (s := { s with shredded := shredded, acks := acks }) inv.tidy.stored tidy
      delivered
  have crashed : ∀ writes,
      Inv cfg (crash { s with writes := writes, shredded := shredded, acks := acks }) :=
    fun writes => inv_crash writes shredded acks inv
  rcases applyAck_cases position commits tidy.synced with
    stopped | ⟨watermark, writes, _, _, result⟩
  · rw [stopped]
    exact crashed s.writes
  · rcases result with stopped | ⟨row, _, _, _, applied⟩
    · rw [stopped]
      exact crashed (s.writes ++ writes)
    · rw [applied] at tidyAfter ⊢
      refine { inv with
        tidy := tidyAfter
        idle := fun dead => absurd dead (by simp)
        behind := ?_
        accounted := fun _ _ => inv.accounted d live
        announced := fun failure stopped =>
          (inv.announced failure stopped).imp fun message waits => waiting _ message waits }
      intro d'' live' p k member
      obtain rfl := Option.some.inj live'
      obtain ⟨bound, before⟩ := inv.behind d live p k member
      constructor
      · rw [cursor]
        exact bound
      · exact fun q e waiting => before q e (later q e waiting)

theorem inv_sent {d : Dispatcher} {entry : Nat × Event} {rest : List (Nat × Event)}
    {key : PartitionKey} {message : ProcessEvent} (inv : Inv cfg s) (live : s.actor = some d)
    (next : d.batch = entry :: rest) (position : message.position = entry.1)
    (tidy : Tidy cfg (sendEvent cfg.hash s d rest key message)) :
    Inv cfg (sendEvent cfg.hash s d rest key message) := by
  have old := inv.tidy.actor d live
  obtain ⟨bound, later, above, _⟩ := tidy_rest old next
  have here : entry ∈ d.batch := by
    rw [next]
    exact List.mem_cons_self
  have before : ∀ p k, (p, k) ∈ s.dispatched → p < message.position := by
    intro p k member
    rw [position]
    exact (inv.behind d live p k member).2 entry.1 entry.2 here
  refine ⟨tidy, fun dead => absurd dead (by simp [sendEvent]), ?_, ?_, ?_, ?_, ?_, inv.announced,
    ?_, ?_⟩
  · intro d' live' p k member
    obtain rfl := Option.some.inj live'
    rcases List.mem_append.mp member with sent | new
    · obtain ⟨low, ahead⟩ := inv.behind d live p k sent
      exact ⟨low, fun q e waiting => ahead q e (later q e waiting)⟩
    · obtain ⟨rfl, rfl⟩ := Prod.mk.inj (List.mem_singleton.mp new)
      rw [position]
      exact ⟨bound, above⟩
  · refine List.pairwise_append.mpr ⟨inv.ascending, List.pairwise_singleton _ _, ?_⟩
    rintro ⟨p, k⟩ member other new
    obtain rfl := List.mem_singleton.mp new
    exact before p k member
  · intro worker queued member
    rcases queued_sent.mp member with waiting | ⟨target, rfl⟩
    · obtain ⟨k, sent, routed⟩ := inv.routed worker queued waiting
      exact ⟨k, List.mem_append_left _ sent, routed⟩
    · exact ⟨key, List.mem_append_right _ List.mem_cons_self, target.symm⟩
  · intro worker
    by_cases same : worker = workerFor cfg.hash key
    · subst same
      simp only [sendEvent, Function.update_self]
      refine List.pairwise_append.mpr ⟨inv.fifo _, List.pairwise_singleton _ _, ?_⟩
      intro queued member other new
      obtain rfl := List.mem_singleton.mp new
      obtain ⟨k, sent, _⟩ := inv.routed _ queued member
      exact before queued.position k sent
    · simp only [sendEvent, Function.update_of_ne same]
      exact inv.fifo worker
  · intro d' _ p k member
    rcases List.mem_append.mp member with sent | new
    · rcases inv.accounted d live p k sent with done | failed | ⟨queued, waiting, same⟩
      · exact Or.inl done
      · exact Or.inr (Or.inl failed)
      · exact Or.inr (Or.inr ⟨queued, queued_sent.mpr (Or.inl waiting), same⟩)
    · obtain ⟨rfl, rfl⟩ := Prod.mk.inj (List.mem_singleton.mp new)
      exact Or.inr (Or.inr ⟨message, queued_sent.mpr (Or.inr ⟨rfl, rfl⟩), rfl⟩)
  · intro p member
    obtain ⟨k, sent⟩ := inv.known p member
    exact ⟨k, List.mem_append_left _ sent⟩
  · intro p k handled sent q k' other sameLane less
    obtain ⟨known, old⟩ := inv.known p handled
    have strict := before p known old
    have sentBefore : ∀ r j, (r, j) ∈ s.dispatched ++ [(message.position, key)] →
        r ≤ p → (r, j) ∈ s.dispatched := by
      intro r j member low
      rcases List.mem_append.mp member with here | new
      · exact here
      · obtain ⟨rfl, rfl⟩ := Prod.mk.inj (List.mem_singleton.mp new)
        omega
    exact inv.order p k handled (sentBefore p k sent (Nat.le_refl p)) q k'
      (sentBefore q k' other (Nat.le_of_lt less)) sameLane less

theorem down_worked {worker : WorkerId} {message : ProcessEvent} {rest : List ProcessEvent}
    {outcome : HandlerOutcome} {failure : WorkerId × Nat} :
    failure ∈ (workStep s worker message rest outcome).down ↔
      failure ∈ s.down ∨ (outcome.stops = true ∧ failure = (worker, message.position)) := by
  cases stops : outcome.stops <;> simp [workStep, stops]

theorem accounted_worked {worker : WorkerId} {message : ProcessEvent} {rest : List ProcessEvent}
    {outcome : HandlerOutcome} (mailbox : s.mailboxes worker = message :: rest) {p : Nat}
    (before : p ∈ s.handled ∨ (worker, p) ∈ s.down ∨
      ∃ queued, queued ∈ s.mailboxes worker ∧ queued.position = p) :
    p ∈ (workStep s worker message rest outcome).handled ∨
      (worker, p) ∈ (workStep s worker message rest outcome).down ∨
      ∃ queued, queued ∈ (workStep s worker message rest outcome).mailboxes worker ∧
        queued.position = p := by
  rcases before with done | stopped | ⟨queued, waiting, same⟩
  · exact Or.inl (handled_worked.mpr (Or.inl done))
  · exact Or.inr (Or.inl (down_worked.mpr (Or.inl stopped)))
  · rcases (queued_worked mailbox).mp waiting with still | ⟨_, rfl⟩
    · exact Or.inr (Or.inr ⟨queued, still, same⟩)
    · cases outcome with
      | ok => exact Or.inl (handled_worked.mpr (Or.inr ⟨rfl, same.symm⟩))
      | failed text => exact Or.inr (Or.inl (down_worked.mpr (Or.inr ⟨rfl, by rw [same]⟩)))
      | blewUp done text => exact Or.inr (Or.inl (down_worked.mpr (Or.inr ⟨rfl, by rw [same]⟩)))

/-- The turn of a worker that is up finds the earlier events of its lane handled: they
    passed through the same mailbox, and none of them stopped the worker. -/
theorem order_worked {worker : WorkerId} {message : ProcessEvent} {rest : List ProcessEvent}
    (inv : Inv cfg s) (up : isUp s worker = true) (mailbox : s.mailboxes worker = message :: rest)
    {k k' : PartitionKey} {q : Nat} (sent : (message.position, k) ∈ s.dispatched)
    (routed : workerFor cfg.hash k = worker) (other : (q, k') ∈ s.dispatched)
    (sameLane : lane k' = lane k) (less : q < message.position) : q ∈ s.handled := by
  obtain ⟨d, live⟩ : ∃ d, s.actor = some d := by
    cases actor : s.actor with
    | none => exact absurd (inv.idle actor worker) (by simp [mailbox])
    | some d => exact ⟨d, rfl⟩
  have queue := inv.fifo worker
  rw [mailbox] at queue
  have ahead := (List.pairwise_cons.mp queue).1
  have sameWorker : workerFor cfg.hash k' = worker := (workerFor_lane sameLane).trans routed
  rcases inv.accounted d live q k' other with done | stopped | ⟨queued, waiting, position⟩
  · exact done
  · rw [sameWorker] at stopped
    exact absurd stopped (isUp_iff.mp up q)
  · rw [sameWorker, mailbox] at waiting
    rcases List.mem_cons.mp waiting with taken | still
    · subst taken
      omega
    · have later := ahead queued still
      omega

theorem inv_worked {worker : WorkerId} {message : ProcessEvent} {rest : List ProcessEvent}
    {outcome : HandlerOutcome} (inv : Inv cfg s) (up : isUp s worker = true)
    (mailbox : s.mailboxes worker = message :: rest)
    (tidy : Tidy cfg (workStep s worker message rest outcome)) :
    Inv cfg (workStep s worker message rest outcome) := by
  have front : message ∈ s.mailboxes worker := by
    rw [mailbox]
    exact List.mem_cons_self
  have keepHandled : ∀ p, p ∈ s.handled → p ∈ (workStep s worker message rest outcome).handled :=
    fun p member => handled_worked.mpr (Or.inl member)
  have queue := inv.fifo worker
  rw [mailbox] at queue
  have tail := (List.pairwise_cons.mp queue).2
  obtain ⟨key, sent, routed⟩ := inv.routed worker message front
  refine ⟨tidy, ?_, inv.behind, inv.ascending, ?_, ?_, ?_, ?_, ?_, ?_⟩
  · intro dead w
    have empty := inv.idle dead worker
    rw [mailbox] at empty
    exact absurd empty (by simp)
  · intro w m member
    exact inv.routed w m ((queued_worked mailbox).mpr (Or.inl member))
  · intro w
    by_cases same : w = worker
    · subst same
      simpa only [workStep, Function.update_self] using tail
    · simpa only [workStep, Function.update_of_ne same] using inv.fifo w
  · intro d live p k member
    by_cases here : workerFor cfg.hash k = worker
    · have before := inv.accounted d live p k member
      rw [here] at before ⊢
      exact accounted_worked mailbox before
    · rcases inv.accounted d live p k member with done | stopped | ⟨queued, waiting, same⟩
      · exact Or.inl (keepHandled p done)
      · exact Or.inr (Or.inl (down_worked.mpr (Or.inl stopped)))
      · rcases (queued_worked mailbox).mp waiting with still | ⟨there, _⟩
        · exact Or.inr (Or.inr ⟨queued, still, same⟩)
        · exact absurd there here
  · intro failure stopped
    rcases down_worked.mp stopped with before | ⟨stops, rfl⟩
    · obtain ⟨text, waits⟩ := inv.announced failure before
      exact ⟨text, acked_worked.mpr (Or.inl waits)⟩
    · cases outcome with
      | ok => exact absurd stops (by simp [HandlerOutcome.stops])
      | failed text => exact ⟨text, acked_worked.mpr (Or.inr rfl)⟩
      | blewUp done text => exact ⟨text, acked_worked.mpr (Or.inr rfl)⟩
  · intro p member
    rcases handled_worked.mp member with before | ⟨_, rfl⟩
    · exact inv.known p before
    · exact ⟨key, sent⟩
  · intro p k handled sentP q k' sentQ sameLane less
    rcases handled_worked.mp handled with old | ⟨_, rfl⟩
    · exact keepHandled q (inv.order p k old sentP q k' sentQ sameLane less)
    · obtain rfl : k = key := ascending_unique inv.ascending sentP sent
      exact keepHandled q (order_worked inv up mailbox sent routed sentQ sameLane less)

theorem error_stays {acks : List WorkerAck} {index position p : Nat} {message : String}
    (found : acks[index]? = some (.ok position)) (waits : WorkerAck.error p message ∈ acks) :
    WorkerAck.error p message ∈ acks.eraseIdx index := by
  obtain ⟨i, there⟩ := List.mem_iff_getElem?.mp waits
  apply List.mem_eraseIdx_iff_getElem?.mpr
  refine ⟨i, ?_, there⟩
  rintro rfl
  rw [found] at there
  exact absurd there (by simp)

variable [DecidableEq V]

theorem inv_step {a : Action} (inv : Inv cfg s) (taken : step cfg s a = some t) : Inv cfg t := by
  have tidy := tidy_step inv.tidy taken
  cases moved_of_step taken with
  | appended events =>
    exact { inv with tidy := tidy }
  | started version idle =>
    refine ⟨tidy, fun _ _ => rfl, ?_, List.Pairwise.nil, ?_, fun _ => List.Pairwise.nil, ?_, ?_, ?_,
      ?_⟩
    · exact fun _ _ _ _ member => absurd member (by simp [startActor])
    · exact fun _ _ member => absurd member (by simp [startActor])
    · exact fun _ _ _ _ member => absurd member (by simp [startActor])
    · exact fun _ member => absurd member (by simp [startActor])
    · exact fun _ member => absurd member (by simp [startActor])
    · exact fun _ _ member => absurd member (by simp [startActor])
  | batched d upto live done forward inside =>
    refine { inv with
      tidy := tidy
      idle := fun dead => absurd dead (by simp [readBatch])
      behind := ?_
      accounted := fun _ _ => inv.accounted d live }
    intro d' live' p k member
    obtain rfl := Option.some.inj live'
    have bound := (inv.behind d live p k member).1
    constructor
    · exact Nat.le_trans bound forward
    · exact fun q e waiting => Nat.lt_of_le_of_lt bound (mem_window.mp waiting).2.1
  | skipped d entry rest commits live next shredded =>
    have old := inv.tidy.actor d live
    exact inv_applyAck _ s.acks inv live (tidy_skipping old next) (tidy_rest old next).1 rfl
      (tidy_rest old next).2.1 (fun _ _ waits => waits)
  | sent d entry rest key message live next plain position =>
    exact inv_sent inv live next position tidy
  | worked worker message rest outcome mailbox up => exact inv_worked inv up mailbox tidy
  | restarted worker d live stopped noticed =>
    rw [not_noticed inv.announced stopped] at noticed
    exact absurd noticed (by simp)
  | workedOrphan index message outcome =>
    exact { inv with tidy := tidy }
  | acked d index position commits live between found =>
    have old := inv.tidy.actor d live
    have bound : position ≤ d.progress.cursor :=
      old.acked (.ok position) (List.mem_of_getElem? found)
    exact inv_applyAck s.shredded _ inv live (tidy_received old index) bound rfl
      (fun _ _ member => member) (fun _ _ waits => error_stays found waits)
  | crashed => exact inv_crash s.writes s.shredded s.acks inv

omit [DecidableEq V] in
theorem inv_initial (cfg : Config V) (log : List Event) : Inv cfg (initial log) where
  tidy := tidy_initial cfg log
  idle := fun _ _ => rfl
  behind := fun _ live => absurd live (by simp [initial])
  ascending := List.Pairwise.nil
  routed := fun _ _ member => absurd member (by simp [initial])
  fifo := fun _ => List.Pairwise.nil
  accounted := fun _ live => absurd live (by simp [initial])
  announced := fun _ member => absurd member (by simp [initial])
  known := fun _ member => absurd member (by simp [initial])
  order := fun _ _ member => absurd member (by simp [initial])

end UmariPartitionOrder
