import Umari.ProjectionResults

/-!
A projection comes to an end. No order of steps leaves the three parties waiting for
each other, every step brings the run closer to its end, and an interrupt is enough
to end an evaluation that would go on for ever. What the run holds of the scan at any
time is bounded by the channels, not by the scan.
-/
namespace UmariProjectionRuns
open BoundedChannels GuardedRuns UmariEventStore UmariStoredEvents
variable {V J σ : Type}

def Action.ofParty : Action → Prop
  | .reader | .feeder | .worker => True
  | _ => False

structure Ended (s : State V σ) : Prop where
  reader : s.reader = .unspawned ∨ s.reader.finished = true
  feeder : s.feeder.running = false
  worker : s.worker = .exited

def Worker.Endless (job : Job V J σ) : Worker σ → Prop
  | .starting => job.script.setup = none
  | .folding state json => job.script.runBatch state json = none
  | .finishing state => job.script.finish state = none
  | _ => False

def Job.scan (job : Job V J σ) : List (Except String (Nat × Event)) :=
  match job.script.setup with
  | some (.ok (_, eventsJson)) =>
    match job.query eventsJson with
    | .ok query => job.read query job.limit
    | .error _ => []
  | _ => []

/-- The parties are wired up: a party that waits for another one can be reached by it. -/
structure Wired (job : Job V J σ) (s : State V σ) : Prop where
  spawned : s.feeder.holdsRaw = true ∨ s.feeder = .joining → s.reader ≠ .unspawned
  prepared : s.feeder = .awaitingSetup → s.setup = none → s.worker = .starting
  setup : ∀ eventsJson, s.setup = some (.ok eventsJson) →
    ∃ state, job.script.setup = pure (state, eventsJson)

section wiring
variable {job : Job V J σ} {s t : State V σ}

theorem wired_start : Wired job start := ⟨by simp [start, Feeder.holdsRaw], fun _ _ => rfl, nofun⟩

theorem wired_leave (wired : Wired job s)
    (outcome : Except ProjectionError (ProjectionOutcome V)) : Wired job (s.leave outcome) :=
  ⟨by simp [State.leave, Feeder.holdsRaw], nofun, wired.setup⟩

theorem wired_reader (wired : Wired job s) (taken : stepReader s = some t) : Wired job t := by
  obtain ⟨_, after, raw, rfl, spawned, _⟩ := stepReader_reads taken
  exact ⟨fun _ => spawned, wired.prepared, wired.setup⟩

theorem wired_feeder (wired : Wired job s) (taken : stepFeeder job s = some t) : Wired job t := by
  unfold stepFeeder at taken
  cases stands : s.feeder with
  | awaitingSetup =>
    simp only [stands] at taken
    split at taken
    · split at taken
      · cases taken
        exact wired_leave wired _
      · cases taken
        exact ⟨fun _ => nofun, nofun, wired.setup⟩
    · cases taken
      exact wired_leave wired _
    · split at taken
      · cases taken
        exact wired_leave wired _
      · cases taken
  | receiving =>
    have spawned := wired.spawned (Or.inl (by rw [stands]; rfl))
    simp only [stands] at taken
    split at taken
    · split at taken
      · cases taken
        exact ⟨fun _ => spawned, nofun, wired.setup⟩
      · cases taken
        exact wired_leave wired _
    · split at taken
      · cases taken
        exact ⟨fun _ => spawned, nofun, wired.setup⟩
      · cases taken
  | sending json =>
    have spawned := wired.spawned (Or.inl (by rw [stands]; rfl))
    simp only [stands] at taken
    split at taken
    · cases taken
      exact ⟨fun _ => spawned, nofun, wired.setup⟩
    · obtain ⟨batches, _, rfl⟩ := Option.map_eq_some_iff.mp taken
      exact ⟨fun _ => spawned, nofun, wired.setup⟩
  | joining =>
    simp only [stands] at taken
    split at taken
    · cases taken
      exact ⟨by simp [Feeder.holdsRaw], nofun, wired.setup⟩
    · cases taken
      exact wired_leave wired _
    · cases taken
  | waiting =>
    simp only [stands] at taken
    split at taken
    · cases taken
      exact wired_leave wired _
    · cases taken
      exact wired_leave wired _
    · split at taken
      · cases taken
        exact wired_leave wired _
      · cases taken
  | returned result =>
    simp only [stands] at taken
    cases taken

theorem wired_working (wired : Wired job s) (begun : s.worker ≠ .starting) (worker : Worker σ)
    (batches : Channel String batchChannelCap)
    (result : Option (Except String (String × List String))) :
    Wired job { s with worker := worker, batches := batches, result := result } :=
  ⟨wired.spawned, fun awaits missing => absurd (wired.prepared awaits missing) begun, wired.setup⟩

theorem wired_worker (wired : Wired job s) (taken : stepWorker job s = some t) : Wired job t := by
  unfold stepWorker at taken
  split at taken
  · split at taken
    · cases taken
    · cases taken
      exact ⟨wired.spawned, nofun, nofun⟩
    · rename_i state eventsJson setup
      split at taken
      · cases taken
        refine ⟨wired.spawned, nofun, ?_⟩
        intro declared same
        cases same
        exact ⟨state, setup⟩
      · rename_i gone
        cases taken
        refine ⟨wired.spawned, ?_, wired.setup⟩
        intro awaits
        change s.feeder = .awaitingSetup at awaits
        simp [awaits, Feeder.running] at gone
  · rename_i stands
    split at taken
    · cases taken
      exact wired_working wired (by simp [stands]) _ _ _
    · split at taken
      · cases taken
      · cases taken
        exact wired_working wired (by simp [stands]) _ _ _
  · rename_i stands
    split at taken
    · cases taken
    · cases taken
      exact wired_working wired (by simp [stands]) _ _ _
    · cases taken
      exact wired_working wired (by simp [stands]) _ _ _
  · rename_i stands
    split at taken
    · cases taken
    · cases taken
      exact wired_working wired (by simp [stands]) _ _ _
  · rename_i stands
    cases taken
    exact wired_working wired (by simp [stands]) _ _ _
  · cases taken

theorem wired_interrupt {message : String} (wired : Wired job s)
    (taken : interrupt s message = some t) : Wired job t := by
  unfold interrupt at taken
  split at taken
  · cases taken
    exact ⟨wired.spawned, nofun, nofun⟩
  · rename_i stands
    cases taken
    exact wired_working wired (by simp [stands]) _ _ _
  · rename_i stands
    cases taken
    exact wired_working wired (by simp [stands]) _ _ _
  · cases taken

theorem wired_step {a : Action} (wired : Wired job s) (taken : step job s a = some t) :
    Wired job t := by
  cases a with
  | reader => exact wired_reader wired taken
  | feeder => exact wired_feeder wired taken
  | worker => exact wired_worker wired taken
  | interrupt message => exact wired_interrupt wired taken
  | timeout =>
    rw [step, timeout] at taken
    split at taken
    · cases taken
      exact wired_leave wired _
    · cases taken

theorem wired_run {labels : List Action} (run : exec (step job) start labels = some s) :
    Wired job s := invariant wired_step wired_start run

end wiring

section progress
variable {job : Job V J σ} {s : State V σ}

/-- A reader that is on its way can go on while the raw channel has room, or when
    nobody holds its receiver any more. -/
theorem reader_moves (spawned : s.reader ≠ .unspawned) (running : s.reader.finished = false)
    (room : s.feeder.holdsRaw = true → s.raw.queue = []) : stepReader s ≠ none := by
  have sends : ∀ batch next, s.send batch next ≠ none := by
    intro batch next
    rw [State.send]
    split
    · rename_i held
      have empty := room held
      rw [ne_eq, Option.map_eq_none_iff, Channel.push_none, empty]
      decide
    · exact Option.some_ne_none _
  unfold stepReader
  cases stands : s.reader with
  | unspawned => exact absurd stands spawned
  | scanning rest batch =>
    cases rest with
    | nil => cases batch <;> exact Option.some_ne_none _
    | cons entry rest => cases entry <;> exact Option.some_ne_none _
  | sending rest batch => exact sends batch _
  | last batch => exact sends batch _
  | returned result =>
    rw [stands] at running
    cases running

theorem worker_moves (stuck : stepWorker job s = none) : s.worker.Endless job ∨
    s.worker = .exited ∨ ∃ state, s.worker = .receiving state ∧ s.batches.queue = [] ∧
      s.feeder.holdsBatches = true := by
  unfold stepWorker at stuck
  cases stands : s.worker with
  | starting =>
    left
    simp only [stands] at stuck
    split at stuck
    · assumption
    · cases stuck
    · split at stuck <;> cases stuck
  | receiving state =>
    right; right
    simp only [stands] at stuck
    split at stuck
    · cases stuck
    · rename_i popped
      split at stuck
      · rename_i held
        exact ⟨state, rfl, Channel.pop_none.mp popped, held⟩
      · cases stuck
  | folding state json =>
    left
    simp only [stands] at stuck
    split at stuck
    · assumption
    all_goals cases stuck
  | finishing state =>
    left
    simp only [stands] at stuck
    split at stuck
    · assumption
    · cases stuck
  | sent =>
    simp only [stands] at stuck
    cases stuck
  | exited => exact Or.inr (Or.inl rfl)

theorem feeder_moves (stuck : stepFeeder job s = none) :
    (s.feeder = .awaitingSetup ∧ s.setup = none) ∨
    (s.feeder = .receiving ∧ s.raw.queue = [] ∧ s.reader.finished = false) ∨
    (∃ json, s.feeder = .sending json ∧ s.worker.stopped = false ∧ s.batches.queue ≠ []) ∨
    (s.feeder = .joining ∧ s.reader.finished = false) ∨
    (s.feeder = .waiting ∧ s.worker.stopped = false) ∨ s.feeder.running = false := by
  unfold stepFeeder at stuck
  cases stands : s.feeder with
  | awaitingSetup =>
    left
    simp only [stands] at stuck
    split at stuck
    · split at stuck <;> cases stuck
    · cases stuck
    · exact ⟨rfl, by assumption⟩
  | receiving =>
    right; left
    simp only [stands] at stuck
    split at stuck
    · split at stuck <;> cases stuck
    · rename_i popped
      split at stuck
      · cases stuck
      · rename_i running
        exact ⟨rfl, Channel.pop_none.mp popped, Bool.eq_false_iff.mpr running⟩
  | sending json =>
    right; right; left
    simp only [stands] at stuck
    split at stuck
    · cases stuck
    · rename_i present
      have full := Channel.push_none.mp (Option.map_eq_none_iff.mp stuck)
      refine ⟨json, rfl, Bool.eq_false_iff.mpr present, ?_⟩
      intro empty
      rw [empty] at full
      cases full
  | joining =>
    right; right; right; left
    simp only [stands] at stuck
    split at stuck
    · cases stuck
    · cases stuck
    · rename_i unreturned failing
      refine ⟨rfl, ?_⟩
      cases reads : s.reader with
      | returned result =>
        cases result with
        | ok finished => exact absurd reads (unreturned ·)
        | error err => exact absurd reads (failing err ·)
      | _ => rfl
  | waiting =>
    right; right; right; right; left
    simp only [stands] at stuck
    split at stuck
    · cases stuck
    · cases stuck
    · split at stuck
      · cases stuck
      · rename_i present
        exact ⟨rfl, Bool.eq_false_iff.mpr present⟩
  | returned result => simp [Feeder.running]

theorem wired_progress (wired : Wired job s) (reader : stepReader s = none)
    (feeder : stepFeeder job s = none) (worker : stepWorker job s = none) :
    Ended s ∨ s.worker.Endless job := by
  have reads : (s.feeder.holdsRaw = true → s.raw.queue = []) → s.reader.finished = false →
      s.reader = .unspawned := by
    intro room running
    by_contra spawned
    exact reader_moves spawned running room reader
  rcases worker_moves worker with endless | exited | ⟨state, receives, unfed, held⟩
  · exact Or.inr endless
  · left
    have stopped : s.worker.stopped = true := by rw [exited]; rfl
    rcases feeder_moves feeder with ⟨awaits, missing⟩ | ⟨receives, unread, running⟩ |
      ⟨json, _, present, _⟩ | ⟨joins, running⟩ | ⟨_, present⟩ | returned
    · have begins := wired.prepared awaits missing
      rw [exited] at begins
      cases begins
    · exact absurd (reads (fun _ => unread) running)
        (wired.spawned (Or.inl (by rw [receives]; rfl)))
    · rw [stopped] at present
      cases present
    · exact absurd (reads (by simp [joins, Feeder.holdsRaw]) running) (wired.spawned (Or.inr joins))
    · rw [stopped] at present
      cases present
    · refine ⟨?_, returned, exited⟩
      by_cases running : s.reader.finished = true
      · exact Or.inr running
      · left
        refine reads ?_ (Bool.eq_false_iff.mpr running)
        cases stands : s.feeder with
        | returned => exact nofun
        | _ => rw [stands] at returned; cases returned
  · have present : s.worker.stopped = false := by rw [receives]; rfl
    rcases feeder_moves feeder with ⟨awaits, missing⟩ | ⟨receives, unread, running⟩ |
      ⟨json, _, _, full⟩ | ⟨joins, _⟩ | ⟨waits, _⟩ | returned
    · have begins := wired.prepared awaits missing
      rw [receives] at begins
      cases begins
    · exact absurd (reads (fun _ => unread) running)
        (wired.spawned (Or.inl (by rw [receives]; rfl)))
    · exact absurd unfed full
    · simp [joins, Feeder.holdsBatches] at held
    · simp [waits, Feeder.holdsBatches] at held
    · cases stands : s.feeder with
      | returned => simp [stands, Feeder.holdsBatches] at held
      | _ => rw [stands] at returned; cases returned

end progress
/-- What is left for a party to do; an entry costs less the closer it is to the worker. -/
def Reader.weight : Reader → Nat
  | .unspawned => 0
  | .scanning rest [] => 6 * rest.length + 1
  | .scanning rest (_ :: _) => 6 * rest.length + 6
  | .sending rest _ => 6 * rest.length + 6
  | .last _ => 5
  | .returned _ => 0

def Feeder.weight (scanned : Nat) : Feeder V → Nat
  | .awaitingSetup => 6 * scanned + 5
  | .receiving => 3
  | .sending _ => 6
  | .joining => 2
  | .waiting => 1
  | .returned _ => 0

def Worker.weight : Worker σ → Nat
  | .starting => 4
  | .receiving _ => 3
  | .folding _ _ => 4
  | .finishing _ => 2
  | .sent => 1
  | .exited => 0

def State.weight (job : Job V J σ) (s : State V σ) : Nat :=
  s.reader.weight + s.feeder.weight job.scan.length + s.worker.weight +
    4 * s.raw.queue.length + 2 * s.batches.queue.length

section weights
variable {job : Job V J σ} {s t : State V σ}

@[simp] theorem Reader.weight_returned (result : Except String Unit) :
    (Reader.returned result).weight = 0 := rfl

@[simp] theorem Feeder.weight_returned (scanned : Nat)
    (outcome : Except ProjectionError (ProjectionOutcome V)) :
    (Feeder.returned outcome).weight scanned = 0 := rfl

theorem leave_lighter (running : s.feeder.running = true)
    (outcome : Except ProjectionError (ProjectionOutcome V)) :
    (s.leave outcome).weight job < s.weight job := by
  have positive : 0 < s.feeder.weight job.scan.length := by
    cases stands : s.feeder with
    | returned result => rw [stands] at running; cases running
    | awaitingSetup => exact Nat.succ_pos _
    | _ => simp [Feeder.weight]
  simp only [State.weight, State.leave, Feeder.weight_returned, Channel.queue_empty,
    List.length_nil]
  omega

theorem send_lighter {batch : List (Nat × Event)} {next : Reader}
    (handed : next.weight + 4 < s.reader.weight) (sent : s.send batch next = some t) :
    t.weight job < s.weight job := by
  rw [State.send] at sent
  split at sent
  · obtain ⟨raw, pushed, rfl⟩ := Option.map_eq_some_iff.mp sent
    simp only [State.weight, Channel.push_some pushed, List.length_append, List.length_singleton]
    omega
  · cases sent
    simp only [State.weight, Reader.weight_returned]
    omega

theorem reader_lighter (taken : stepReader s = some t) : t.weight job < s.weight job := by
  unfold stepReader at taken
  split at taken
  · cases taken
  · rename_i stands
    cases taken
    simp only [State.weight, stands, Reader.weight]
    omega
  · rename_i batch nonempty stands
    cases taken
    cases batch with
    | nil => exact absurd rfl nonempty
    | cons entry batch =>
      simp only [State.weight, stands, Reader.weight]
      omega
  · rename_i err rest batch stands
    cases taken
    have positive : 0 < (Reader.scanning (.error err :: rest) batch).weight := by
      cases batch <;> exact Nat.succ_pos _
    simp only [State.weight, stands, Reader.weight_returned]
    omega
  · rename_i entry rest batch stands
    cases taken
    have grown : batch ++ [entry] ≠ [] := by simp
    have after : (if readBatch ≤ (batch ++ [entry]).length then
        Reader.sending rest (batch ++ [entry]) else .scanning rest (batch ++ [entry])).weight =
          6 * rest.length + 6 := by
      split
      · rfl
      · obtain ⟨first, others, same⟩ := List.exists_cons_of_ne_nil grown
        rw [same]
        rfl
    have before : 6 * rest.length + 6 < (Reader.scanning (.ok entry :: rest) batch).weight := by
      cases batch <;> simp only [Reader.weight, List.length_cons] <;> omega
    simp only [State.weight, after, stands]
    omega
  · rename_i rest batch stands
    apply send_lighter ?_ taken
    simp only [stands, Reader.weight]
    omega
  · rename_i batch stands
    apply send_lighter ?_ taken
    simp only [stands, Reader.weight]
    omega
  · cases taken

theorem scan_declared {eventsJson : String} {query : Query} (wired : Wired job s)
    (setup : s.setup = some (.ok eventsJson)) (declared : job.query eventsJson = .ok query) :
    job.scan = job.read query job.limit := by
  obtain ⟨state, same⟩ := wired.setup eventsJson setup
  have shape : job.script.setup = some (.ok (state, eventsJson)) := same
  simp only [Job.scan, shape, declared]

theorem feeder_lighter (wired : Wired job s) (taken : stepFeeder job s = some t) :
    t.weight job < s.weight job := by
  have leaves : ∀ {outcome}, s.feeder.running = true → some (s.leave outcome) = some t →
      t.weight job < s.weight job := by
    intro outcome running left
    cases left
    exact leave_lighter running outcome
  unfold stepFeeder at taken
  cases stands : s.feeder with
  | awaitingSetup =>
    have running : s.feeder.running = true := by rw [stands]; rfl
    simp only [stands] at taken
    split at taken
    · rename_i eventsJson setup
      split at taken
      · exact leaves running taken
      · rename_i query declared
        cases taken
        simp only [State.weight, stands, Feeder.weight, Reader.weight,
          scan_declared wired setup declared]
        omega
    · exact leaves running taken
    · split at taken
      · exact leaves running taken
      · cases taken
  | receiving =>
    have running : s.feeder.running = true := by rw [stands]; rfl
    simp only [stands] at taken
    split at taken
    · rename_i batch raw popped
      split at taken
      · cases taken
        simp only [State.weight, stands, Feeder.weight, Channel.pop_some.mp popped,
          List.length_cons]
        omega
      · exact leaves running taken
    · split at taken
      · cases taken
        simp only [State.weight, stands, Feeder.weight]
        omega
      · cases taken
  | sending json =>
    simp only [stands] at taken
    split at taken
    · cases taken
      simp only [State.weight, stands, Feeder.weight, Channel.queue_empty, List.length_nil]
      omega
    · obtain ⟨batches, pushed, rfl⟩ := Option.map_eq_some_iff.mp taken
      simp only [State.weight, stands, Feeder.weight, Channel.push_some pushed, List.length_append,
        List.length_singleton]
      omega
  | joining =>
    have running : s.feeder.running = true := by rw [stands]; rfl
    simp only [stands] at taken
    split at taken
    · cases taken
      simp only [State.weight, stands, Feeder.weight]
      omega
    · exact leaves running taken
    · cases taken
  | waiting =>
    have running : s.feeder.running = true := by rw [stands]; rfl
    simp only [stands] at taken
    split at taken
    · exact leaves running taken
    · exact leaves running taken
    · split at taken
      · exact leaves running taken
      · cases taken
  | returned result =>
    simp only [stands] at taken
    cases taken

theorem worker_lighter (taken : stepWorker job s = some t) : t.weight job < s.weight job := by
  unfold stepWorker at taken
  split at taken
  · rename_i stands
    split at taken
    · cases taken
    · cases taken
      simp only [State.weight, stands, Worker.weight]
      omega
    · split at taken
      all_goals
        cases taken
        simp only [State.weight, stands, Worker.weight]
        omega
  · rename_i stands
    split at taken
    · rename_i json batches popped
      cases taken
      simp only [State.weight, stands, Worker.weight, Channel.pop_some.mp popped, List.length_cons]
      omega
    · split at taken
      · cases taken
      · cases taken
        simp only [State.weight, stands, Worker.weight]
        omega
  · rename_i stands
    split at taken
    · cases taken
    all_goals
      cases taken
      simp only [State.weight, stands, Worker.weight]
      omega
  · rename_i stands
    split at taken
    · cases taken
    · cases taken
      simp only [State.weight, stands, Worker.weight]
      omega
  · rename_i stands
    cases taken
    simp only [State.weight, stands, Worker.weight, Channel.queue_empty, List.length_nil]
    omega
  · cases taken

theorem interrupt_lighter {message : String} (taken : interrupt s message = some t) :
    t.weight job < s.weight job := by
  unfold interrupt at taken
  split at taken
  · rename_i stands
    cases taken
    simp only [State.weight, stands, Worker.weight]
    omega
  · rename_i stands
    cases taken
    simp only [State.weight, stands, Worker.weight]
    omega
  · rename_i stands
    cases taken
    simp only [State.weight, stands, Worker.weight]
    omega
  · cases taken

theorem step_lighter {a : Action} (wired : Wired job s) (taken : step job s a = some t) :
    t.weight job < s.weight job := by
  cases a with
  | reader => exact reader_lighter taken
  | feeder => exact feeder_lighter wired taken
  | worker => exact worker_lighter taken
  | interrupt message => exact interrupt_lighter taken
  | timeout =>
    rw [step, timeout] at taken
    split at taken
    · rename_i running
      cases taken
      exact leave_lighter running _
    · cases taken

end weights

structure Script.Terminates (script : Script J σ) : Prop where
  setup : script.setup ≠ none
  batch : ∀ state json, script.runBatch state json ≠ none
  finish : ∀ state, script.finish state ≠ none

section completion
variable {job : Job V J σ} {labels : List Action} {s : State V σ}

theorem not_endless (terminates : job.script.Terminates) (worker : Worker σ) :
    ¬ worker.Endless job := by
  cases worker with
  | starting => exact terminates.setup
  | folding state json => exact terminates.batch state json
  | finishing state => exact terminates.finish state
  | _ => exact id

theorem endless_interrupted (endless : s.worker.Endless job) (message : String) :
    ∃ t, step job s (.interrupt message) = some t := by
  cases stands : s.worker with
  | starting | folding | finishing => exact ⟨_, by rw [step, interrupt, stands]⟩
  | _ => rw [stands] at endless; exact endless.elim

theorem party_moves (wired : Wired job s) : (Ended s ∨ s.worker.Endless job) ∨
    ∃ a t, a.ofParty ∧ step job s a = some t := by
  cases reader : stepReader s with
  | some t => exact Or.inr ⟨.reader, t, trivial, reader⟩
  | none =>
    cases feeder : stepFeeder job s with
    | some t => exact Or.inr ⟨.feeder, t, trivial, feeder⟩
    | none =>
      cases worker : stepWorker job s with
      | some t => exact Or.inr ⟨.worker, t, trivial, worker⟩
      | none => exact Or.inl (wired_progress wired reader feeder worker)

/-- The parties never wait for each other: when none of them can go on, all have ended
    or the script is at something endless. -/
theorem run_never_stuck (run : exec (step job) start labels = some s)
    (stuck : ∀ a, a.ofParty → step job s a = none) : Ended s ∨ s.worker.Endless job := by
  rcases party_moves (wired_run run) with closed | ⟨a, t, party, taken⟩
  · exact closed
  · rw [stuck a party] at taken
    cases taken

/-- A run is no longer than its scan allows; interrupts at most bring it to its end, and
    the parties alone do so when the script terminates. -/
theorem run_completes (run : exec (step job) start labels = some s) :
    labels.length ≤ 6 * job.scan.length + 9 ∧
      (∃ more t, (∀ a ∈ more, a ≠ .timeout) ∧ exec (step job) s more = some t ∧ Ended t) ∧
        (job.script.Terminates → ∃ more t, (∀ a ∈ more, a.ofParty) ∧
          exec (step job) s more = some t ∧ Ended t) := by
  have wired : Wired job s := wired_run run
  refine ⟨?_, ?_, fun terminates => ?_⟩
  · have bounded := TerminatingRuns.length_bounded wired_step step_lighter wired_start run
    have whole : State.weight job (start : State V σ) = 6 * job.scan.length + 9 := by
      simp only [State.weight, start, Reader.weight, Feeder.weight, Worker.weight,
        Channel.queue_empty, List.length_nil]
      omega
    omega
  · refine TerminatingRuns.completes wired_step step_lighter (fun {s} wired => ?_) wired
    rcases party_moves wired with (ended | endless) | ⟨a, t, party, taken⟩
    · exact Or.inl ended
    · obtain ⟨t, taken⟩ := endless_interrupted endless "interrupted"
      exact Or.inr ⟨.interrupt "interrupted", t, nofun, taken⟩
    · refine Or.inr ⟨a, t, ?_, taken⟩
      rintro rfl
      exact party
  · refine TerminatingRuns.completes wired_step step_lighter (fun {s} wired => ?_) wired
    rcases party_moves wired with (ended | endless) | moves
    · exact Or.inl ended
    · exact absurd endless (not_endless terminates s.worker)
    · exact Or.inr moves

end completion

def Reader.batch : Reader → List (Nat × Event)
  | .scanning _ batch => batch
  | .sending _ batch => batch
  | .last batch => batch
  | _ => []

def Worker.inHand : Worker σ → List String
  | .folding _ json => [json]
  | _ => []

/-- The lifted batches between the async side and the script, those being handled included. -/
def State.lifted (s : State V σ) : List String :=
  s.worker.inHand ++ s.batches.queue ++ s.feeder.inHand

structure Small (job : Job V J σ) (s : State V σ) : Prop where
  batch : s.reader.batch.length ≤ readBatch
  collecting : ∀ rest batch, s.reader = .scanning rest batch → batch.length < readBatch
  raw : ∀ batch ∈ s.raw.queue, batch.length ≤ readBatch
  lifted : ∀ json ∈ s.lifted, ∃ events : List (LiftedEvent V),
    events.length ≤ readBatch ∧ job.toJson events = .ok json

section sizes
variable {job : Job V J σ} {labels : List Action} {s t : State V σ}

theorem small_start : Small job start := by
  constructor
  · exact Nat.zero_le _
  · exact nofun
  · exact fun batch member => absurd member List.not_mem_nil
  · exact fun json member => absurd member List.not_mem_nil

theorem small_send {batch : List (Nat × Event)} {next : Reader} (held : s.reader.batch = batch)
    (empty : next.batch = []) (small : Small job s) (sent : s.send batch next = some t) :
    Small job t := by
  have free : ∀ rest later, next = .scanning rest later → later.length < readBatch := by
    intro rest later same
    rw [same] at empty
    rw [show later = [] from empty]
    decide
  rw [State.send] at sent
  split at sent
  · obtain ⟨raw, pushed, rfl⟩ := Option.map_eq_some_iff.mp sent
    refine ⟨by simp [empty], free, ?_, small.lifted⟩
    intro later member
    simp only [Channel.push_some pushed, List.mem_append, List.mem_singleton] at member
    rcases member with here | rfl
    · exact small.raw later here
    · exact held ▸ small.batch
  · cases sent
    exact ⟨Nat.zero_le _, by simp, small.raw, small.lifted⟩

theorem small_reader (small : Small job s) (taken : stepReader s = some t) : Small job t := by
  have held := small.batch
  unfold stepReader at taken
  split at taken
  · cases taken
  · cases taken
    exact ⟨Nat.zero_le _, nofun, small.raw, small.lifted⟩
  · rename_i stands
    cases taken
    rw [stands] at held
    exact ⟨held, nofun, small.raw, small.lifted⟩
  · cases taken
    exact ⟨Nat.zero_le _, nofun, small.raw, small.lifted⟩
  · rename_i entry rest batch stands
    cases taken
    have room := small.collecting _ _ stands
    have grown : (batch ++ [entry]).length = batch.length + 1 := by simp
    split
    · exact ⟨Nat.le_trans (Nat.le_of_eq grown) room, nofun, small.raw, small.lifted⟩
    · rename_i more
      refine ⟨Nat.le_trans (Nat.le_of_eq grown) room, ?_, small.raw, small.lifted⟩
      intro later collected same
      cases same
      omega
  · rename_i stands
    exact small_send (by rw [stands]; rfl) rfl small taken
  · rename_i stands
    exact small_send (by rw [stands]; rfl) rfl small taken
  · cases taken

theorem small_keep (small : Small job s) (reader : t.reader = s.reader)
    (raw : ∀ batch ∈ t.raw.queue, batch ∈ s.raw.queue)
    (lifted : ∀ json ∈ t.lifted, json ∈ s.lifted) : Small job t := by
  constructor
  · exact reader ▸ small.batch
  · exact reader ▸ small.collecting
  · exact fun batch member => small.raw batch (raw batch member)
  · exact fun json member => small.lifted json (lifted json member)

theorem small_leave (small : Small job s)
    (outcome : Except ProjectionError (ProjectionOutcome V)) : Small job (s.leave outcome) := by
  apply small_keep small
  · rfl
  · exact fun batch member => absurd member List.not_mem_nil
  · intro json member
    simp only [State.lifted, State.leave, Feeder.inHand, List.append_nil] at member
    exact List.mem_append_left _ member

theorem small_feeder (small : Small job s) (taken : stepFeeder job s = some t) : Small job t := by
  unfold stepFeeder at taken
  cases stands : s.feeder with
  | awaitingSetup =>
    simp only [stands] at taken
    split at taken
    · split at taken
      · cases taken
        exact small_leave small _
      · cases taken
        have lifted := small.lifted
        rw [State.lifted, stands] at lifted
        refine ⟨Nat.zero_le _, ?_, small.raw, lifted⟩
        intro rest batch same
        cases same
        decide
    · cases taken
      exact small_leave small _
    · split at taken
      · cases taken
        exact small_leave small _
      · cases taken
  | receiving =>
    simp only [stands] at taken
    split at taken
    · rename_i batch raw popped
      have queue := Channel.pop_some.mp popped
      split at taken
      · rename_i json written
        cases taken
        refine ⟨small.batch, small.collecting, ?_, ?_⟩
        · intro later member
          exact small.raw later (queue ▸ List.mem_cons_of_mem _ member)
        · intro other member
          simp only [State.lifted, Feeder.inHand, List.mem_append, List.mem_singleton] at member
          rcases member with before | rfl
          · exact small.lifted other (List.mem_append_left _ (List.mem_append.mpr before))
          · have whole := small.raw batch (queue ▸ List.mem_cons_self)
            have part : (job.lift batch).length ≤ batch.length := List.length_filterMap_le _ _
            exact ⟨job.lift batch, Nat.le_trans part whole, written⟩
      · cases taken
        exact small_leave small _
    · split at taken
      · cases taken
        exact small_keep small rfl (fun _ => id) (by simp [State.lifted, stands, Feeder.inHand])
      · cases taken
  | sending json =>
    simp only [stands] at taken
    split at taken
    · cases taken
      apply small_keep small
      · rfl
      · exact fun batch member => absurd member List.not_mem_nil
      · simp only [State.lifted, Feeder.inHand, List.append_nil, List.mem_append]
        exact fun _ => Or.inl
    · obtain ⟨batches, pushed, rfl⟩ := Option.map_eq_some_iff.mp taken
      apply small_keep small
      · rfl
      · exact fun _ => id
      · simp [State.lifted, stands, Feeder.inHand, Channel.push_some pushed]
  | joining =>
    simp only [stands] at taken
    split at taken
    · cases taken
      exact small_keep small rfl (fun _ => id) (by simp [State.lifted, stands, Feeder.inHand])
    · cases taken
      exact small_leave small _
    · cases taken
  | waiting =>
    simp only [stands] at taken
    split at taken
    · cases taken
      exact small_leave small _
    · cases taken
      exact small_leave small _
    · split at taken
      · cases taken
        exact small_leave small _
      · cases taken
  | returned result =>
    simp only [stands] at taken
    cases taken

theorem worker_lifted (taken : stepWorker job s = some t) : t.reader = s.reader ∧ t.raw = s.raw ∧
    ∀ json ∈ t.lifted, json ∈ s.lifted := by
  unfold stepWorker at taken
  split at taken
  · split at taken
    · cases taken
    · rename_i stands _ _ _
      cases taken
      exact ⟨rfl, rfl, by simp [State.lifted, stands, Worker.inHand]⟩
    · rename_i stands _ _ _ _
      split at taken
      all_goals
        cases taken
        exact ⟨rfl, rfl, by simp [State.lifted, stands, Worker.inHand]⟩
  · rename_i stands
    split at taken
    · rename_i json batches popped
      cases taken
      exact ⟨rfl, rfl, by simp [State.lifted, stands, Worker.inHand, Channel.pop_some.mp popped]⟩
    · split at taken
      · cases taken
      · cases taken
        exact ⟨rfl, rfl, by simp [State.lifted, stands, Worker.inHand]⟩
  · split at taken
    · cases taken
    all_goals
      cases taken
      refine ⟨rfl, rfl, fun json member => ?_⟩
      simp only [State.lifted, Worker.inHand, List.nil_append, List.mem_append] at member ⊢
      tauto
  · split at taken
    · cases taken
    · rename_i stands _ _ _
      cases taken
      exact ⟨rfl, rfl, by simp [State.lifted, stands, Worker.inHand]⟩
  · rename_i stands
    cases taken
    exact ⟨rfl, rfl, by simp +contextual [State.lifted, stands, Worker.inHand]⟩
  · cases taken

theorem interrupt_lifted {message : String} (taken : interrupt s message = some t) :
    t.reader = s.reader ∧ t.raw = s.raw ∧ ∀ json ∈ t.lifted, json ∈ s.lifted := by
  unfold interrupt at taken
  split at taken
  · rename_i stands
    cases taken
    exact ⟨rfl, rfl, by simp [State.lifted, stands, Worker.inHand]⟩
  · cases taken
    refine ⟨rfl, rfl, fun json member => ?_⟩
    simp only [State.lifted, Worker.inHand, List.nil_append, List.mem_append] at member ⊢
    tauto
  · rename_i stands
    cases taken
    exact ⟨rfl, rfl, by simp [State.lifted, stands, Worker.inHand]⟩
  · cases taken

theorem small_step {a : Action} (small : Small job s) (taken : step job s a = some t) :
    Small job t := by
  have keeps : (t.reader = s.reader ∧ t.raw = s.raw ∧ ∀ json ∈ t.lifted, json ∈ s.lifted) →
      Small job t := by
    rintro ⟨reader, raw, lifted⟩
    exact small_keep small reader (fun batch member => raw ▸ member) lifted
  cases a with
  | reader => exact small_reader small taken
  | feeder => exact small_feeder small taken
  | worker => exact keeps (worker_lifted taken)
  | interrupt message => exact keeps (interrupt_lifted taken)
  | timeout =>
    rw [step, timeout] at taken
    split at taken
    · cases taken
      exact small_leave small _
    · cases taken

theorem length_flatten_le {batches : List (List (Nat × Event))} {bound : Nat}
    (small : ∀ batch ∈ batches, batch.length ≤ bound) :
    batches.flatten.length ≤ batches.length * bound := by
  induction batches with
  | nil => exact Nat.zero_le _
  | cons batch rest ih =>
    have here := small batch List.mem_cons_self
    have later := ih fun other member => small other (List.mem_cons_of_mem _ member)
    rw [List.flatten_cons, List.length_append, List.length_cons, Nat.succ_mul]
    omega

/-- However long the scan, at most three raw batches and six lifted ones are held. -/
theorem run_small (run : exec (step job) start labels = some s) :
    s.reader.batch.length + s.raw.queue.flatten.length ≤ (1 + rawChannelCap) * readBatch ∧
      s.lifted.length ≤ batchChannelCap + 2 ∧
        ∀ json ∈ s.lifted, ∃ events : List (LiftedEvent V),
          events.length ≤ readBatch ∧ job.toJson events = .ok json := by
  have small : Small job s := invariant small_step small_start run
  refine ⟨?_, ?_, small.lifted⟩
  · have flat := length_flatten_le small.raw
    have queued := Nat.mul_le_mul_right readBatch s.raw.bounded
    have held := small.batch
    rw [Nat.add_mul, Nat.one_mul]
    omega
  · have worker : s.worker.inHand.length ≤ 1 := by cases s.worker <;> simp [Worker.inHand]
    have feeder : s.feeder.inHand.length ≤ 1 := by cases s.feeder <;> simp [Feeder.inHand]
    have queued := s.batches.bounded
    simp only [State.lifted, List.length_append]
    omega

end sizes
section sample

theorem count_stuck :
    Ended (counted (.returned (.ok ⟨"1", []⟩)) .exited (some (.ok ("1", [])))) ∨
      Worker.Endless countJob .exited := by
  apply run_never_stuck count_run
  intro a party
  cases a with
  | reader | feeder | worker => rfl
  | _ => exact party.elim

/-- Eight steps in, the script has the batch with the one task in its hands. -/
theorem count_completes : 8 ≤ 6 * countJob.scan.length + 9 ∧
    (∃ more t, (∀ a ∈ more, a ≠ .timeout) ∧
      exec (step countJob) (counted .receiving (.folding 0 (writeBatch taskBatch taskBatch)) none)
        more = some t ∧ Ended t) ∧
    (countJob.script.Terminates → ∃ more t, (∀ a ∈ more, a.ofParty) ∧
      exec (step countJob) (counted .receiving (.folding 0 (writeBatch taskBatch taskBatch)) none)
        more = some t ∧ Ended t) :=
  run_completes count_fed

/-- The batch with the one task is on its way from the async side to the script. -/
theorem count_small : 0 + 0 ≤ (1 + rawChannelCap) * readBatch ∧
    (counted .receiving (.folding 0 (writeBatch taskBatch taskBatch)) none).lifted.length ≤
      batchChannelCap + 2 ∧
    ∀ json ∈ (counted .receiving (.folding 0 (writeBatch taskBatch taskBatch)) none).lifted,
      ∃ events : List (LiftedEvent String),
        events.length ≤ readBatch ∧ countJob.toJson events = .ok json :=
  run_small count_fed

end sample

end UmariProjectionRuns
