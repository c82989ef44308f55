import Mathlib.Algebra.BigOperators.Fin
import Umari.AtLeastOnce
import Umari.TerminatingRuns

/-!
An effect that is left in peace catches up. A quiet step is one of the dispatcher or of a
worker, without a failure: the log stays as it is, and an event is skipped only where the
key store says that its key is gone. A message weighs less the further it has come, so every
quiet run comes to an end; an effect that cannot go on has handled or skipped as shredded
every matching event since its start, and stored a position behind which there is none.
-/
namespace UmariEffectProgress
open OrderedSets PositionedLogs GuardedRuns TerminatingRuns UmariEventStore UmariStoredEvents
open UmariStateDatabases UmariModuleActor UmariPooledDispatch
open UmariAtLeastOnce (Settled)
variable {V : Type}

/-- `next_batch_async` waits while nothing was appended above the cursor. -/
def quiet [DecidableEq V] (cfg : Config V) (s : System) : Action → Bool
  | .nextBatch upto => s.actor.any fun d => decide (d.progress.cursor < upto)
  | .dispatch answer partition commits =>
    commits && s.actor.any fun d => d.batch.head?.any fun entry =>
      match prepareEvent cfg.codec entry answer partition with
      | .error _ => false
      | .ok none => keyGone cfg.codec entry answer
      | .ok (some _) => true
  | .work _ outcome => decide (outcome = .ok)
  | .restart _ => false
  | .workOrphan _ outcome => decide (outcome = .ok)
  | .ack index commits => commits && (s.acks[index]?).any fun ack =>
    match ack with
    | .ok _ => true
    | .error _ _ => false
  | .append _ => false
  | .start _ => false
  | .crash => false

def quietStep [DecidableEq V] (cfg : Config V) (s : System) (a : Action) : Option System :=
  if quiet cfg s a then step cfg s a else none

def queued (mailboxes : WorkerId → List ProcessEvent) : Nat :=
  (mailboxes .global).length + ∑ index : Fin poolSize, (mailboxes (.keyed index)).length

/-- What is still to do; an event is read, sent, worked on and acknowledged. -/
def work (s : System) : Nat :=
  match s.actor with
  | none => 0
  | some d => 4 * (s.log.length - d.progress.cursor) + 3 * d.batch.length +
      2 * queued s.mailboxes + s.acks.length + s.orphans.length

/-- Nothing is left to do since a start at `base`, and a restart would find nothing to do. -/
structure CaughtUp (cfg : Config V) (base : Nat) (s : System) (d : Dispatcher) : Prop where
  batch : d.batch = []
  flying : ∀ p, ¬ p ∈ d.progress.inFlight
  cursor : d.progress.cursor = s.log.length
  settled : ∀ p e, (p, e) ∈ entries s.log → cfg.query.matches e = true → base < p → Settled s p
  stored : ∀ p e, (p, e) ∈ entries s.log → cfg.query.matches e = true →
    p ≤ resumePosition (storedPosition s.row)

structure Inv (cfg : Config V) (base : Nat) (s : System) (d : Dispatcher) : Prop where
  live : s.actor = some d
  tidy : Tidy cfg s
  up : s.down = []
  positive : ∀ p, p ∈ d.progress.inFlight → 0 < p
  flying : ∀ p, p ∈ d.progress.inFlight →
    (∃ worker message, message ∈ s.mailboxes worker ∧ message.position = p) ∨
      WorkerAck.ok p ∈ s.acks
  acked : ∀ ack ∈ s.acks, ∃ p, ack = .ok p ∧ p ∈ s.committed
  delivered : ∀ p e, (p, e) ∈ entries s.log → cfg.query.matches e = true → base < p →
    p ≤ d.progress.cursor → Settled s p ∨ p ∈ d.progress.inFlight ∨ (p, e) ∈ d.batch
  clean : d.batch = [] → (∀ p, ¬ p ∈ d.progress.inFlight) → ∀ p e, (p, e) ∈ entries s.log →
    cfg.query.matches e = true → p ≤ d.progress.cursor →
      p ≤ resumePosition (storedPosition s.row)

inductive Quiet (cfg : Config V) (s : System) (d : Dispatcher) : System → Prop where
  | batched (upto : Nat) (done : d.batch = []) (forward : d.progress.cursor < upto)
      (inside : upto ≤ s.log.length) : Quiet cfg s d (readBatch cfg.query s d upto)
  | skipped (entry : Nat × Event) (rest : List (Nat × Event)) (next : d.batch = entry :: rest) :
      Quiet cfg s d (skipEvent s d rest entry.1 true true)
  | sent (entry : Nat × Event) (rest : List (Nat × Event)) (key : PartitionKey)
      (message : ProcessEvent) (next : d.batch = entry :: rest)
      (position : message.position = entry.1) :
      Quiet cfg s d (sendEvent cfg.hash s d rest key message)
  | worked (worker : WorkerId) (message : ProcessEvent) (rest : List ProcessEvent)
      (taken : s.mailboxes worker = message :: rest) :
      Quiet cfg s d (workStep s worker message rest .ok)
  | workedOrphan (index : Nat) (message : ProcessEvent)
      (found : s.orphans[index]? = some message) :
      Quiet cfg s d { s with
        orphans := s.orphans.eraseIdx index
        committed := message.position :: s.committed }
  | acked (index position : Nat) (between : d.batch = [])
      (found : s.acks[index]? = some (.ok position)) :
      Quiet cfg s d (applyAck { s with acks := s.acks.eraseIdx index } d position true)

section steps
variable [DecidableEq V] {cfg : Config V} {s t : System} {d : Dispatcher} {base : Nat}

theorem quiet_of_step {a : Action} (live : s.actor = some d)
    (taken : quietStep cfg s a = some t) : Quiet cfg s d t := by
  unfold quietStep at taken
  split at taken
  · rename_i calm
    cases a with
    | append events => exact absurd calm (by simp [quiet])
    | start version => exact absurd calm (by simp [quiet])
    | restart worker => exact absurd calm (by simp [quiet])
    | crash => exact absurd calm (by simp [quiet])
    | nextBatch upto =>
      have forward : d.progress.cursor < upto := by simpa [quiet, live] using calm
      simp only [step, live] at taken
      split at taken
      · rename_i enabled
        cases taken
        exact Quiet.batched upto enabled.1 forward enabled.2.2.2
      · exact absurd taken (by simp)
    | dispatch answer partition commits =>
      cases next : d.batch with
      | nil => simp [quiet, live, next] at calm
      | cons entry rest =>
        simp only [step, live, next] at taken
        cases prepared : prepareEvent cfg.codec entry answer partition with
        | error err => simp [quiet, live, next, prepared] at calm
        | ok result =>
          obtain rfl : commits = true := by
            simp only [quiet, Bool.and_eq_true] at calm
            exact calm.1
          cases result with
          | none =>
            have gone : keyGone cfg.codec entry answer = true := by
              simpa [quiet, live, next, prepared] using calm
            simp only [prepared, gone, Option.some.injEq] at taken
            subst taken
            exact Quiet.skipped entry rest next
          | some pair =>
            simp only [prepared, Option.some.injEq] at taken
            subst taken
            exact Quiet.sent entry rest pair.1 pair.2 next (prepareEvent_position prepared)
    | work worker outcome =>
      obtain rfl : outcome = .ok := by simpa [quiet] using calm
      cases mailbox : s.mailboxes worker with
      | nil => simp [step, mailbox] at taken
      | cons message rest =>
        simp only [step, mailbox, Option.ite_none_right_eq_some, Option.some.injEq] at taken
        obtain ⟨_, rfl⟩ := taken
        exact Quiet.worked worker message rest mailbox
    | workOrphan index outcome =>
      obtain rfl : outcome = .ok := by simpa [quiet] using calm
      cases found : s.orphans[index]? with
      | none => simp [step, found] at taken
      | some message =>
        simp only [step, found, HandlerOutcome.committed, if_true, Option.some.injEq] at taken
        subst taken
        exact Quiet.workedOrphan index message found
    | ack index commits =>
      simp only [quiet, Bool.and_eq_true] at calm
      obtain ⟨rfl, good⟩ := calm
      simp only [step, live] at taken
      split at taken
      · rename_i between
        cases found : s.acks[index]? with
        | none => simp [found] at taken
        | some ack =>
          cases ack with
          | error position message => simp [found] at good
          | ok position =>
            simp only [found, Option.some.injEq] at taken
            subst taken
            exact Quiet.acked index position between found
      · exact absurd taken (by simp)
  · exact absurd taken (by simp)

end steps

section acknowledging
variable {cfg : Config V} {s : System} {d : Dispatcher} {base : Nat}

theorem applyAck_done (position : Nat) (tidy : TidyActor cfg s d)
    (positive : ∀ p, p ∈ d.progress.inFlight → 0 < p) :
    ∃ watermark row writes,
      calculateWatermark (d.progress.inFlight.remove position) d.progress.cursor
        (max d.progress.highestCompleted position) = some watermark ∧
      storedPosition row = some watermark ∧
      applyAck s d position true = { s with
        writes := writes
        row := row
        actor := some ⟨⟨d.progress.cursor, d.progress.inFlight.remove position,
          max d.progress.highestCompleted position, some watermark⟩, d.batch⟩ } := by
  have computes : ∃ watermark, calculateWatermark (d.progress.inFlight.remove position)
      d.progress.cursor (max d.progress.highestCompleted position) = some watermark := by
    unfold calculateWatermark
    cases least : (d.progress.inFlight.remove position).first with
    | none => exact ⟨_, rfl⟩
    | some p =>
      have above := positive p (OrderedSet.mem_remove.mp (OrderedSet.first_mem least)).1
      exact ⟨p - 1, if_pos (by omega)⟩
  obtain ⟨watermark, computed⟩ := computes
  obtain ⟨_, _, _, _, kept⟩ := applyAck_commits tidy.synced tidy.opened computed
  have alive : (applyAck s d position true).actor ≠ none := by
    rw [kept]
    simp
  rcases applyAck_cases position true tidy.synced with
    crashed | ⟨other, writes, again, _, crashed | ⟨row, _, stored, _, applied⟩⟩
  · rw [crashed] at alive
    exact absurd rfl alive
  · rw [crashed] at alive
    exact absurd rfl alive
  · obtain rfl : watermark = other := Option.some.inj (computed.symm.trans again)
    exact ⟨watermark, row, _, computed, stored, applied⟩

theorem inv_applyAck {position : Nat} (tidy : TidyActor cfg s d)
    (after : Tidy cfg (applyAck s d position true)) (up : s.down = [])
    (positive : ∀ p, p ∈ d.progress.inFlight → 0 < p)
    (flying : ∀ p, p ∈ d.progress.inFlight → p ≠ position →
      (∃ worker message, message ∈ s.mailboxes worker ∧ message.position = p) ∨
        WorkerAck.ok p ∈ s.acks)
    (acked : ∀ ack ∈ s.acks, ∃ p, ack = .ok p ∧ p ∈ s.committed) (done : Settled s position)
    (delivered : ∀ p e, (p, e) ∈ entries s.log → cfg.query.matches e = true → base < p →
      p ≤ d.progress.cursor → Settled s p ∨ p ∈ d.progress.inFlight ∨ (p, e) ∈ d.batch) :
    ∃ d', Inv cfg base (applyAck s d position true) d' ∧ d'.batch = d.batch ∧
      d'.progress.cursor = d.progress.cursor := by
  obtain ⟨watermark, row, writes, computed, stored, applied⟩ :=
    applyAck_done position tidy positive
  rw [applied] at after ⊢
  refine ⟨_, ⟨rfl, after, up, ?_, ?_, acked, ?_, ?_⟩, rfl, rfl⟩
  · exact fun p member => positive p (OrderedSet.mem_remove.mp member).1
  · intro p member
    obtain ⟨before, other⟩ := OrderedSet.mem_remove.mp member
    exact flying p before other
  · intro p e member selected later below
    rcases delivered p e member selected later below with ready | inside | waiting
    · exact Or.inl ready
    · by_cases same : p = position
      · exact Or.inl (same ▸ done)
      · exact Or.inr (Or.inl (OrderedSet.mem_remove.mpr ⟨inside, same⟩))
    · exact Or.inr (Or.inr waiting)
  · intro _ empty p e _ _ below
    have value := (calculateWatermark_some computed).2.1 empty
    have bound : p ≤ max d.progress.cursor (max d.progress.highestCompleted position) :=
      Nat.le_trans below (Nat.le_max_left _ _)
    simp only [stored, resumePosition, Option.getD_some]
    omega

end acknowledging

section invariant
variable {cfg : Config V} {s t : System} {d : Dispatcher} {base : Nat}

theorem positive_inserted {entry : Nat × Event} (inv : Inv cfg base s d) (waiting : entry ∈ d.batch)
    (p : Nat) (member : p ∈ d.progress.inFlight.insert entry.1) : 0 < p := by
  rcases OrderedSet.mem_insert.mp member with same | flying
  · have logged := ((inv.tidy.actor d inv.live).rest entry.1 entry.2 waiting).1
    exact same ▸ (entries_bounds logged).1
  · exact inv.positive p flying

theorem inv_batched {upto : Nat} (inv : Inv cfg base s d)
    (after : Tidy cfg (readBatch cfg.query s d upto)) (done : d.batch = []) :
    ∃ d', Inv cfg base (readBatch cfg.query s d upto) d' := by
  refine ⟨_, rfl, after, inv.up, inv.positive, inv.flying, inv.acked, ?_, ?_⟩
  · intro p e member selected later below
    by_cases new : d.progress.cursor < p
    · exact Or.inr (Or.inr (mem_window.mpr ⟨member, new, below, selected⟩))
    · rcases inv.delivered p e member selected later (Nat.not_lt.mp new) with
        ready | inside | waiting
      · exact Or.inl ready
      · exact Or.inr (Or.inl inside)
      · rw [done] at waiting
        exact absurd waiting List.not_mem_nil
  · intro nothing empty p e member selected below
    by_cases new : d.progress.cursor < p
    · have read : (p, e) ∈ window cfg.query.matches s.log d.progress.cursor upto :=
        mem_window.mpr ⟨member, new, below, selected⟩
      have none : window cfg.query.matches s.log d.progress.cursor upto = [] := nothing
      rw [none] at read
      exact absurd read List.not_mem_nil
    · exact inv.clean done empty p e member selected (Nat.not_lt.mp new)

theorem delivered_next {entry : Nat × Event} {rest : List (Nat × Event)} (inv : Inv cfg base s d)
    (next : d.batch = entry :: rest) (p : Nat) (e : Event) (member : (p, e) ∈ entries s.log)
    (selected : cfg.query.matches e = true) (later : base < p) (below : p ≤ d.progress.cursor) :
    Settled s p ∨ p ∈ d.progress.inFlight.insert entry.1 ∨ (p, e) ∈ rest := by
  rcases inv.delivered p e member selected later below with ready | inside | waiting
  · exact Or.inl ready
  · exact Or.inr (Or.inl (OrderedSet.mem_insert.mpr (Or.inr inside)))
  · rw [next] at waiting
    rcases List.mem_cons.mp waiting with here | tail
    · exact Or.inr (Or.inl (OrderedSet.mem_insert.mpr (Or.inl (congrArg Prod.fst here))))
    · exact Or.inr (Or.inr tail)

theorem inv_skipped {entry : Nat × Event} {rest : List (Nat × Event)} (inv : Inv cfg base s d)
    (next : d.batch = entry :: rest) (after : Tidy cfg (skipEvent s d rest entry.1 true true)) :
    ∃ d', Inv cfg base (skipEvent s d rest entry.1 true true) d' := by
  have front : entry ∈ d.batch := by
    rw [next]
    exact List.mem_cons_self
  have widen : ∀ p, Settled s p → Settled { s with shredded := entry.1 :: s.shredded } p :=
    fun p ready => ready.imp (fun member => member) (List.mem_cons_of_mem entry.1)
  obtain ⟨d', kept, _⟩ := inv_applyAck
    (tidy_skipping (inv.tidy.actor d inv.live) next) after inv.up (positive_inserted inv front)
    (by
      intro p member other
      rcases OrderedSet.mem_insert.mp member with same | flying
      · exact absurd same other
      · exact inv.flying p flying)
    inv.acked (Or.inr List.mem_cons_self)
    (fun p e member selected later below =>
      (delivered_next inv next p e member selected later below).imp (widen p) id)
  exact ⟨d', kept⟩

theorem inv_sent {entry : Nat × Event} {rest : List (Nat × Event)} {key : PartitionKey}
    {message : ProcessEvent} (inv : Inv cfg base s d) (next : d.batch = entry :: rest)
    (position : message.position = entry.1)
    (after : Tidy cfg (sendEvent cfg.hash s d rest key message)) :
    ∃ d', Inv cfg base (sendEvent cfg.hash s d rest key message) d' := by
  have front : entry ∈ d.batch := by
    rw [next]
    exact List.mem_cons_self
  refine ⟨_, rfl, after, inv.up, ?_, ?_, inv.acked, ?_, ?_⟩
  · intro p member
    exact positive_inserted inv front p (position ▸ member)
  · intro p member
    rcases OrderedSet.mem_insert.mp member with same | flying
    · exact Or.inl ⟨workerFor cfg.hash key, message, queued_sent.mpr (Or.inr ⟨rfl, rfl⟩),
        same.symm⟩
    · rcases inv.flying p flying with ⟨worker, waiting, member, same⟩ | answered
      · exact Or.inl ⟨worker, waiting, queued_sent.mpr (Or.inl member), same⟩
      · exact Or.inr answered
  · intro p e member selected later below
    rw [position]
    exact delivered_next inv next p e member selected later below
  · intro _ empty
    exact absurd (OrderedSet.mem_insert.mpr (Or.inl rfl)) (empty message.position)

theorem inv_worked {worker : WorkerId} {message : ProcessEvent} {rest : List ProcessEvent}
    (inv : Inv cfg base s d) (taken : s.mailboxes worker = message :: rest)
    (after : Tidy cfg (workStep s worker message rest .ok)) :
    Inv cfg base (workStep s worker message rest .ok) d := by
  have widen : ∀ p, p ∈ s.committed → p ∈ (workStep s worker message rest .ok).committed :=
    fun p member => committed_worked.mpr (Or.inr member)
  refine ⟨inv.live, after, inv.up, inv.positive, ?_, ?_, ?_, inv.clean⟩
  · intro p flying
    rcases inv.flying p flying with ⟨other, waiting, member, same⟩ | answered
    · rcases (queued_worked taken).mp member with left | ⟨_, rfl⟩
      · exact Or.inl ⟨other, waiting, left, same⟩
      · exact Or.inr (acked_worked.mpr (Or.inr (by rw [← same]; rfl)))
    · exact Or.inr (acked_worked.mpr (Or.inl answered))
  · intro ack member
    rcases acked_worked.mp member with before | rfl
    · obtain ⟨p, same, done⟩ := inv.acked ack before
      exact ⟨p, same, widen p done⟩
    · exact ⟨message.position, rfl, committed_worked.mpr (Or.inl ⟨rfl, rfl⟩)⟩
  · intro p e member selected later below
    rcases inv.delivered p e member selected later below with ready | others
    · exact Or.inl (ready.imp (widen p) (fun member => member))
    · exact Or.inr others

theorem inv_acked {index position : Nat} (inv : Inv cfg base s d)
    (found : s.acks[index]? = some (.ok position))
    (after : Tidy cfg (applyAck { s with acks := s.acks.eraseIdx index } d position true)) :
    ∃ d', Inv cfg base (applyAck { s with acks := s.acks.eraseIdx index } d position true) d' := by
  obtain ⟨p, same, done⟩ := inv.acked _ (List.mem_of_getElem? found)
  obtain rfl : position = p := WorkerAck.ok.inj same
  obtain ⟨d', kept, _⟩ := inv_applyAck
    (tidy_received (inv.tidy.actor d inv.live) index) after inv.up inv.positive
    (by
      intro p flying other
      rcases inv.flying p flying with waiting | waiting
      · exact Or.inl waiting
      · obtain ⟨place, held⟩ := List.mem_iff_getElem?.mp waiting
        refine Or.inr (List.mem_eraseIdx_iff_getElem?.mpr ⟨place, ?_, held⟩)
        -- the answer taken off the channel is one for another event
        rintro rfl
        exact other (WorkerAck.ok.inj (Option.some.inj (held.symm.trans found))))
    (fun ack member => inv.acked ack (List.mem_of_mem_eraseIdx member)) (Or.inl done)
    inv.delivered
  exact ⟨d', kept⟩

theorem inv_step (inv : Inv cfg base s d) (after : Tidy cfg t) (moved : Quiet cfg s d t) :
    ∃ d', Inv cfg base t d' := by
  cases moved with
  | batched upto done forward inside => exact inv_batched inv after done
  | skipped entry rest next => exact inv_skipped inv next after
  | sent entry rest key message next position => exact inv_sent inv next position after
  | worked worker message rest taken => exact ⟨d, inv_worked inv taken after⟩
  | workedOrphan index message found =>
    refine ⟨d, inv.live, after, inv.up, inv.positive, inv.flying, ?_, ?_, inv.clean⟩
    · intro ack member
      obtain ⟨p, same, done⟩ := inv.acked ack member
      exact ⟨p, same, List.mem_cons_of_mem _ done⟩
    · intro p e member selected later below
      rcases inv.delivered p e member selected later below with ready | others
      · exact Or.inl (ready.imp (List.mem_cons_of_mem _) (fun member => member))
      · exact Or.inr others
  | acked index position between found => exact inv_acked inv found after

end invariant

section measure
variable {cfg : Config V} {s t : System} {d : Dispatcher} {base : Nat}

theorem skipEvent_done {entry : Nat × Event} {rest : List (Nat × Event)} (inv : Inv cfg base s d)
    (next : d.batch = entry :: rest) :
    ∃ row progress writes, progress.cursor = d.progress.cursor ∧
      skipEvent s d rest entry.1 true true = { s with
        writes := writes
        row := row
        actor := some ⟨progress, rest⟩
        shredded := entry.1 :: s.shredded } := by
  have front : entry ∈ d.batch := by
    rw [next]
    exact List.mem_cons_self
  have tidy : TidyActor cfg { s with shredded := entry.1 :: s.shredded }
      (skipping d rest entry.1) := tidy_skipping (inv.tidy.actor d inv.live) next
  obtain ⟨watermark, row, writes, _, _, applied⟩ :=
    applyAck_done entry.1 tidy (positive_inserted inv front)
  refine ⟨row, _, writes, ?_, applied⟩
  rfl

theorem queued_update (mailboxes : WorkerId → List ProcessEvent) (worker : WorkerId)
    (messages : List ProcessEvent) :
    queued (Function.update mailboxes worker messages) + (mailboxes worker).length =
      queued mailboxes + messages.length := by
  cases worker with
  | global =>
    have keyed : ∀ index : Fin poolSize,
        Function.update mailboxes .global messages (.keyed index) = mailboxes (.keyed index) :=
      fun index => Function.update_of_ne (by simp) _ _
    simp only [queued, Function.update_self, keyed]
    omega
  | keyed index =>
    have global : Function.update mailboxes (.keyed index) messages .global = mailboxes .global :=
      Function.update_of_ne (by simp) _ _
    have others : ∀ other ∈ Finset.univ.erase index,
        (Function.update mailboxes (.keyed index) messages (.keyed other)).length =
          (mailboxes (.keyed other)).length := by
      intro other member
      rw [Function.update_of_ne]
      simpa using Finset.ne_of_mem_erase member
    have before := Finset.add_sum_erase Finset.univ
      (fun other : Fin poolSize => (mailboxes (.keyed other)).length) (Finset.mem_univ index)
    have after := Finset.add_sum_erase Finset.univ
      (fun other : Fin poolSize =>
        (Function.update mailboxes (.keyed index) messages (.keyed other)).length)
      (Finset.mem_univ index)
    rw [Finset.sum_congr rfl others] at after
    simp only [Function.update_self] at before after
    simp only [queued, global]
    omega

theorem work_falls (inv : Inv cfg base s d) (moved : Quiet cfg s d t) : work t < work s := by
  have old := inv.tidy.actor d inv.live
  have now : work s = 4 * (s.log.length - d.progress.cursor) + 3 * d.batch.length +
      2 * queued s.mailboxes + s.acks.length + s.orphans.length := by
    simp [work, inv.live]
  cases moved with
  | batched upto done forward inside =>
    have few := window_length cfg.query.matches s.log d.progress.cursor upto
    have next : work (readBatch cfg.query s d upto) = 4 * (s.log.length - upto) +
        3 * (window cfg.query.matches s.log d.progress.cursor upto).length +
        2 * queued s.mailboxes + s.acks.length + s.orphans.length := rfl
    omega
  | skipped entry rest next =>
    obtain ⟨row, progress, writes, still, applied⟩ := skipEvent_done inv next
    have later : work (skipEvent s d rest entry.1 true true) =
        4 * (s.log.length - d.progress.cursor) + 3 * rest.length + 2 * queued s.mailboxes +
          s.acks.length + s.orphans.length := by
      rw [applied, ← still]
      rfl
    rw [next, List.length_cons] at now
    omega
  | sent entry rest key message next position =>
    have more := queued_update s.mailboxes (workerFor cfg.hash key)
      (s.mailboxes (workerFor cfg.hash key) ++ [message])
    have later : work (sendEvent cfg.hash s d rest key message) =
        4 * (s.log.length - d.progress.cursor) + 3 * rest.length +
          2 * queued (Function.update s.mailboxes (workerFor cfg.hash key)
            (s.mailboxes (workerFor cfg.hash key) ++ [message])) +
          s.acks.length + s.orphans.length := rfl
    rw [next, List.length_cons] at now
    simp only [List.length_append, List.length_singleton] at more
    omega
  | worked worker message rest taken =>
    have fewer := queued_update s.mailboxes worker rest
    have later : work (workStep s worker message rest .ok) =
        4 * (s.log.length - d.progress.cursor) + 3 * d.batch.length +
          2 * queued (Function.update s.mailboxes worker rest) + (s.acks.length + 1) +
          s.orphans.length := by
      simp [work, workStep, inv.live]
    rw [taken, List.length_cons] at fewer
    omega
  | workedOrphan index message found =>
    have inside := (List.getElem?_eq_some_iff.mp found).1
    have fewer := List.length_eraseIdx_of_lt inside
    have later : work { s with
        orphans := s.orphans.eraseIdx index
        committed := message.position :: s.committed } =
        4 * (s.log.length - d.progress.cursor) + 3 * d.batch.length + 2 * queued s.mailboxes +
          s.acks.length + (s.orphans.eraseIdx index).length := by
      simp [work, inv.live]
    omega
  | acked index position between found =>
    have inside := (List.getElem?_eq_some_iff.mp found).1
    have fewer := List.length_eraseIdx_of_lt inside
    obtain ⟨watermark, row, writes, _, _, applied⟩ :=
      applyAck_done position (tidy_received old index) inv.positive
    have later : work (applyAck { s with acks := s.acks.eraseIdx index } d position true) =
        4 * (s.log.length - d.progress.cursor) + 3 * d.batch.length + 2 * queued s.mailboxes +
          (s.acks.eraseIdx index).length + s.orphans.length := by
      rw [applied]
      rfl
    omega

end measure

section progress
variable [DecidableEq V] {cfg : Config V} {s t : System} {d : Dispatcher} {base : Nat}

/-- Every matching event can be read back from the log, and names a key if it names a scope. -/
def Decodes (cfg : Config V) (log : List Event) : Prop :=
  ∀ p e, (p, e) ∈ entries log → cfg.query.matches e = true →
    ∃ event, deserializeEvent cfg.codec (p, e) = .ok event ∧
      (event.encryptionScope.isSome = true → event.encryptionKeyId.isSome = true)

omit [DecidableEq V] in
theorem deserializeEvent_reads (codec : Codec V) (p : Nat) {e : Event}
    {data : StoredEventData V} (reads : codec.storedFromSlice e.data = .ok data)
    (plain : data.encryptionScope = none) :
    ∃ event, deserializeEvent codec (p, e) = .ok event ∧
      (event.encryptionScope.isSome = true → event.encryptionKeyId.isSome = true) := by
  unfold deserializeEvent
  rw [reads]
  refine ⟨_, rfl, ?_⟩
  simp [plain]

theorem dispatch_quiet {entry : Nat × Event} {rest : List (Nat × Event)} {event : StoredEvent V}
    (live : s.actor = some d) (next : d.batch = entry :: rest)
    (decoded : deserializeEvent cfg.codec entry = .ok event)
    (named : event.encryptionScope.isSome = true → event.encryptionKeyId.isSome = true) :
    quiet cfg s (.dispatch (.ok none) (.ok .unkeyed) true) = true := by
  cases keyed : event.encryptionKeyId with
  | some id =>
    have gone : keyGone cfg.codec entry (.ok none) = true := by simp [keyGone, decoded, keyed]
    cases skipped : isShredded cfg.codec (decryptStoredEvent cfg.codec (.ok none) event) with
    | true => simp [quiet, live, next, prepareEvent, decoded, gone, skipped]
    | false => simp [quiet, live, next, prepareEvent, decoded, skipped]
  | none =>
    have unscoped : event.encryptionScope = none := by
      cases scope : event.encryptionScope with
      | none => rfl
      | some text => simp [scope, keyed] at named
    have sent : isShredded cfg.codec (decryptStoredEvent cfg.codec (.ok none) event) = false := by
      simp [decryptStoredEvent, keyed, isShredded, unscoped]
    simp [quiet, live, next, prepareEvent, decoded, sent]

theorem caughtUp_of_stuck (inv : Inv cfg base s d) (decodes : Decodes cfg s.log)
    (stuck : ∀ a, quietStep cfg s a = none) : CaughtUp cfg base s d := by
  have old := inv.tidy.actor d inv.live
  have idle : ∀ a, quiet cfg s a = true → step cfg s a = none := by
    intro a calm
    simpa [quietStep, calm] using stuck a
  have read : d.batch = [] := by
    cases next : d.batch with
    | nil => rfl
    | cons entry rest =>
      obtain ⟨logged, selected, _⟩ := old.rest entry.1 entry.2 (by simp [next])
      obtain ⟨event, decoded, named⟩ := decodes _ _ logged selected
      have halted := idle (.dispatch (.ok none) (.ok .unkeyed) true)
        (dispatch_quiet inv.live next decoded named)
      simp only [step, inv.live, next] at halted
      cases prepared : prepareEvent cfg.codec entry (.ok none) (.ok .unkeyed) with
      | error err => simp [prepared] at halted
      | ok result => cases result <;> simp [prepared] at halted
  have drained : ∀ worker, s.mailboxes worker = [] := by
    intro worker
    cases mailbox : s.mailboxes worker with
    | nil => rfl
    | cons message rest =>
      have halted := idle (.work worker .ok) (by simp [quiet])
      simp [step, mailbox, isUp, inv.up] at halted
  have answered : s.acks = [] := by
    cases waiting : s.acks with
    | nil => rfl
    | cons ack rest =>
      obtain ⟨p, rfl, _⟩ := inv.acked ack (by simp [waiting])
      have halted := idle (.ack 0 true) (by simp [quiet, waiting])
      simp [step, inv.live, read, waiting] at halted
  have landed : ∀ p, ¬ p ∈ d.progress.inFlight := by
    intro p flying
    rcases inv.flying p flying with ⟨worker, message, member, _⟩ | waiting
    · simp [drained worker] at member
    · simp [answered] at waiting
  have cursor : d.progress.cursor = s.log.length := by
    by_contra short
    have forward : d.progress.cursor < s.log.length := by
      have within := old.within
      omega
    have small : d.progress.inFlight.size = 0 := by
      have empty := OrderedSet.isEmpty_iff.mpr landed
      simpa [OrderedSet.isEmpty, OrderedSet.size] using empty
    have halted := idle (.nextBatch s.log.length) (by simpa [quiet, inv.live] using forward)
    simp only [step, inv.live, read, small] at halted
    simp [Nat.le_of_lt forward] at halted
  have behind : ∀ p e, (p, e) ∈ entries s.log → p ≤ d.progress.cursor := by
    intro p e logged
    have inside := (entries_bounds logged).2
    omega
  refine ⟨read, landed, cursor, ?_, ?_⟩
  · intro p e logged selected later
    rcases inv.delivered p e logged selected later (behind p e logged) with
      ready | flying | waiting
    · exact ready
    · exact absurd flying (landed p)
    · simp [read] at waiting
  · intro p e logged selected
    exact inv.clean read landed p e logged selected (behind p e logged)

theorem inv_start {version : Version} (tidy : Tidy cfg s)
    (started : step cfg s (.start version) = some t) :
    ∃ d, Inv cfg (resumePosition (storedPosition t.row)) t d ∧
      work t = 4 * (s.log.length - resumePosition (storedPosition t.row)) + t.orphans.length ∧
      t.log = s.log := by
  have after := tidy_step tidy started
  cases live : s.actor with
  | some other => simp [step, live] at started
  | none =>
    simp only [step, live, Option.some.injEq] at started
    subst started
    refine ⟨_, ⟨rfl, after, rfl, ?_, ?_, ?_, ?_, ?_⟩, ?_, rfl⟩
    · exact fun p member => absurd member (OrderedSet.not_mem_empty p)
    · exact fun p member => absurd member (OrderedSet.not_mem_empty p)
    · exact fun ack member => absurd member List.not_mem_nil
    · intro p e _ _ later below
      exact absurd below (Nat.not_le.mpr later)
    · exact fun _ _ p e _ _ below => below
    · simp [work, startActor, queued]

end progress

section results
variable [DecidableEq V] {cfg : Config V} {s t u : System} {d : Dispatcher} {base : Nat}

omit [DecidableEq V] in
theorem log_quiet (inv : Inv cfg base s d) (moved : Quiet cfg s d t) : t.log = s.log := by
  cases moved with
  | batched => rfl
  | sent => rfl
  | worked => rfl
  | workedOrphan => rfl
  | skipped entry rest next =>
    obtain ⟨_, _, _, _, applied⟩ := skipEvent_done inv next
    rw [applied]
  | acked index position between found =>
    obtain ⟨_, _, _, _, _, applied⟩ :=
      applyAck_done position (tidy_received (inv.tidy.actor d inv.live) index) inv.positive
    rw [applied]

def Going (cfg : Config V) (base : Nat) (log : List Event) (s : System) : Prop :=
  ∃ d, Inv cfg base s d ∧ s.log = log

theorem going_step {a : Action} {log : List Event} (going : Going cfg base log s)
    (taken : quietStep cfg s a = some t) : Going cfg base log t ∧ work t < work s := by
  obtain ⟨d, inv, same⟩ := going
  have moved := quiet_of_step inv.live taken
  have after : Tidy cfg t := by
    unfold quietStep at taken
    split at taken
    · exact tidy_step inv.tidy taken
    · exact absurd taken (by simp)
  obtain ⟨d', kept⟩ := inv_step inv after moved
  exact ⟨⟨d', kept, (log_quiet inv moved).trans same⟩, work_falls inv moved⟩

/-- From any reachable state, an effect started and left in peace comes to an end within four
    steps for each event behind the resume position and one for each message of an earlier
    incarnation; where it can go no further it has caught up. -/
theorem effects_catch_up (cfg : Config V) (log : List Event) (actions : List Action)
    (s t u : System) (version : Version) (labels : List Action)
    (run : exec (step cfg) (initial log) actions = some s)
    (started : step cfg s (.start version) = some t) (decodes : Decodes cfg s.log)
    (quietly : exec (quietStep cfg) t labels = some u) :
    labels.length ≤ 4 * (s.log.length - resumePosition (storedPosition t.row)) +
        t.orphans.length ∧
      ((∀ a, quietStep cfg u a = none) →
        ∃ d, u.actor = some d ∧ u.log = s.log ∧
          CaughtUp cfg (resumePosition (storedPosition t.row)) u d) := by
  have tidy : Tidy cfg s :=
    invariant (fun kept taken => tidy_step kept taken) (tidy_initial cfg log) run
  obtain ⟨d, inv, size, same⟩ := inv_start tidy started
  have going : Going cfg (resumePosition (storedPosition t.row)) s.log t := ⟨d, inv, same⟩
  constructor
  · have bound := length_bounded (fun kept taken => (going_step kept taken).1)
      (fun kept taken => (going_step kept taken).2) going quietly
    omega
  · intro stuck
    obtain ⟨e, last, logs⟩ :=
      invariant (fun kept taken => (going_step kept taken).1) going quietly
    refine ⟨e, last.live, logs, ?_⟩
    exact caughtUp_of_stuck last (logs ▸ decodes) stuck

def oneByOne : List Action :=
  [.nextBatch 1, .dispatch (.ok none) (.ok .unkeyed) true, .work .global .ok, .ack 0 true,
    .nextBatch 2, .dispatch (.ok none) (.ok .unkeyed) true, .work .global .ok, .ack 0 true]

theorem effects_catch_up_one_by_one : ∃ t u,
    step sampleConfig (initial [plainEvent, plainEvent]) (.start (release 1 0 0)) = some t ∧
    exec (quietStep sampleConfig) t oneByOne = some u ∧
    (oneByOne.length ≤ 4 * (2 - resumePosition (storedPosition t.row)) + t.orphans.length ∧
      ((∀ a, quietStep sampleConfig u a = none) →
        ∃ d, u.actor = some d ∧ u.log = [plainEvent, plainEvent] ∧
          CaughtUp sampleConfig (resumePosition (storedPosition t.row)) u d)) := by
  have runs : ((step sampleConfig (initial [plainEvent, plainEvent]) (.start (release 1 0 0))).bind
      fun t => exec (quietStep sampleConfig) t oneByOne).isSome = true := by decide +kernel
  obtain ⟨u, both⟩ := Option.isSome_iff_exists.mp runs
  obtain ⟨t, started, quietly⟩ := Option.bind_eq_some_iff.mp both
  have decodes : Decodes sampleConfig (initial [plainEvent, plainEvent]).log := by
    intro p e logged _
    have plain : e = plainEvent := by
      rcases List.mem_cons.mp logged with same | rest
      · exact (Prod.mk.inj same).2
      · exact (Prod.mk.inj (List.mem_singleton.mp rest)).2
    subst plain
    have reads : sampleCodec.storedFromSlice plainEvent.data = .ok plainRecord := by decide +kernel
    have plain : plainRecord.encryptionScope = none := rfl
    exact deserializeEvent_reads sampleCodec p reads plain
  exact ⟨t, u, started, quietly,
    effects_catch_up sampleConfig [plainEvent, plainEvent] [] _ t u (release 1 0 0) oneByOne rfl
      started decodes quietly⟩

end results

end UmariEffectProgress
