import Umari.PooledDispatch
import Umari.SequentialProjection

/-!
Monotonicity of the stored position. The sequential actor only ever stores its
cursor, which never moves back. The pooled actor stores one below the lowest
event in flight, so it moves back when an event is dispatched at or below the
position that is stored already. A reset starts over with no stored position.
-/
namespace UmariWatermarkOrder
open OrderedSets PositionedLogs GuardedRuns UmariEventStore UmariStoredEvents
open UmariStateDatabases UmariModuleActor UmariPooledDispatch
variable {V T : Type}

/-- The condition on a dispatch: a plain event is sent above the stored position. -/
def sendsAbove [DecidableEq V] (cfg : Config V) (s : System) : Action → Bool
  | .dispatch answer partition _ =>
    match s.actor with
    | none => true
    | some d =>
      match d.batch with
      | [] => true
      | entry :: _ =>
        match prepareEvent cfg.codec entry answer partition with
        | .ok (some _) => (storedPosition s.row).all fun last => decide (last < entry.1)
        | _ => true
  | _ => true

structure Inv (cfg : Config V) (s : System) : Prop where
  tidy : Tidy cfg s
  reached : ∀ d, s.actor = some d → ∀ n, storedPosition s.row = some n →
    n ≤ d.progress.cursor ∧ ∀ p, p ∈ d.progress.inFlight → n < p
  monotone : Monotone s.writes

variable {cfg : Config V} {s t : System}

theorem inv_crash (stored : ∀ n, storedPosition s.row = some n → n ≤ s.log.length)
    (monotone : Monotone s.writes) : Inv cfg (crash s) where
  tidy := tidy_crash stored
  reached := fun _ live => absurd live (by simp [crash])
  monotone := monotone

theorem inv_applyAck {d : Dispatcher} {position : Nat} {commits : Bool}
    (stored : ∀ n, storedPosition s.row = some n → n ≤ s.log.length) (tidy : TidyActor cfg s d)
    (delivered : position ≤ d.progress.cursor) (monotone : Monotone s.writes)
    (reached : ∀ n, storedPosition s.row = some n →
      n ≤ d.progress.cursor ∧ ∀ p, p ∈ d.progress.inFlight.remove position → n < p) :
    Inv cfg (applyAck s d position commits) := by
  have tidyAfter : Tidy cfg (applyAck s d position commits) := tidy_applyAck stored tidy delivered
  rcases applyAck_cases position commits tidy.synced with
    failed | ⟨watermark, writes, computed, added, result⟩
  · rw [failed]
    exact inv_crash stored monotone
  · obtain ⟨least, drained, pinned⟩ := calculateWatermark_some computed
    have grows : ∀ n, storedPosition s.row = some n → n ≤ watermark := by
      intro n found
      obtain ⟨below, above⟩ := reached n found
      by_cases busy : ∃ p, p ∈ d.progress.inFlight.remove position
      · obtain ⟨p, flying, next⟩ := pinned busy
        have strict := above p flying
        omega
      · rw [drained (fun p flying => busy ⟨p, flying⟩)]
        exact Nat.le_trans below (Nat.le_max_left _ _)
    have monotoneAfter : Monotone (s.writes ++ writes) := by
      rcases added with none | one
      · rw [none, List.append_nil]
        exact monotone
      · rw [one]
        exact monotone_snoc monotone grows
    rcases result with failed | ⟨row, _, updated, _, applied⟩
    · rw [failed]
      exact inv_crash stored monotoneAfter
    · rw [applied] at tidyAfter ⊢
      refine ⟨tidyAfter, ?_, monotoneAfter⟩
      intro d' live n found
      obtain rfl := Option.some.inj live
      rw [updated] at found
      obtain rfl := Option.some.inj found
      exact ⟨watermark_le_cursor computed (Nat.max_le.mpr ⟨tidy.completed, delivered⟩)
        (fun p member => tidy.flying p (OrderedSet.mem_remove.mp member).1), least⟩

variable [DecidableEq V]

theorem inv_step {a : Action} (inv : Inv cfg s) (met : sendsAbove cfg s a = true)
    (taken : step cfg s a = some t) : Inv cfg t := by
  have tidy := tidy_step inv.tidy taken
  cases moved_of_step taken with
  | appended events => exact ⟨tidy, inv.reached, inv.monotone⟩
  | started version idle =>
    refine ⟨tidy, ?_, inv.monotone⟩
    intro d live n found
    obtain rfl := Option.some.inj live
    constructor
    · have resumed : storedPosition (openDatabase () cfg.name version ⟨s.row, ()⟩).row =
          some n := found
      simp only [resumed, resumePosition, Option.getD_some, Nat.le_refl]
    · exact fun p member => absurd member (OrderedSet.not_mem_empty p)
  | batched d upto live done forward inside =>
    refine ⟨tidy, ?_, inv.monotone⟩
    intro d' live' n found
    obtain rfl := Option.some.inj live'
    obtain ⟨below, above⟩ := inv.reached d live n found
    exact ⟨Nat.le_trans below forward, above⟩
  | skipped d entry rest commits live next shredded =>
    have old := inv.tidy.actor d live
    refine inv_applyAck inv.tidy.stored (tidy_skipping old next) (tidy_rest old next).1
      inv.monotone ?_
    intro n found
    obtain ⟨below, above⟩ := inv.reached d live n found
    refine ⟨below, ?_⟩
    intro p member
    obtain ⟨flying, different⟩ := OrderedSet.mem_remove.mp member
    exact above p ((OrderedSet.mem_insert.mp flying).resolve_left different)
  | sent d entry rest key message live next plain position =>
    refine ⟨tidy, ?_, inv.monotone⟩
    intro d' live' n found
    obtain rfl := Option.some.inj live'
    have stored : storedPosition s.row = some n := found
    obtain ⟨below, above⟩ := inv.reached d live n stored
    refine ⟨below, ?_⟩
    intro p member
    rcases OrderedSet.mem_insert.mp member with same | flying
    · simp only [sendsAbove, live, next, plain, stored, Option.all_some, decide_eq_true_eq] at met
      rw [same, position]
      exact met
    · exact above p flying
  | worked worker message rest outcome mailbox => exact ⟨tidy, inv.reached, inv.monotone⟩
  | restarted worker d live => exact ⟨tidy, inv.reached, inv.monotone⟩
  | workedOrphan index message outcome => exact ⟨tidy, inv.reached, inv.monotone⟩
  | acked d index position commits live between found =>
    have old := inv.tidy.actor d live
    have bound : position ≤ d.progress.cursor :=
      old.acked (.ok position) (List.mem_of_getElem? found)
    refine inv_applyAck inv.tidy.stored (tidy_received old index) bound inv.monotone ?_
    intro n stored
    obtain ⟨below, above⟩ := inv.reached d live n stored
    exact ⟨below, fun p member => above p (OrderedSet.mem_remove.mp member).1⟩
  | crashed => exact inv_crash inv.tidy.stored inv.monotone

/-- The sequential actor never moves its stored position back. The pooled actor does
    not in a run that sends every plain event above the stored position. -/
theorem last_position_monotone (cfg : Config V) (projector : UmariSequentialProjection.Config V T)
    (log : List Event) :
    (∀ actions, Meets (step cfg) (fun s a => sendsAbove cfg s a = true) (initial log) actions →
      Always (step cfg) (fun s => Monotone s.writes) (initial log) actions) ∧
    (∀ actions, Always (UmariSequentialProjection.step projector) (fun s => Monotone s.writes)
      (UmariSequentialProjection.initial projector.guest.empty log) actions) := by
  constructor
  · intro actions met
    have start : Inv cfg (initial log) :=
      ⟨tidy_initial cfg log, fun _ live => absurd live (by simp [initial]),
        fun _ _ member => absurd member (by simp [initial])⟩
    exact always_of_meets (fun inv met taken => inv_step inv met taken) (fun inv => inv.monotone)
      start met
  · intro actions
    apply always_iff_prefix.mpr
    intro first t _ run
    exact (UmariSequentialProjection.inv_run run).monotone

def skipThenTwo : List Action := [
  .start (release 1 0 0),
  .nextBatch 3,
  .dispatch (.ok none) (.ok .unkeyed) true,
  .dispatch (.ok none) (.ok .unkeyed) true,
  .dispatch (.ok none) (.ok .unkeyed) true,
  .work .global .ok,
  .work .global .ok]

/-- Two plain events in front of the shredded one: each acknowledgement and the skip
    write at least what is stored. -/
theorem plain_before_secret_monotone :
    (exec (step sampleConfig) (initial [plainEvent, plainEvent, secretEvent])
      (skipThenTwo ++ [.ack 1 true, .ack 0 true])).map (fun final => final.writes) =
        some [(none, 0), (some 0, 3)] ∧
    Always (step sampleConfig) (fun s => Monotone s.writes)
      (initial [plainEvent, plainEvent, secretEvent]) (skipThenTwo ++ [.ack 1 true, .ack 0 true]) :=
  ⟨by decide +kernel, (last_position_monotone sampleConfig UmariSequentialProjection.positionConfig
    [plainEvent, plainEvent, secretEvent]).1 _ (by decide +kernel)⟩

/-- A shredded event in front of two plain ones: the skip stores position three, and
    the acknowledgement of position three then stores position one. -/
theorem skip_then_ack_moves_back : ∃ final,
    exec (step sampleConfig) (initial [secretEvent, plainEvent, plainEvent])
      (skipThenTwo ++ [.ack 1 true]) = some final ∧ ¬ Monotone final.writes := by
  have seen : (exec (step sampleConfig) (initial [secretEvent, plainEvent, plainEvent])
      (skipThenTwo ++ [.ack 1 true])).map (fun final => final.writes) =
        some [(none, 3), (some 3, 1)] := by decide +kernel
  obtain ⟨final, run, writes⟩ := Option.map_eq_some_iff.mp seen
  refine ⟨final, run, ?_⟩
  intro monotone
  have back := monotone (some 3) 1 (by rw [writes]; decide) 3 rfl
  omega

end UmariWatermarkOrder
