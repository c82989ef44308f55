import Mathlib.Data.List.Find
import Umari.CommandRuns
import Umari.FoldQueries
import Umari.JsCommands
import Umari.JsonCodec
import Umari.QueryAgreement

/-!
The replay loop of the JavaScript SDK against the Rust one, over the same batches. The
Rust loop types every event first and compares keys as UUIDs; the JavaScript loop
compares their texts, and recognises a shredded event by the text of its data. Both
offer what is left to their folds, each fold with its own filter.
-/
namespace UmariReplayAgreement
open FallibleFolds UmariEventStore UmariStoredEvents UmariTransactions UmariBatchLoops
  UmariDcbQueries UmariCommandRuns
open UmariFolds (Fold RunningFold RunError Outcome guestEvent shredded boxApply replayBatch
  matchesFoldQuery matchesFoldQuery_iff replayLoop replayLoop_takes)
open UmariJsFolds (Json BoundFold JsError Slot RunResult accepts_iff liftStoredEvent
  liftStoredEvent_labels skipShredded applySlot runBatch runFolds runFolds_takes initFoldStates)

variable {V W : Type}

def HandedOut (codec : Codec V) (raw : WitStoredEvent) : Prop :=
  ∃ getKey entry, batchEntry codec getKey entry = .ok raw

/-- What the host prints reads back: a UUID as itself, and no value but null as null. -/
structure ReadsBack (codec : Codec V) : Prop where
  uuids : KeepsUuids codec
  null : ∀ v w, codec.fromStr (codec.toString v) = .ok w →
    (w = codec.null ↔ codec.toString v = "null")

/-- A fold in both languages. Its entries may stand in another order, with one entry for
    an event type; related states stay related by an event that both sides can read. -/
structure FoldPair (codec : Codec V) (json : Json W) where
  key : String
  F : Fold V
  fold : F.Self
  binding : DomainIdBindings
  bound : BoundFold W
  entries : F.eventDomainIds.Perm bound.entries
  onePerType : (F.eventDomainIds.map EventDomainId.eventType).Nodup
  sameBindings : ∀ field, binding.get field = bound.bindings.get field
  related : F.State → bound.State → Prop
  initial : related F.default bound.initial
  step : ∀ raw event stored item rust js, guestEvent codec raw = .ok event →
    liftStoredEvent json raw = .ok stored →
    F.fromEvent event.eventType event.data = some (.ok item) → related rust js →
    ∃ next, bound.next js stored = .ok next ∧
      related (F.apply fold rust { event with data := item }) next

structure Paired (codec : Codec V) (json : Json W) where
  pair : FoldPair codec json
  rust : pair.F.State
  js : pair.bound.State
  agree : pair.related rust js

section definitions
variable {codec : Codec V} {json : Json W}

def Paired.running (paired : Paired codec json) : RunningFold V :=
  ⟨paired.pair.F, paired.pair.fold, paired.pair.binding, paired.rust⟩

def Paired.slot (paired : Paired codec json) : Slot W :=
  ⟨paired.pair.key, paired.pair.bound, paired.js⟩

def FoldPair.start (pair : FoldPair codec json) : Paired codec json :=
  ⟨pair, pair.F.default, pair.bound.initial, pair.initial⟩

def rustFolds (pairs : List (FoldPair codec json)) : List (RunningFold V) :=
  pairs.map fun pair => ⟨pair.F, pair.fold, pair.binding, pair.F.default⟩

def jsFolds (pairs : List (FoldPair codec json)) : List (Slot W) :=
  initFoldStates (pairs.map fun pair => (pair.key, pair.bound))

variable [DecidableEq V]

/-- Both sides can read an event, and a Rust fold that takes it can decode its payload. -/
structure Deserialises (pairs : List (FoldPair codec json)) (raw : WitStoredEvent) : Prop where
  typed : ∃ event, guestEvent codec raw = .ok event
  lifted : ∃ stored, liftStoredEvent json raw = .ok stored
  decoded : ∀ pair ∈ pairs, ∀ event, guestEvent codec raw = .ok event →
    shredded codec event = false →
    matchesFoldQuery pair.F event.eventType event.tags pair.binding = true →
    ∃ item, pair.F.fromEvent event.eventType event.data = some (.ok item)

/-- The replay loop of `Command::run` over the answers of `next_batch`. -/
def replayBatches (codec : Codec V) (key : Option Uuid) (batches : List (List WitStoredEvent))
    (folds : List (RunningFold V)) : Except RunError (Outcome V) :=
  (overBatches (UmariFolds.takeBatch codec key) batches folds).map Outcome.ofEnd

def runBatches (json : Json W) (key : Option String) (batches : List (List WitStoredEvent))
    (slots : List (Slot W)) : Except JsError (RunResult W) :=
  (overBatches (UmariJsFolds.takeBatch json key) batches slots).map RunResult.ofEnd

def RustStops (codec : Codec V) (key : Option Uuid) (folds : List (RunningFold V))
    (before : List WitStoredEvent) (raw : WitStoredEvent) : Prop :=
  (∃ finals, replayBatch codec key folds before = .ok (.states finals)) ∧
    ∃ event, guestEvent codec raw = .ok event ∧ UmariFolds.isIdempotent key event = true

def JsStops (json : Json W) (key : Option String) (slots : List (Slot W))
    (before : List WitStoredEvent) (raw : WitStoredEvent) : Prop :=
  (∃ finals, runBatch json key slots before = .ok (.drained finals)) ∧
    UmariJsFolds.isIdempotent key raw = true

/-- Both loops stop at the same event, or both come to the end with related states. -/
inductive SameEnd (codec : Codec V) (json : Json W) (key : Option Uuid)
    (pairs : List (FoldPair codec json)) (raws : List WitStoredEvent) :
    Outcome V → RunResult W → Prop where
  | idempotent {before after : List WitStoredEvent} {raw : WitStoredEvent} :
      raws = before ++ raw :: after → RustStops codec key (rustFolds pairs) before raw →
      JsStops json (key.map codec.uuidToString) (jsFolds pairs) before raw →
      SameEnd codec json key pairs raws .idempotent .idempotent
  | states {finals : List (Paired codec json)} : finals.map Paired.pair = pairs →
      SameEnd codec json key pairs raws (.states (finals.map Paired.running))
        (.drained (finals.map Paired.slot))

end definitions

section events
variable {codec : Codec V} {raw : WitStoredEvent} {event : StoredEvent V}

theorem handedOut_texts (handed : HandedOut codec raw) :
    (∃ v, raw.data = codec.toString v) ∧
      ∃ id : Option Uuid, raw.idempotencyKey = id.map codec.uuidToString := by
  obtain ⟨getKey, entry, made⟩ := handed
  simp only [batchEntry, do_ok, pure, Except.pure, Except.ok.injEq] at made
  obtain ⟨record, _, data, _, rfl⟩ := made
  exact ⟨⟨data, rfl⟩, ⟨record.idempotencyKey, rfl⟩⟩

theorem guestEvent_fields (typed : guestEvent codec raw = .ok event) :
    event.encryptionScope = raw.encryptionScope ∧ codec.fromStr raw.data = .ok event.data ∧
      UmariFolds.parseOptionalUuid codec "idempotency_key" raw.idempotencyKey =
        .ok event.idempotencyKey := by
  simp only [guestEvent, do_ok, mapError_ok, pure, Except.pure, Except.ok.injEq] at typed
  obtain ⟨_, _, _, _, _, _, _, _, _, _, keyed, parsed, _, _, data, read, rfl⟩ := typed
  exact ⟨rfl, read, parsed⟩

theorem parsed_key {text : Option String} {id : Option Uuid} {what : String}
    (parsed : UmariFolds.parseOptionalUuid codec what text = .ok id) :
    text.bind codec.parseUuid = id ∧ (id = none → text = none) := by
  cases text with
  | none =>
    obtain rfl : none = id := Except.ok.inj parsed
    exact ⟨rfl, fun _ => rfl⟩
  | some text =>
    obtain ⟨found, known, rfl⟩ := map_ok.mp parsed
    unfold UmariFolds.parseGuestUuid at known
    cases parse : codec.parseUuid text with
    | none => simp [parse] at known
    | some other =>
      simp only [parse, Except.ok.injEq] at known
      exact ⟨by simp [parse, known], fun none => by simp at none⟩

theorem keys_agree (uuids : KeepsUuids codec) (key : Option Uuid) (handed : HandedOut codec raw)
    (typed : guestEvent codec raw = .ok event) :
    UmariJsFolds.isIdempotent (key.map codec.uuidToString) raw =
      UmariFolds.isIdempotent key event := by
  obtain ⟨id, printed⟩ := (handedOut_texts handed).2
  obtain ⟨parsed, kept⟩ := parsed_key (guestEvent_fields typed).2.2
  unfold UmariJsFolds.isIdempotent UmariFolds.isIdempotent
  cases key with
  | none => rfl
  | some key =>
    rw [printed] at parsed kept ⊢
    cases id with
    | none =>
      rw [← parsed]
      rfl
    | some id =>
      cases found : event.idempotencyKey with
      | none => exact absurd (kept found) (by simp)
      | some other =>
        rw [found] at parsed
        have read : codec.parseUuid (codec.uuidToString id) = some other := parsed
        obtain rfl : other = id := uuids id other read
        dsimp only [Option.map_some]
        congr 1
        apply propext
        constructor
        · intro same
          rw [same] at read
          exact (uuids key other read).symm
        · intro same
          rw [same]

variable [DecidableEq V]

theorem shredded_agrees (reads : ReadsBack codec) (handed : HandedOut codec raw)
    (typed : guestEvent codec raw = .ok event) : shredded codec event = skipShredded raw := by
  obtain ⟨v, printed⟩ := (handedOut_texts handed).1
  obtain ⟨sameScope, read, _⟩ := guestEvent_fields typed
  rw [printed] at read
  have same : decide (event.data = codec.null) = (raw.data == "null") := by
    rw [printed, Bool.eq_iff_iff, decide_eq_true_iff, beq_iff_eq]
    exact reads.null v event.data read
  rw [shredded, skipShredded, sameScope, same]

end events

section filters

variable {codec : Codec V} {json : Json W}

theorem required_agrees (pair : FoldPair codec json) (eventType : String) :
    pair.F.required eventType = pair.bound.required eventType := by
  unfold Fold.required BoundFold.required
  apply List.find?_eq_find?_of_perm pair.entries
  intro left first right second
  apply List.inj_on_of_nodup_map pair.onePerType first.1 second.1
  exact (beq_iff_eq.mp first.2).trans (beq_iff_eq.mp second.2).symm

theorem filters_agree (pair : FoldPair codec json) (eventType : String) (tags : List String) :
    pair.bound.accepts eventType tags = matchesFoldQuery pair.F eventType tags pair.binding := by
  rw [Bool.eq_iff_iff, accepts_iff, matchesFoldQuery_iff, required_agrees]
  apply exists_congr
  intro required
  apply and_congr_right
  intro _
  apply forall_congr'
  intro tag
  rw [entryTags_congr fun field _ => pair.sameBindings field, UmariQueryAgreement.mem_boundTags]

end filters

section steps
variable [DecidableEq V] {codec : Codec V} {json : Json W} {raw : WitStoredEvent}
  {event : StoredEvent V} {stored : UmariJsFolds.JsStoredEvent W}

theorem paired_step {paired : Paired codec json} (typed : guestEvent codec raw = .ok event)
    (lifted : liftStoredEvent json raw = .ok stored) (whole : shredded codec event = false)
    (decoded : matchesFoldQuery paired.pair.F event.eventType event.tags paired.pair.binding =
      true → ∃ item, paired.pair.F.fromEvent event.eventType event.data = some (.ok item)) :
    ∃ next : Paired codec json, next.pair = paired.pair ∧
      boxApply codec paired.running event = .ok next.running ∧
      applySlot paired.slot stored = .ok next.slot := by
  obtain ⟨pair, rust, js, agree⟩ := paired
  dsimp only at decoded
  obtain ⟨jsType, jsTags⟩ := liftStoredEvent_labels lifted
  obtain ⟨rustType, rustTags⟩ := UmariFolds.guestEvent_labels typed
  have filtered : pair.bound.accepts stored.eventType stored.tags =
      matchesFoldQuery pair.F event.eventType event.tags pair.binding := by
    rw [jsType, jsTags, rustType, rustTags]
    exact filters_agree pair raw.eventType raw.tags
  have kept : (event.encryptionScope.isSome && decide (event.data = codec.null)) = false := whole
  cases taken : matchesFoldQuery pair.F event.eventType event.tags pair.binding with
  | false =>
    refine ⟨⟨pair, rust, js, agree⟩, rfl, UmariFolds.boxApply_ignores taken, ?_⟩
    exact if_neg (by simp [Paired.slot, filtered, taken])
  | true =>
    obtain ⟨item, made⟩ := decoded taken
    obtain ⟨next, moved, agree⟩ := pair.step raw event stored item rust js typed lifted made agree
    refine ⟨⟨pair, _, next, agree⟩, rfl, ?_, ?_⟩
    · simp [boxApply, Paired.running, kept, taken, made]
    · simp [applySlot, Paired.slot, filtered, taken, moved, Except.map]

theorem all_step {all : List (Paired codec json)} (typed : guestEvent codec raw = .ok event)
    (lifted : liftStoredEvent json raw = .ok stored) (whole : shredded codec event = false)
    (decoded : ∀ paired ∈ all, matchesFoldQuery paired.pair.F event.eventType event.tags
      paired.pair.binding = true →
        ∃ item, paired.pair.F.fromEvent event.eventType event.data = some (.ok item)) :
    ∃ nexts : List (Paired codec json), nexts.map Paired.pair = all.map Paired.pair ∧
      (all.map Paired.running).mapM (fun running => boxApply codec running event) =
        .ok (nexts.map Paired.running) ∧
      (all.map Paired.slot).mapM (fun slot => applySlot slot stored) =
        .ok (nexts.map Paired.slot) := by
  induction all with
  | nil => exact ⟨[], rfl, rfl, rfl⟩
  | cons paired rest ih =>
    obtain ⟨next, same, rustNext, jsNext⟩ :=
      paired_step typed lifted whole (decoded paired List.mem_cons_self)
    obtain ⟨nexts, others, rustRest, jsRest⟩ :=
      ih fun other member => decoded other (List.mem_cons_of_mem _ member)
    refine ⟨next :: nexts, by rw [List.map_cons, List.map_cons, same, others], ?_, ?_⟩
    · rw [List.map_cons, List.mapM_cons, rustNext]
      simp only [bind, Except.bind, rustRest, pure, Except.pure, List.map_cons]
    · rw [List.map_cons, List.mapM_cons, jsNext]
      simp only [bind, Except.bind, jsRest, pure, Except.pure, List.map_cons]

theorem boxApply_shredded {folds : List (RunningFold V)} (gone : shredded codec event = true) :
    folds.mapM (fun running => boxApply codec running event) = .ok folds := by
  apply mapM_ok.mpr
  apply List.forall₂_same.mpr
  intro running _
  exact if_pos gone

end steps

section batches
variable [DecidableEq V] {codec : Codec V} {json : Json W} {key : Option Uuid}

theorem drained_together (reads : ReadsBack codec) {raws : List WitStoredEvent}
    (handed : ∀ raw ∈ raws, HandedOut codec raw)
    (unmatched : ∀ raw ∈ raws,
      UmariJsFolds.isIdempotent (key.map codec.uuidToString) raw = false)
    (all : List (Paired codec json))
    (fine : ∀ raw ∈ raws, Deserialises (all.map Paired.pair) raw) :
    ∃ finals : List (Paired codec json), finals.map Paired.pair = all.map Paired.pair ∧
      replayBatch codec key (all.map Paired.running) raws =
        .ok (.states (finals.map Paired.running)) ∧
      runBatch json (key.map codec.uuidToString) (all.map Paired.slot) raws =
        .ok (.drained (finals.map Paired.slot)) := by
  induction raws generalizing all with
  | nil => exact ⟨all, rfl, rfl, rfl⟩
  | cons raw rest ih =>
    have here := fine raw List.mem_cons_self
    obtain ⟨event, typed⟩ := here.typed
    obtain ⟨stored, lifted⟩ := here.lifted
    have other := unmatched raw List.mem_cons_self
    have sameKey := keys_agree reads.uuids key (handed raw List.mem_cons_self) typed
    have sameShred := shredded_agrees reads (handed raw List.mem_cons_self) typed
    have later := ih (fun other member => handed other (List.mem_cons_of_mem _ member))
      (fun other member => unmatched other (List.mem_cons_of_mem _ member))
    rw [replayBatch, runBatch, typed, other, ← sameShred]
    rw [other] at sameKey
    simp only [Except.bind, ← sameKey, Bool.false_eq_true, if_false]
    by_cases gone : shredded codec event = true
    · rw [boxApply_shredded gone, if_pos gone]
      exact later all fun raw member => fine raw (List.mem_cons_of_mem _ member)
    · have whole : shredded codec event = false := Bool.eq_false_iff.mpr gone
      obtain ⟨nexts, same, rustNext, jsNext⟩ := all_step typed lifted whole
        fun paired member taken => here.decoded paired.pair
          (List.mem_map.mpr ⟨paired, member, rfl⟩) event typed whole taken
      rw [rustNext, if_neg gone, lifted]
      dsimp only
      rw [jsNext, ← same]
      apply later nexts
      intro raw member
      rw [same]
      exact fine raw (List.mem_cons_of_mem _ member)

theorem rust_append (folds : List (RunningFold V)) (left right : List WitStoredEvent) :
    UmariFolds.takeBatch codec key folds (left ++ right) =
      (UmariFolds.takeBatch codec key folds left).bind
        (goOn fun folds => UmariFolds.takeBatch codec key folds right) := by
  induction left generalizing folds with
  | nil => rfl
  | cons raw rest ih =>
    unfold UmariFolds.takeBatch at ih ⊢
    rw [List.cons_append, replayBatch, replayBatch]
    cases guestEvent codec raw with
    | error err => rfl
    | ok event =>
      dsimp only [Except.bind]
      cases UmariFolds.isIdempotent key event with
      | true => rfl
      | false =>
        simp only [Bool.false_eq_true, if_false]
        cases folds.mapM fun running => boxApply codec running event with
        | error err => rfl
        | ok next => exact ih next

theorem js_append {json : Json W} {key : Option String} (slots : List (Slot W))
    (left right : List WitStoredEvent) :
    UmariJsFolds.takeBatch json key slots (left ++ right) =
      (UmariJsFolds.takeBatch json key slots left).bind
        (goOn fun slots => UmariJsFolds.takeBatch json key slots right) := by
  induction left generalizing slots with
  | nil => rfl
  | cons raw rest ih =>
    unfold UmariJsFolds.takeBatch at ih ⊢
    rw [List.cons_append, runBatch, runBatch]
    cases UmariJsFolds.isIdempotent key raw with
    | true => rfl
    | false =>
      simp only [Bool.false_eq_true, if_false]
      cases skipShredded raw with
      | true => exact ih slots
      | false =>
        simp only [Bool.false_eq_true, if_false]
        cases liftStoredEvent json raw with
        | error err => rfl
        | ok stored =>
          dsimp only [Except.bind]
          cases slots.mapM fun slot => applySlot slot stored with
          | error err => rfl
          | ok next => exact ih next

theorem rust_stops {folds : List (RunningFold V)} {before : List WitStoredEvent}
    {raw : WitStoredEvent} (stops : RustStops codec key folds before raw)
    (after : List WitStoredEvent) :
    replayBatch codec key folds (before ++ raw :: after) = .ok .idempotent := by
  obtain ⟨⟨finals, drained⟩, event, typed, same⟩ := stops
  have first : UmariFolds.takeBatch codec key folds before = .ok (.inl finals) :=
    UmariFolds.takeBatch_ok.mpr drained
  have here : UmariFolds.takeBatch codec key finals (raw :: after) = .ok (.inr ()) := by
    apply UmariFolds.takeBatch_ok.mpr
    rw [replayBatch, typed]
    exact if_pos same
  have stopped : UmariFolds.takeBatch codec key folds (before ++ raw :: after) = .ok (.inr ()) := by
    rw [rust_append, first]
    exact here
  exact UmariFolds.takeBatch_ok.mp stopped

theorem js_stops {json : Json W} {key : Option String} {slots : List (Slot W)}
    {before : List WitStoredEvent} {raw : WitStoredEvent}
    (stops : JsStops json key slots before raw) (after : List WitStoredEvent) :
    runBatch json key slots (before ++ raw :: after) = .ok .idempotent := by
  obtain ⟨⟨finals, drained⟩, same⟩ := stops
  have first : UmariJsFolds.takeBatch json key slots before = .ok (.inl finals) :=
    UmariJsFolds.takeBatch_ok.mpr drained
  have here : UmariJsFolds.takeBatch json key finals (raw :: after) = .ok (.inr ()) := by
    apply UmariJsFolds.takeBatch_ok.mpr
    exact if_pos same
  have stopped : UmariJsFolds.takeBatch json key slots (before ++ raw :: after) =
      .ok (.inr ()) := by
    rw [js_append, first]
    exact here
  exact UmariJsFolds.takeBatch_ok.mp stopped

theorem batch_agrees (reads : ReadsBack codec) {pairs : List (FoldPair codec json)}
    {raws : List WitStoredEvent} (handed : ∀ raw ∈ raws, HandedOut codec raw)
    (fine : ∀ raw ∈ raws, Deserialises pairs raw) :
    ∃ outcome result, replayBatch codec key (rustFolds pairs) raws = .ok outcome ∧
      runBatch json (key.map codec.uuidToString) (jsFolds pairs) raws = .ok result ∧
      SameEnd codec json key pairs raws outcome result := by
  have started : (pairs.map FoldPair.start).map Paired.pair = pairs := by
    rw [List.map_map]
    exact List.map_id _
  have rustStart : (pairs.map FoldPair.start).map Paired.running = rustFolds pairs :=
    List.map_map
  have jsStart : (pairs.map FoldPair.start).map Paired.slot = jsFolds pairs := by
    rw [jsFolds, initFoldStates, List.map_map, List.map_map]
    rfl
  cases found : raws.find? fun raw =>
      UmariJsFolds.isIdempotent (key.map codec.uuidToString) raw with
  | none =>
    have unmatched := List.find?_eq_none.mp found
    obtain ⟨finals, same, rust, js⟩ := drained_together reads handed
      (fun raw member => Bool.eq_false_iff.mpr (unmatched raw member)) (pairs.map FoldPair.start)
      (by rw [started]; exact fine)
    rw [rustStart] at rust
    rw [jsStart] at js
    exact ⟨_, _, rust, js, SameEnd.states (same.trans started)⟩
  | some raw =>
    obtain ⟨hit, before, after, rfl, unmatched⟩ := List.find?_eq_some_iff_append.mp found
    have inside : ∀ other ∈ before, other ∈ before ++ raw :: after :=
      fun other member => List.mem_append_left _ member
    have others : ∀ other ∈ before,
        UmariJsFolds.isIdempotent (key.map codec.uuidToString) other = false := by
      intro other member
      simpa using unmatched other member
    obtain ⟨finals, _, rust, js⟩ := drained_together reads
      (fun other member => handed other (inside other member)) others (pairs.map FoldPair.start)
      (by rw [started]; exact fun other member => fine other (inside other member))
    rw [rustStart] at rust
    rw [jsStart] at js
    have here : raw ∈ before ++ raw :: after := List.mem_append_right _ List.mem_cons_self
    obtain ⟨event, typed⟩ := (fine raw here).typed
    have same := keys_agree reads.uuids key (handed raw here) typed
    have rustStop : RustStops codec key (rustFolds pairs) before raw :=
      ⟨⟨_, rust⟩, event, typed, same.symm.trans hit⟩
    have jsStop : JsStops json (key.map codec.uuidToString) (jsFolds pairs) before raw :=
      ⟨⟨_, js⟩, hit⟩
    exact ⟨_, _, rust_stops rustStop after, js_stops jsStop after,
      SameEnd.idempotent rfl rustStop jsStop⟩

end batches

section loops
variable [DecidableEq V] {codec : Codec V} {json : Json W} {key : Option Uuid}

theorem replayBatches_seen (batches : List (List WitStoredEvent)) (folds : List (RunningFold V)) :
    replayBatches codec key batches folds = replayBatch codec key folds (seen batches) := by
  rw [replayBatches, overBatches_seen (fun _ => rfl) rust_append, UmariFolds.takeBatch]
  cases replayBatch codec key folds (seen batches) with
  | error err => rfl
  | ok outcome => cases outcome <;> rfl

theorem runBatches_seen {key : Option String} (batches : List (List WitStoredEvent))
    (slots : List (Slot W)) :
    runBatches json key batches slots = runBatch json key slots (seen batches) := by
  rw [runBatches, overBatches_seen (fun _ => rfl) js_append, UmariJsFolds.takeBatch]
  cases runBatch json key slots (seen batches) with
  | error err => rfl
  | ok result => cases result <;> rfl

variable {getKey : Nat → Uuid → Except String (Option CryptoKey)} {tx fuel : Nat}
  {transactions : Transactions} {batches : List (List WitStoredEvent)}

theorem replayLoop_batches (hands : HandsOut codec getKey tx transactions batches)
    (enough : batches.length < fuel) (folds : List (RunningFold V)) :
    (replayLoop codec getKey key tx fuel transactions folds).map Prod.snd =
      replayBatches codec key batches folds := by
  rw [replayLoop_takes, replayBatches, ← takeBatches_handsOut hands enough]
  cases takeBatches codec RunError.host .outOfFuel (UmariFolds.takeBatch codec key) getKey tx fuel
    transactions folds <;> rfl

theorem runFolds_batches {codec : Codec W} {key : Option String}
    (hands : HandsOut codec getKey tx transactions batches) (enough : batches.length < fuel)
    (slots : List (Slot W)) :
    (runFolds json codec getKey key tx fuel transactions slots).map Prod.snd =
      runBatches json key batches slots := by
  rw [runFolds_takes, runBatches, ← takeBatches_handsOut hands enough]
  cases takeBatches codec JsError.host .outOfFuel (UmariJsFolds.takeBatch json key) getKey tx fuel
    transactions slots <;> rfl

/-- Over the same batches, however they are split, the JavaScript replay ends as the Rust
    one does. -/
theorem replays_agree (reads : ReadsBack codec) {pairs : List (FoldPair codec json)}
    (handed : ∀ raw ∈ seen batches, HandedOut codec raw)
    (fine : ∀ raw ∈ seen batches, Deserialises pairs raw) :
    ∃ outcome result, replayBatches codec key batches (rustFolds pairs) = .ok outcome ∧
      runBatches json (key.map codec.uuidToString) batches (jsFolds pairs) = .ok result ∧
      SameEnd codec json key pairs (seen batches) outcome result := by
  rw [replayBatches_seen, runBatches_seen]
  exact batch_agrees reads handed fine

end loops

section sample
open UmariFoldQueries (countBound)
open UmariQueryCoverage (taskInProject)
open UmariJsFolds (EventDef eventCounter)
open UmariJsCommands (object textJson)
open UmariJsonCodec (uuidBytes_injective asciiText_injective)

def keyedRecord (key : Option Uuid) : StoredEventData String :=
  ⟨1, 0, 1, 1, none, key, none, none, "\x7b\x7d"⟩

def keyedCodec : Codec String := textCodec [keyedRecord none, keyedRecord (some 2)] [1, 2]

def keyedTask (key : Option Uuid) : Event :=
  ⟨"task.created", ["project_id:p1"], recordBytes (keyedRecord key)⟩

def keyedRaw (position : Int) (key : Option Uuid) : WitStoredEvent :=
  let one := "00000000-0000-0000-0000-000000000001"
  ⟨one, position, "task.created", ["project_id:p1"], 0, one, one, none,
    key.map fun _ => "00000000-0000-0000-0000-000000000002", none, none, "\x7b\x7d"⟩

def boundCounter : BoundFold String :=
  eventCounter ⟨"task.created", ["project_id"]⟩ (object [("project_id", .string "p1")])

def counterPair : FoldPair keyedCodec textJson where
  key := "tasks"
  F := countBound taskInProject ["project_id"]
  fold := boundCounter.bindings
  binding := boundCounter.bindings
  bound := boundCounter
  entries := List.Perm.refl _
  onePerType := List.nodup_singleton _
  sameBindings := fun _ => rfl
  related := fun (rust js : Nat) => rust = js
  initial := rfl
  step := by
    intro _ _ _ _ rust js _ _ _ same
    have equal : (rust : Nat) = js := same
    exact ⟨Nat.succ rust, congrArg (fun n => Except.ok (Nat.succ n)) equal.symm, rfl⟩

theorem keyedCodec_reads : ReadsBack keyedCodec := by
  constructor
  · intro id found parsed
    dsimp only [keyedCodec, textCodec] at parsed
    have same : asciiText (uuidBytes found) = asciiText (uuidBytes id) := by
      simpa using List.find?_some parsed
    exact uuidBytes_injective (asciiText_injective same)
  · intro v w read
    obtain rfl : v = w := Except.ok.inj read
    exact Iff.rfl

theorem keyedRaw_handed (position : Nat) {key : Option Uuid}
    (made : batchEntry keyedCodec (fun _ => .ok none) (position, keyedTask key) =
      .ok (keyedRaw position key)) : HandedOut keyedCodec (keyedRaw position key) :=
  ⟨_, _, made⟩

theorem keyedRaw_deserialises {position : Int} {key : Option Uuid}
    (typed : (guestEvent keyedCodec (keyedRaw position key)).toOption.isSome = true) :
    Deserialises [counterPair] (keyedRaw position key) := by
  obtain ⟨event, found⟩ := Option.isSome_iff_exists.mp typed
  constructor
  · exact ⟨event, toOption_ok.mp found⟩
  · exact ⟨_, rfl⟩
  · intro pair member other again _ _
    obtain rfl := List.mem_singleton.mp member
    have ty : other.eventType = "task.created" := (UmariFolds.guestEvent_labels again).1
    exact ⟨other.data, if_pos ty⟩

/-- A caller's own event in the second batch stops both replays, two tasks after the
    start. -/
def keyedBatches : List (List WitStoredEvent) :=
  [[keyedRaw 1 none, keyedRaw 2 none], [keyedRaw 3 (some 2), keyedRaw 4 none], []]

theorem counters_agree :
    ∃ outcome result, replayBatches keyedCodec (some 2) keyedBatches (rustFolds [counterPair]) =
        .ok outcome ∧
      runBatches textJson (some (keyedCodec.uuidToString 2)) keyedBatches
        (jsFolds [counterPair]) = .ok result ∧
      SameEnd keyedCodec textJson (some 2) [counterPair] (seen keyedBatches) outcome result := by
  have all : ∀ raw ∈ seen keyedBatches, raw = keyedRaw 1 none ∨ raw = keyedRaw 2 none ∨
      raw = keyedRaw 3 (some 2) ∨ raw = keyedRaw 4 none := by
    intro raw member
    simpa [keyedBatches, seen] using member
  apply replays_agree keyedCodec_reads
  · intro raw member
    rcases all raw member with rfl | rfl | rfl | rfl
    · exact keyedRaw_handed 1 (by decide +kernel)
    · exact keyedRaw_handed 2 (by decide +kernel)
    · exact keyedRaw_handed 3 (by decide +kernel)
    · exact keyedRaw_handed 4 (by decide +kernel)
  · intro raw member
    rcases all raw member with rfl | rfl | rfl | rfl
    · exact keyedRaw_deserialises (by decide +kernel)
    · exact keyedRaw_deserialises (by decide +kernel)
    · exact keyedRaw_deserialises (by decide +kernel)
    · exact keyedRaw_deserialises (by decide +kernel)

end sample

end UmariReplayAgreement
