import Umari.JsRuns

/-!
One command in both SDKs. If its folds are pairs and its bodies decide alike over related
states, the two runs are one: the same events under the same identifiers, or the same
refusal, whatever came to the log between the read and the commit.
-/
namespace UmariSdkAgreement
open FallibleFolds PositionedLogs UmariEventStore UmariStoredEvents UmariTransactions
  UmariBatchLoops UmariDcbQueries UmariCommandRuns UmariJsRuns UmariReplayAgreement
open UmariFolds (Command RunningFold RunError Outcome FoldSpec)
open UmariJsFolds (Json JsError Slot RunResult)
open UmariSealedEvents (idText)
open UmariJsEventIds
open JsNumbers
open UmariJsBindings (boundTags)
open UmariQueryAgreement

section alike

def Alike (query other : Query) : Prop := ∀ event, other.matches event = query.matches event

theorem queryIsEmpty_iff {query : Query} :
    queryIsEmpty query = true ↔ ∀ event, query.matches event = false := by
  constructor
  · intro empty event
    unfold queryIsEmpty at empty
    split at empty
    · rfl
    · exact absurd empty (by simp)
  · intro nothing
    cases query with
    | all => exact absurd (nothing ⟨"", [], []⟩) (by simp [Query.matches])
    | items list =>
      cases list with
      | nil => rfl
      | cons item rest =>
        have hit : item.matches ⟨item.types.headD "", item.tags, []⟩ = true := by
          rw [QueryItem.matches, Bool.and_eq_true]
          constructor
          · cases item.types <;> simp
          · simp
        have missed := nothing ⟨item.types.headD "", item.tags, []⟩
        rw [Query.matches, List.any_cons, hit, Bool.true_or] at missed
        exact absurd missed (by simp)

variable {query other : Query}

theorem Alike.empty (alike : Alike query other) : queryIsEmpty other = queryIsEmpty query := by
  rw [Bool.eq_iff_iff, queryIsEmpty_iff, queryIsEmpty_iff]
  simp only [alike _]

theorem Alike.read (alike : Alike query other) (log : List Event) (after head : Nat) :
    readUpTo log other after head = readUpTo log query after head := by
  have same : other.matches = query.matches := funext alike
  rw [readUpTo, readUpTo, same]

theorem Alike.violated (alike : Alike query other) (log : List Event) (after : Nat) :
    (AppendCondition.mk other after).violated log =
      (AppendCondition.mk query after).violated log := by
  simp only [AppendCondition.violated, alike _]

theorem Alike.append (alike : Alike query other) (log batch : List Event)
    (read : Option CommandRead) :
    appendBatch log ⟨other, read⟩ batch = appendBatch log ⟨query, read⟩ batch := by
  unfold appendBatch UmariEventStore.append
  cases read with
  | none => rfl
  | some pinned => simp only [Option.map_some, Option.any_some, alike.violated]

end alike

section transaction
variable {V : Type}

def pinnedRead (log : List Event) (query : Query) (snapshot : Except String Nat) :
    Except TransactionError (Option CommandRead) :=
  if queryIsEmpty query then .ok none else some <$> readMatching log query snapshot

def drained (read : Option CommandRead) : Option CommandRead :=
  read.map fun pinned => { pinned with events := [] }

def handedOut (codec : Codec V) (getKey : Nat → Uuid → Except String (Option CryptoKey)) :
    Option CommandRead → Except TransactionError (List WitStoredEvent)
  | none => .ok []
  | some pinned => pinned.events.mapM fun entry => batchEntry codec (getKey entry.1) entry

theorem Alike.pinned {query other : Query} (alike : Alike query other) (log : List Event)
    (snapshot : Except String Nat) :
    pinnedRead log other snapshot = pinnedRead log query snapshot := by
  simp only [pinnedRead, readMatching, alike.empty, alike.read]

theorem transactionNew_pins {rules : NameRules} {log : List Event} {query : EventQuery}
    {stored : Query} (transactions : Transactions) (snapshot : Except String Nat)
    (passed : query.toQuery rules = .ok stored) :
    transactionNew rules log transactions query snapshot =
      (pinnedRead log stored snapshot).map fun read =>
        (transactions ++ [some ⟨stored, read⟩], transactions.length) := by
  rw [transactionNew, passed, pinnedRead]
  by_cases empty : queryIsEmpty stored = true
  · simp [empty, Except.mapError, bind, Except.bind, pure, Except.pure, Except.map]
  · cases snapshot <;>
      simp [empty, readMatching, Except.mapError, bind, Except.bind, pure, Except.pure,
        Functor.map, Except.map]

theorem handedOut_read {codec : Codec V} {getKey : Nat → Uuid → Except String (Option CryptoKey)}
    {log : List Event} {query : Query} {snapshot : Except String Nat} {read : Option CommandRead}
    {raws : List WitStoredEvent} (pin : pinnedRead log query snapshot = .ok read)
    (handing : handedOut codec getKey read = .ok raws) :
    ∀ raw ∈ raws, ∃ head, snapshot = .ok head ∧ ∃ entry ∈ readUpTo log query 0 head,
      batchEntry codec (getKey entry.1) entry = .ok raw := by
  intro raw member
  cases read with
  | none =>
    obtain rfl := Except.ok.inj handing
    exact absurd member List.not_mem_nil
  | some pinned =>
    obtain ⟨entry, among, decoded⟩ := forall₂_exists_left (mapM_ok.mp handing) member
    unfold pinnedRead readMatching at pin
    cases snapshot with
    | error err =>
      by_cases empty : queryIsEmpty query = true <;>
        simp [empty, Except.mapError, bind, Except.bind, Functor.map, Except.map] at pin
    | ok head =>
      by_cases empty : queryIsEmpty query = true
      · simp [empty] at pin
      · simp only [empty, Except.mapError, bind, Except.bind, pure, Except.pure, Functor.map,
          Except.map, Bool.false_eq_true, if_false, Except.ok.injEq, Option.some.injEq] at pin
        obtain rfl := pin
        exact ⟨head, rfl, entry, among, decoded⟩

universe u v w
variable {E : Type u} {S : Type v} {R : Type w} {codec : Codec V} {host : TransactionError → E}
  {outOfFuel : E} {take : S → List WitStoredEvent → Except E (S ⊕ R)}
  {getKey : Nat → Uuid → Except String (Option CryptoKey)}

theorem takeBatches_new (nothing : ∀ state, take state [] = .ok (.inl state))
    (transactions : Transactions) (query : Query) (read : Option CommandRead) (fuel : Nat)
    (state : S) :
    takeBatches codec host outOfFuel take getKey transactions.length (fuel + 2)
        (transactions ++ [some ⟨query, read⟩]) state =
      ((handedOut codec getKey read).mapError host).bind fun raws =>
        (take state raws).map fun ended =>
          (transactions ++ [some ⟨query, drained read⟩], ended) := by
  have found : ∀ item, Transactions.find (transactions ++ [some item]) transactions.length =
      some item := fun item => find_append_new
  cases read with
  | none =>
    rw [takeBatches, transactionNextBatch_unread (found _) rfl]
    dsimp only [handedOut, Except.mapError, Except.bind]
    rw [nothing]
    rfl
  | some pinned =>
    have stored : ∀ item, (transactions ++ [some item]).set transactions.length
        (some ⟨query, drained (some pinned)⟩) =
        transactions ++ [some ⟨query, drained (some pinned)⟩] := by simp
    have second : ∀ state, takeBatches codec host outOfFuel take getKey transactions.length
        (fuel + 1) (transactions ++ [some ⟨query, drained (some pinned)⟩]) state =
        .ok (transactions ++ [some ⟨query, drained (some pinned)⟩], .inl state) := by
      intro state
      rw [takeBatches, transactionNextBatch_pinned (found _) rfl]
      dsimp only [List.mapM_nil, pure, Except.pure]
      rw [← stored ⟨query, drained (some pinned)⟩]
      simp [drained]
    rw [takeBatches, transactionNextBatch_pinned (found _) rfl, handedOut]
    dsimp only
    cases decoded : pinned.events.mapM fun entry => batchEntry codec (getKey entry.1) entry with
    | error err => rfl
    | ok raws =>
      have left := stored ⟨query, some pinned⟩
      cases raws with
      | nil =>
        dsimp only [Except.mapError, Except.bind]
        rw [nothing]
        exact congrArg Except.ok (Prod.ext left rfl)
      | cons first rest =>
        dsimp only [Except.mapError, Except.bind]
        cases take state (first :: rest) with
        | error err => rfl
        | ok ended =>
          cases ended with
          | inl next =>
            refine Eq.trans ?_ (second next)
            exact congrArg (fun now => takeBatches codec host outOfFuel take getKey
              transactions.length (fuel + 1) now next) left
          | inr result => exact congrArg Except.ok (Prod.ext left rfl)

theorem Alike.commit {query other : Query} (alike : Alike query other) {rules : NameRules}
    {createKey : String → Except String (Uuid × CryptoKey)} (log : List Event)
    (transactions : Transactions) (read : Option CommandRead) (guest : Guest)
    (context : RunContext) (events : List EmitEvent) :
    (hostCommit codec rules createKey log (transactions ++ [some ⟨other, read⟩])
        transactions.length guest context events).2 =
      (hostCommit codec rules createKey log (transactions ++ [some ⟨query, read⟩])
        transactions.length guest context events).2 := by
  unfold hostCommit
  cases envelopeOf codec guest (context.toWit codec) with
  | error err => rfl
  | ok envelope => simp only [transactionCommit, find_append_new, alike.append]

end transaction

section events
variable {V W : Type}

/-- The host prints a UUID in the usual form, and reads back what it prints. -/
structure PrintsUuids (codec : Codec V) : Prop where
  printed : ∀ id, codec.uuidToString id = idText id
  parsed : ∀ id, codec.parseUuid (codec.uuidToString id) = some id

/-- One event of a body in both languages, with the same text of its data. -/
structure SamePayload (codec : Codec V) (stringifyPayload : W → Except String String)
    (item : EmitItem V) (payload : EmittedEventPayload W) : Prop where
  eventType : payload.eventType = item.eventType
  domainIds : payload.domainIds = item.domainIds
  encryptionScope : payload.encryptionScope = item.encryptionScope
  data : stringifyPayload payload.data = .ok (codec.toString item.data)

variable {codec : Codec V} {stringifyPayload : W → Except String String}

theorem eventId_derived (context : RunContext) (index : Nat) :
    eventIdFromCausation (idText context.correlationId) (idText context.causationId) index =
      .ok (idText (newV5 idempotencyNamespace (idKey context index))) := by
  have constant : IDEMPOTENCY_NAMESPACE = idText idempotencyNamespace := by decide +kernel
  have key : setUint32 (asBytes context.correlationId ++ asBytes context.causationId ++
      List.replicate (4 + 0) 0)
      ((asBytes context.correlationId).length + (asBytes context.causationId).length)
      (ushr index 0) = idKey context index := by
    rw [← List.length_append, setUint32_zeros, ushr_zero, word_toNat, word,
      BitVec.ofInt_natCast, BitVec.toNat_ofNat, idKey, bigEndian_octets, List.replicate_zero,
      List.append_nil]
    exact congrArg _ (octets_mod 4 index)
  unfold eventIdFromCausation
  rw [uuidToBytes_printed, uuidToBytes_printed, Except.bind, Except.bind]
  dsimp only
  rw [setBytes_twice, key, constant, uuidv5Sync_eq]

theorem witEvent_same (prints : PrintsUuids codec) (context : RunContext) {item : EmitItem V}
    {payload : EmittedEventPayload W} (same : SamePayload codec stringifyPayload item payload)
    (index : Nat) :
    witEvent stringifyPayload (context.toWit codec) (payload, index) =
      .ok (emitEvent codec (newV5 idempotencyNamespace) context (item, index)) := by
  have derived := eventId_derived context index
  rw [← prints.printed, ← prints.printed, ← prints.printed] at derived
  unfold witEvent
  dsimp only [RunContext.toWit]
  rw [derived]
  dsimp only [Except.bind]
  rw [lowerEmitEvent, same.data, same.eventType, same.domainIds, same.encryptionScope]
  rfl

theorem witEvents_same (prints : PrintsUuids codec) (context : RunContext)
    {items : List (EmitItem V)} {payloads : List (EmittedEventPayload W)}
    (same : List.Forall₂ (SamePayload codec stringifyPayload) items payloads) :
    payloads.zipIdx.mapM (witEvent stringifyPayload (context.toWit codec)) =
      .ok (emitEvents codec (newV5 idempotencyNamespace) context items) := by
  have general : ∀ start, (payloads.zipIdx start).mapM
      (witEvent stringifyPayload (context.toWit codec)) =
      .ok ((items.zipIdx start).map (emitEvent codec (newV5 idempotencyNamespace) context)) := by
    induction same with
    | nil => exact fun _ => rfl
    | cons first _ ih =>
      intro start
      rw [List.zipIdx_cons, List.mapM_cons, witEvent_same prints context first start]
      simp only [bind, Except.bind, ih (start + 1)]
      rfl
  exact general 0

theorem outputs_lowered (prints : PrintsUuids codec) (context : RunContext)
    (items : List (EmitItem V)) :
    ∃ outputs, (emitEvents codec (newV5 idempotencyNamespace) context items).mapM
        (outputEvent codec) = .ok outputs ∧
      ∀ position, lowerOutput codec ⟨position, outputs⟩ =
        ⟨position, (emitEvents codec (newV5 idempotencyNamespace) context items).map
          emittedEvent⟩ := by
  let output : EmitItem V × Nat → OutputEvent := fun entry =>
    ⟨newV5 idempotencyNamespace (idKey context entry.2), entry.1.eventType,
      (emitEvent codec (newV5 idempotencyNamespace) context entry).domainIds⟩
  refine ⟨items.zipIdx.map output, ?_, ?_⟩
  · rw [emitEvents, List.mapM_map]
    apply mapM_ok.mpr
    apply List.forall₂_map_right_iff.mpr
    apply List.forall₂_same.mpr
    intro entry _
    dsimp only [Function.comp_apply, outputEvent, emitEvent]
    rw [prints.parsed]
    rfl
  · intro position
    simp only [lowerOutput, emitEvents, List.map_map]
    rfl

end events

section queries
variable {rules : NameRules} {entries others : List EventDomainId}
  {bindings otherBindings : DomainIdBindings} {stored : Query}

theorem boundTags_congr (same : ∀ field, bindings.get field = otherBindings.get field)
    (entry : EventDomainId) : boundTags entry otherBindings = boundTags entry bindings := by
  simp only [boundTags, same]

theorem jsQuery_alike (keeps : KeepsNames rules) (checks : ChecksTags rules)
    (listed : ∀ entry, entry ∈ others ↔ entry ∈ entries)
    (same : ∀ field, bindings.get field = otherBindings.get field)
    (built : RustQuery rules entries [bindings] stored)
    (harmless : CutsHarmless entries [bindings]) :
    ∃ other, (UmariJsBindings.buildDcbQuery others
      (if others.length = 0 then [] else [otherBindings])).toQuery rules = .ok other ∧
      Alike stored other := by
  have pieces : ∀ entry, boundPieces entry otherBindings = boundPieces entry bindings := by
    intro entry
    rw [boundPieces, boundTags_congr same, boundPieces]
  by_cases none : others.length = 0
  · obtain rfl := List.length_eq_zero_iff.mp none
    refine ⟨.items [], rfl, ?_⟩
    intro event
    have missed : stored.matches event = false := by
      rw [Bool.eq_false_iff]
      intro hit
      obtain ⟨pair, asked, _⟩ := (rust_selects keeps built event).mp hit
      exact absurd ((listed pair.2).mpr asked.2.1) List.not_mem_nil
    exact missed.symm
  · rw [if_neg none]
    have fits : ∃ other, (UmariJsBindings.buildDcbQuery others [otherBindings]).toQuery rules =
        .ok other := by
      apply (toQuery_succeeds keeps checks).mpr
      intro set bound entry inside
      obtain rfl := List.mem_singleton.mp bound
      have here : bindings ∈ [bindings] := List.mem_cons_self
      have known := (listed entry).mp inside
      rw [pieces]
      exact ⟨rust_types keeps checks built bindings here entry known,
        harmless.filled bindings here entry known, harmless.distinct bindings here entry known⟩
    obtain ⟨other, passed⟩ := fits
    refine ⟨other, passed, ?_⟩
    intro event
    rw [Bool.eq_iff_iff, js_selects keeps passed, rust_selects keeps built]
    constructor
    · rintro ⟨⟨set, entry⟩, ⟨bound, inside, ty⟩, met⟩
      obtain rfl := List.mem_singleton.mp bound
      obtain ⟨set', bound', entry', inside', ty', fewer⟩ :=
        harmless.noLess bindings List.mem_cons_self entry ((listed entry).mp inside)
      rw [pieces] at met
      exact ⟨(set', entry'), ⟨bound', inside', ty'.trans ty⟩, List.Subset.trans fewer met⟩
    · rintro ⟨⟨set, entry⟩, ⟨bound, inside, ty⟩, met⟩
      obtain rfl := List.mem_singleton.mp bound
      obtain ⟨set', bound', entry', inside', ty', fewer⟩ :=
        harmless.noMore set List.mem_cons_self entry inside
      obtain rfl := List.mem_singleton.mp bound'
      refine ⟨(otherBindings, entry'),
        ⟨List.mem_cons_self, (listed entry').mpr inside', ty'.trans ty⟩, ?_⟩
      rw [pieces]
      exact List.Subset.trans fewer met

end queries

section command
variable {V W I J : Type}

inductive SameDecision (codec : Codec V) (stringifyPayload : W → Except String String) :
    Except String (List (EmitItem V)) →
      Except BodyError (Option (List (EmittedEventPayload W))) → Prop where
  | reject (message : String) :
      SameDecision codec stringifyPayload (.error message) (.error (.reject message))
  | emit {items : List (EmitItem V)} {emitted : Option (List (EmittedEventPayload W))} :
      List.Forall₂ (SamePayload codec stringifyPayload) items (emitted.getD []) →
      SameDecision codec stringifyPayload (.ok items) (.ok emitted)

/-- One command in both languages, over one input. `f` is the Rust closure with its
    input. -/
structure SameCommand {codec : Codec V} {json : Json V}
    (stringifyPayload : W → Except String String) (context : RunContext)
    (pairs : List (FoldPair codec json)) (rust : Command V I)
    (f : List (RunningFold V) → Except String (List (EmitItem V)))
    (js : JsCommand V W J) (input : J) : Prop where
  key : rust.idempotencyKey = context.idempotencyKey
  created : (rust.folds.mapM fun spec => spec.create rust.input rust.bindings) =
    .ok (rustFolds pairs)
  called : js.folds input = .ok (pairs.map fun pair => (pair.key, pair.bound))
  bindings : ∃ jsBindings, js.bindings input = .ok jsBindings ∧
    ∀ field, rust.bindings.get field = jsBindings.get field
  decided : ∀ finals : List (Paired codec json), finals.map Paired.pair = pairs →
    SameDecision codec stringifyPayload (f (finals.map Paired.running))
      (js.execute input (finals.map Paired.slot) (context.toWit codec))

theorem entries_listed {codec : Codec V} {json : Json V} {pairs : List (FoldPair codec json)}
    {specs : List (FoldSpec V I)} {value : I} {bindings : DomainIdBindings}
    (created : (specs.mapM fun spec => spec.create value bindings) = .ok (rustFolds pairs))
    (entry : EventDomainId) :
    entry ∈ UmariJsCommands.commandEntries (pairs.map fun pair => (pair.key, pair.bound)) ↔
      entry ∈ specs.flatMap fun spec => spec.F.eventDomainIds := by
  have kinds : List.Forall₂ (fun (spec : FoldSpec V I) (pair : FoldPair codec json) =>
      spec.F = pair.F) specs pairs := by
    apply List.Forall₂.imp _ (List.forall₂_map_right_iff.mp (mapM_ok.mp created))
    intro spec pair made
    obtain ⟨fold, _, same⟩ := bind_ok.mp made
    exact (RunningFold.mk.inj (Except.ok.inj same)).1
  clear created
  rw [UmariJsCommands.commandEntries, List.flatMap_map]
  induction kinds with
  | nil => rfl
  | @cons spec pair specs pairs kind _ ih =>
    rw [List.flatMap_cons, List.flatMap_cons, List.mem_append, List.mem_append, kind,
      pair.entries.mem_iff]
    exact or_congr_right ih

section replays
variable {codec : Codec V} {json : Json V} {rules : NameRules}
  {getKey : Nat → Uuid → Except String (Option CryptoKey)}

theorem rust_replays [DecidableEq V] {cmd : Command V I} {started : List (RunningFold V)}
    {query stored : Query}
    (created : (cmd.folds.mapM fun spec => spec.create cmd.input cmd.bindings) = .ok started)
    (built : cmd.query rules = .ok query) (passed : (eventQueryOf query).toQuery rules = .ok stored)
    (fuel : Nat) (log : List Event) (transactions : Transactions)
    (snapshot : Except String Nat) :
    cmd.replay codec rules getKey (fuel + 2) log transactions snapshot =
      ((pinnedRead log stored snapshot).mapError RunError.host).bind fun read =>
        ((handedOut codec getKey read).mapError RunError.host).bind fun raws =>
          (UmariFolds.replayBatch codec cmd.idempotencyKey started raws).map fun outcome =>
            (transactions ++ [some ⟨stored, drained read⟩], transactions.length, outcome) := by
  rw [Command.replay, created, built]
  dsimp only [Except.bind, Except.mapError]
  rw [transactionNew_pins transactions snapshot passed]
  cases pinnedRead log stored snapshot with
  | error err => rfl
  | ok read =>
    dsimp only [Except.map, Except.mapError]
    rw [UmariFolds.replayLoop_takes, takeBatches_new fun _ => rfl]
    cases handedOut codec getKey read with
    | error err => rfl
    | ok raws =>
      dsimp only [Except.mapError, Except.bind]
      rw [UmariFolds.takeBatch]
      cases UmariFolds.replayBatch codec cmd.idempotencyKey started raws with
      | error err => rfl
      | ok outcome => cases outcome <;> rfl

theorem js_replays {cmd : UmariJsCommands.CommandDefinition V J} {input : J}
    {bindings : DomainIdBindings} {folds : List (String × UmariJsFolds.BoundFold V)}
    {stored : Query} (extracted : cmd.bindings input = .ok bindings)
    (called : cmd.folds input = .ok folds)
    (passed : (UmariJsCommands.commandQuery folds bindings).toQuery rules = .ok stored)
    (fuel : Nat) (log : List Event) (transactions : Transactions)
    (snapshot : Except String Nat) (key : Option String) :
    UmariJsCommands.replay json codec cmd rules getKey (fuel + 2) log transactions snapshot input
        key =
      ((pinnedRead log stored snapshot).mapError JsError.host).bind fun read =>
        ((handedOut codec getKey read).mapError JsError.host).bind fun raws =>
          (UmariJsFolds.runBatch json key (UmariJsFolds.initFoldStates folds) raws).map
            fun result =>
              (transactions ++ [some ⟨stored, drained read⟩], transactions.length, result) := by
  rw [UmariJsCommands.replay, extracted, called]
  dsimp only [Except.bind, Except.mapError]
  rw [transactionNew_pins transactions snapshot passed]
  cases pinnedRead log stored snapshot with
  | error err => rfl
  | ok read =>
    dsimp only [Except.map, Except.mapError]
    rw [UmariJsFolds.runFolds_takes, takeBatches_new fun _ => rfl]
    cases handedOut codec getKey read with
    | error err => rfl
    | ok raws =>
      dsimp only [Except.mapError, Except.bind]
      rw [UmariJsFolds.takeBatch]
      cases UmariJsFolds.runBatch json key (UmariJsFolds.initFoldStates folds) raws with
      | error err => rfl
      | ok result => cases result <;> rfl

end replays

section ends
variable {setting : Setting V} {json : Json V}
  {stringifyPayload : W → Except String String} {context : RunContext}
  {pairs : List (FoldPair setting.codec json)} {rust : Command V I}
  {f : List (RunningFold V) → Except String (List (EmitItem V))} {js : JsCommand V W J}
  {input : J} {stored other : Query}

theorem commits_same (prints : PrintsUuids setting.codec) (alike : Alike stored other)
    (read : Option CommandRead) (finals : List (RunningFold V)) (items : List (EmitItem V)) :
    commitEvents setting context (setting.transactions ++ [some ⟨other, read⟩])
        setting.transactions.length
        (emitEvents setting.codec (newV5 idempotencyNamespace) context items) =
      finishRust setting context (fun _ => .ok items)
        (setting.transactions ++ [some ⟨stored, read⟩]) setting.transactions.length
        (.states finals) := by
  obtain ⟨outputs, reported, lowered⟩ := outputs_lowered prints context items
  rw [commitEvents, alike.commit]
  unfold finishRust finishRun
  dsimp only
  rw [reported]
  generalize hostCommit setting.codec setting.rules setting.createKey setting.later
    (setting.transactions ++ [some ⟨stored, read⟩]) setting.transactions.length setting.guest
    context (emitEvents setting.codec (newV5 idempotencyNamespace) context items) = committed
  obtain ⟨left, result⟩ := committed
  cases result with
  | error err => rfl
  | ok done =>
    have last := congrArg (fun output => GuestEnd.mk done.log (.ok output)) (lowered done.position)
    exact last.symm

theorem ends_same [DecidableEq V] (prints : PrintsUuids setting.codec) (alike : Alike stored other)
    (same : SameCommand stringifyPayload context pairs rust f js input)
    (read : Option CommandRead) {raws : List WitStoredEvent} {outcome : Outcome V}
    {result : RunResult V}
    (ended : SameEnd setting.codec json context.idempotencyKey pairs raws outcome result) :
    finishCommand setting stringifyPayload context js input
        (setting.transactions ++ [some ⟨other, read⟩]) setting.transactions.length result =
      finishRust setting context f (setting.transactions ++ [some ⟨stored, read⟩])
        setting.transactions.length outcome := by
  cases ended with
  | idempotent =>
    rw [finishCommand, commitEvents, alike.commit]
    unfold finishRust finishRun
    dsimp only
    generalize hostCommit setting.codec setting.rules setting.createKey setting.later
      (setting.transactions ++ [some ⟨stored, read⟩]) setting.transactions.length setting.guest
      context [] = committed
    obtain ⟨left, result⟩ := committed
    cases result <;> rfl
  | @states finals paired =>
    have decided := same.decided finals paired
    rw [finishCommand]
    generalize chosen : f (finals.map Paired.running) = decision at decided
    generalize js.execute input (finals.map Paired.slot) (context.toWit setting.codec) = body
      at decided
    cases decided with
    | reject message =>
      unfold finishRust finishRun
      dsimp only
      rw [chosen]
      rfl
    | @emit items emitted payloads =>
      dsimp only
      rw [witEvents_same prints context payloads]
      dsimp only
      rw [commits_same prints alike read (finals.map Paired.running) items]
      unfold finishRust
      dsimp only
      rw [chosen]

end ends

/-- A command in both SDKs is one command: over any log, with anything appended between
    its read and its commit, both runs leave the same log and give the same answer, events
    with their identifiers and positions, refusals and failures of the host alike. -/
theorem sdks_agree [DecidableEq V] {setting : Setting V} {json : Json V}
    {stringifyPayload : W → Except String String} {context : RunContext}
    {pairs : List (FoldPair setting.codec json)} {rust : Command V I}
    {f : List (RunningFold V) → Except String (List (EmitItem V))} {js : JsCommand V W J}
    {input : J} {stored : Query} (prints : PrintsUuids setting.codec)
    (reads : ReadsBack setting.codec) (keeps : KeepsNames setting.rules)
    (checks : ChecksTags setting.rules)
    (same : SameCommand stringifyPayload context pairs rust f js input)
    (built : RustQuery setting.rules rust.domainIds [rust.bindings] stored)
    (harmless : CutsHarmless rust.domainIds [rust.bindings])
    (readable : ∀ head, setting.snapshot = .ok head → ∀ entry ∈ readUpTo setting.log stored 0 head,
      ∀ raw, batchEntry setting.codec (setting.getKey entry.1) entry = .ok raw →
        Deserialises pairs raw) (fuel : Nat) :
    jsRun setting stringifyPayload context json (fuel + 2) js input =
      rustRun setting (fuel + 2) rust context f := by
  obtain ⟨jsBindings, extracted, sameBindings⟩ := same.bindings
  obtain ⟨query, made, passed⟩ := built
  have listed : ∀ entry, entry ∈ UmariJsCommands.commandEntries
      (pairs.map fun pair => (pair.key, pair.bound)) ↔ entry ∈ rust.domainIds := by
    rw [rust.registered]
    exact entries_listed same.created
  obtain ⟨other, jsPassed, alike⟩ :=
    jsQuery_alike keeps checks listed sameBindings ⟨query, made, passed⟩ harmless
  unfold jsRun rustRun
  rw [rust_replays same.created made passed, js_replays extracted same.called jsPassed,
    alike.pinned, same.key]
  cases pin : pinnedRead setting.log stored setting.snapshot with
  | error err => rfl
  | ok read =>
    dsimp only [Except.mapError, Except.bind]
    cases handing : handedOut setting.codec setting.getKey read with
    | error err => rfl
    | ok raws =>
      dsimp only [Except.mapError, Except.bind]
      have origin : ∀ raw ∈ raws, HandedOut setting.codec raw ∧ Deserialises pairs raw := by
        intro raw member
        obtain ⟨head, known, entry, among, decoded⟩ := handedOut_read pin handing raw member
        exact ⟨⟨_, _, decoded⟩, readable head known entry among raw decoded⟩
      obtain ⟨outcome, result, rustEnd, jsEnd, ended⟩ :=
        @batch_agrees V V _ setting.codec json context.idempotencyKey reads pairs raws
          (fun raw member => (origin raw member).1) (fun raw member => (origin raw member).2)
      rw [rustEnd]
      have started : UmariJsFolds.initFoldStates (pairs.map fun pair => (pair.key, pair.bound)) =
          jsFolds pairs := rfl
      rw [started, jsEnd]
      exact ends_same prints alike same (drained read) ended

end command

section sample
open SecureHash (ofOctets ofOctets_octets octets)
open UmariFoldQueries (countBound project)
open UmariQueryCoverage (taskInProject plainNames_keep)
open UmariJsCommands (object textJson)

def readUuid (text : String) : Option Uuid :=
  (uuidToBytes text).toOption.map fun bytes => BitVec.ofNat 128 (ofOctets bytes)

def wideCodec : Codec String := { textCodec [keyedRecord none] [] with parseUuid := readUuid }

theorem wideCodec_prints : PrintsUuids wideCodec := by
  constructor
  · intro id
    rfl
  · intro id
    have printed : wideCodec.uuidToString id = idText id := rfl
    have whole : id.toNat % 256 ^ 16 = id.toNat := Nat.mod_eq_of_lt id.isLt
    rw [printed, wideCodec]
    dsimp only
    rw [readUuid, uuidToBytes_printed, asBytes, bigEndian_octets]
    dsimp only [Except.toOption, Option.map_some]
    rw [ofOctets_octets, whole, BitVec.ofNat_toNat, BitVec.setWidth_eq]

theorem wideCodec_reads : ReadsBack wideCodec := by
  constructor
  · intro id found parsed
    exact (Option.some.inj ((wideCodec_prints.parsed id).symm.trans parsed)).symm
  · intro v w read
    obtain rfl : v = w := Except.ok.inj read
    exact Iff.rfl

theorem counted_entries : (countBound taskInProject ["project_id"]).eventDomainIds.Perm
    boundCounter.entries :=
  List.Perm.refl _

theorem counted_once :
    ((countBound taskInProject ["project_id"]).eventDomainIds.map EventDomainId.eventType).Nodup :=
  List.nodup_singleton _

theorem counted_bindings (field : String) :
    DomainIdBindings.get (project "p1") field = boundCounter.bindings.get field :=
  rfl

theorem counted_start : ((countBound taskInProject ["project_id"]).default : Nat) =
    (boundCounter.initial : Nat) :=
  rfl

theorem counted_next (rust js : Nat) (stored : UmariJsFolds.JsStoredEvent String)
    (same : rust = js) :
    ∃ next : Nat, boundCounter.next js stored = .ok next ∧ rust + 1 = next :=
  ⟨rust + 1, congrArg (fun n => Except.ok (n + 1)) same.symm, rfl⟩

def countedTasks : FoldPair wideCodec textJson where
  key := "tasks"
  F := countBound taskInProject ["project_id"]
  fold := project "p1"
  binding := project "p1"
  bound := boundCounter
  entries := counted_entries
  onePerType := counted_once
  sameBindings := counted_bindings
  related := fun (rust js : Nat) => rust = js
  initial := counted_start
  step := fun _ _ stored _ rust js _ _ _ same => counted_next rust js stored same

def addTask : Command String Unit :=
  (Command.new () (fun _ => project "p1") (some 2)).fold (countBound taskInProject ["project_id"])
    fun _ bindings => .ok bindings

def addTaskJs : JsCommand String String (String → UmariJsBindings.JsValue) where
  domainIds := ["project_id"]
  property := id
  folds := fun _ => .ok [("tasks", boundCounter)]
  execute := fun _ _ _ => .ok (some [⟨"task.created", "\x7b\x7d", project "p1", none⟩])

def addSetting : Setting String where
  codec := wideCodec
  rules := plainNames
  transactions := []
  log := [keyedTask none]
  snapshot := .ok 1
  getKey := fun _ _ => .ok none
  later := [keyedTask none, ⟨"project.renamed", ["project_id:p1"], []⟩]
  createKey := fun _ => .error "no key store"
  guest := .command 0

def addContext : RunContext := runContext firstCausation (some 2)

def oneTask : List (EmitItem String) := [⟨"task.created", "\x7b\x7d", project "p1", none⟩]

def taskInput : String → UmariJsBindings.JsValue := object [("project_id", .string "p1")]

theorem addTask_same : SameCommand Except.ok addContext [countedTasks] addTask
    (fun _ => .ok oneTask) addTaskJs taskInput := by
  constructor
  · rfl
  · rfl
  · rfl
  · exact ⟨project "p1", by decide +kernel, fun _ => rfl⟩
  · intro finals _
    apply SameDecision.emit
    exact List.Forall₂.cons ⟨rfl, rfl, rfl, rfl⟩ List.Forall₂.nil

theorem sdks_add_task :
    jsRun addSetting Except.ok addContext textJson 2 addTaskJs taskInput =
      rustRun addSetting 2 addTask addContext fun _ => .ok oneTask := by
  have built : RustQuery addSetting.rules addTask.domainIds [addTask.bindings]
      (.items [⟨["task.created"], ["project_id:p1"]⟩]) :=
    rust_built (by decide +kernel) (by decide +kernel)
  have harmless : CutsHarmless addTask.domainIds [addTask.bindings] := by
    apply (harmless_of_free (by decide +kernel)).mpr
    decide +kernel
  apply sdks_agree wideCodec_prints wideCodec_reads plainNames_keep plainNames_check addTask_same
    built harmless
  intro head known entry among raw decoded
  obtain rfl : 1 = head := Except.ok.inj known
  have only : readUpTo [keyedTask none] (.items [⟨["task.created"], ["project_id:p1"]⟩]) 0 1 =
      [(1, keyedTask none)] := by decide +kernel
  have first : entry ∈ [(1, keyedTask none)] := only ▸ among
  obtain rfl := List.mem_singleton.mp first
  have made : batchEntry wideCodec (fun _ => .ok none) (1, keyedTask none) =
      .ok (keyedRaw 1 none) := by decide +kernel
  obtain rfl : keyedRaw 1 none = raw := Except.ok.inj (made.symm.trans decoded)
  have typed : (UmariFolds.guestEvent wideCodec (keyedRaw 1 none)).toOption.isSome = true := by
    decide +kernel
  obtain ⟨event, found⟩ := Option.isSome_iff_exists.mp typed
  constructor
  · exact ⟨event, toOption_ok.mp found⟩
  · exact ⟨_, rfl⟩
  · intro pair member other again _ _
    obtain rfl := List.mem_singleton.mp member
    have ty : other.eventType = "task.created" := (UmariFolds.guestEvent_labels again).1
    exact ⟨other.data, if_pos ty⟩

example : (jsRun addSetting Except.ok addContext textJson 2 addTaskJs taskInput).answer.toOption.map
    (·.position) = some (some 3) := by
  decide +kernel

end sample

end UmariSdkAgreement
