import Umari.CommandRuns
import Umari.GuardedRuns
import Umari.NumberedLists
import Umari.QueryCoverage
import Umari.Serializability

/-!
Executions of one command that all carry one idempotency key. Their replays and commits
come in any order between the appends of others. An execution appends only where no
matching event with the key is in the log, and it leaves one there.
-/
namespace UmariIdempotency
open FallibleFolds PositionedLogs GuardedRuns NumberedLists UmariEventStore UmariStoredEvents
open UmariTransactions UmariDcbQueries UmariFolds UmariSealedEvents UmariCommandRuns
open UmariSerializability (validSnapshot)
variable {V I : Type}

structure Execution (V : Type) where
  tx : Nat
  outcome : Outcome V
  ended : Option (Except ExecuteError ExecuteOutput)
  appended : List Event

structure System (V : Type) where
  log : List Event
  transactions : Transactions
  executions : List (Execution V)

/-- `append` is anything that others store in between. -/
inductive Action (V : Type) where
  | append (events : List Event)
  | start (getKey : Nat → Uuid → Except String (Option CryptoKey)) (snapshot : Except String Nat)
  | finish (index : Nat) (guest : Guest) (correlationId causationId : Uuid)
      (triggeringEventId : Option Uuid) (decision : Except String (List (EmitItem V)))
      (createKey : String → Except String (Uuid × CryptoKey))

def initial (log : List Event) : System V := ⟨log, [], []⟩

section step
variable [DecidableEq V] (codec : Codec V) (rules : NameRules) (newV5 : List UInt8 → Uuid)
  (cmd : Command V I)

def startStep (s : System V) (getKey : Nat → Uuid → Except String (Option CryptoKey))
    (snapshot : Except String Nat) : System V :=
  match cmd.replay codec rules getKey 2 s.log s.transactions snapshot with
  -- the guest ends with the error, before it could append anything
  | .error _ => s
  | .ok (transactions, tx, outcome) =>
    { s with
      transactions := transactions
      executions := s.executions ++ [⟨tx, outcome, none, []⟩] }

def finishStep (s : System V) (index tx : Nat) (outcome : Outcome V) (finished : RunEnd) :
    System V where
  log := finished.log
  transactions := finished.transactions
  executions := s.executions.set index
    ⟨tx, outcome, some finished.result, finished.log.drop s.log.length⟩

def step (s : System V) : Action V → Option (System V)
  | .append events => some { s with log := s.log ++ events }
  | .start getKey snapshot =>
    if validSnapshot s.log snapshot then some (startStep codec rules cmd s getKey snapshot)
    else none
  | .finish index guest correlationId causationId triggeringEventId decision createKey =>
    match s.executions[index]? with
    | some ⟨tx, outcome, none, _⟩ =>
      let context := ⟨correlationId, causationId, triggeringEventId, cmd.idempotencyKey⟩
      some (finishStep s index tx outcome
        (finishRun codec rules newV5 createKey s.log s.transactions tx guest context outcome
          decision))
    | _ => none

end step

/-- A decision that emits anything emits an event that the command's query selects. -/
def EmitsMatching (query : Query) : Action V → Prop
  | .finish _ _ _ _ _ (.ok emit) _ =>
    emit = [] ∨ ∃ item ∈ emit, query.matches ⟨item.eventType, item.tags, []⟩ = true
  | _ => True

/-- The store keeps the names and the data of an event it accepts. -/
structure StoresEvents (rules : NameRules) : Prop where
  names : KeepsNames rules
  data : KeepsData rules
  eventType : ∀ ty tags data event, rules.event ty tags data = .ok event → event.eventType = ty
  tags : ∀ ty tags data event, rules.event ty tags data = .ok event →
    ∀ tag, tag ∈ event.tags ↔ tag ∈ tags

/-- UUID text and the key field of a record read back as what was written, if at all. -/
structure KeepsKeys (codec : Codec V) : Prop where
  uuid : KeepsUuids codec
  record : ∀ written read, codec.storedFromSlice (codec.storedToVec written) = .ok read →
    read.idempotencyKey = written.idempotencyKey

def Carries (codec : Codec V) (key : Uuid) (event : Event) : Prop :=
  ∀ record, codec.storedFromSlice event.data = .ok record → record.idempotencyKey = some key

section replayed
variable {codec : Codec V} {rules : NameRules} {cmd : Command V I} {key : Uuid}

theorem batchEntry_key {getKey : Uuid → Except String (Option CryptoKey)} {entry : Nat × Event}
    {wit : WitStoredEvent} (decoded : batchEntry codec getKey entry = .ok wit) :
    ∃ record, codec.storedFromSlice entry.2.data = .ok record ∧
      wit.idempotencyKey = record.idempotencyKey.map codec.uuidToString := by
  simp only [batchEntry, do_ok, pure, Except.pure, Except.ok.injEq] at decoded
  obtain ⟨record, parsed, _, _, rfl⟩ := decoded
  exact ⟨record, mapError_ok.mp parsed, rfl⟩

theorem guestEvent_key {wit : WitStoredEvent} {event : StoredEvent V}
    (typed : guestEvent codec wit = .ok event) :
    parseOptionalUuid codec "idempotency_key" wit.idempotencyKey = .ok event.idempotencyKey := by
  simp only [guestEvent, do_ok, pure, Except.pure, Except.ok.injEq] at typed
  obtain ⟨_, _, _, _, _, _, _, _, _, _, _, parsed, _, _, _, _, rfl⟩ := typed
  exact parsed

theorem carries_idempotent (keeps : KeepsKeys codec)
    {getKey : Uuid → Except String (Option CryptoKey)} {entry : Nat × Event} {wit : WitStoredEvent}
    {event : StoredEvent V} (carries : Carries codec key entry.2)
    (decoded : batchEntry codec getKey entry = .ok wit)
    (typed : guestEvent codec wit = .ok event) : isIdempotent (some key) event = true := by
  obtain ⟨record, parsed, text⟩ := batchEntry_key decoded
  have held := guestEvent_key typed
  rw [text, carries record parsed, Option.map_some, parseOptionalUuid] at held
  obtain ⟨id, read, same⟩ := map_ok.mp held
  unfold parseGuestUuid at read
  cases parse : codec.parseUuid (codec.uuidToString key) with
  | none => simp [parse] at read
  | some other =>
    rw [parse] at read
    obtain rfl := Except.ok.inj read
    obtain rfl := keeps.uuid key other parse
    simp [isIdempotent, ← same]

theorem toQuery_empty {query stored : Query}
    (converted : (eventQueryOf query).toQuery rules = .ok stored) :
    queryIsEmpty stored = queryIsEmpty query := by
  cases query with
  | all =>
    obtain rfl := Except.ok.inj converted
    rfl
  | items list =>
    obtain ⟨items, checked, same⟩ := do_ok.mp converted
    obtain rfl := Except.ok.inj same
    have length := (mapM_ok.mp checked).length_eq
    rw [List.length_map] at length
    cases list with
    | nil =>
      obtain rfl := List.length_eq_zero_iff.mp length.symm
      rfl
    | cons item rest =>
      cases items with
      | nil => exact absurd length (by simp)
      | cons item rest => rfl

theorem replay_unseen [DecidableEq V] (keeps : KeepsKeys codec) (names : KeepsNames rules)
    {query : Query} (built : cmd.query rules = .ok query)
    (keyed : cmd.idempotencyKey = some key) {log : List Event}
    {getKey : Nat → Uuid → Except String (Option CryptoKey)} {head tx : Nat}
    {transactions after : Transactions} {finals : List (RunningFold V)}
    (replayed : cmd.replay codec rules getKey 2 log transactions (.ok head) =
      .ok (after, tx, .states finals)) {p : Nat} {e : Event} (member : (p, e) ∈ entries log)
    (below : p ≤ head) (selected : query.matches e = true) : ¬ Carries codec key e := by
  intro carries
  obtain ⟨started, query', item, wits, _, built', _, passed, _, _, _, handed, batch⟩ :=
    replay_ok replayed
  obtain rfl := Except.ok.inj (built.symm.trans built')
  have read : (p, e) ∈ readUpTo log item.query 0 head := by
    apply mem_window.mpr
    exact ⟨member, (entries_bounds member).1, below, by rw [toQuery_matches names passed, selected]⟩
  obtain ⟨wit, among, entry⟩ := forall₂_exists_left (mapM_ok.mp (handed head rfl)).flip read
  obtain ⟨event, typed, unseen⟩ := replayBatch_unseen batch wit among
  rw [keyed, carries_idempotent keeps carries entry typed] at unseen
  exact absurd unseen (by simp)

end replayed

section committed
variable {codec : Codec V} {rules : NameRules} {newV5 : List UInt8 → Uuid} {key : Uuid}
  {context : RunContext} {createKey : String → Except String (Uuid × CryptoKey)}

theorem pendingEvent_names (names : KeepsNames rules) {e : EmitEvent} {p : PendingEvent V}
    (made : pendingEvent codec rules e = .ok p) :
    p.eventType = e.eventType ∧ ∀ tag, tag ∈ p.tags ↔ tag ∈ e.tagStrings := by
  have read := pendingEvent_ok made
  obtain ⟨tagList, tagged, collected⟩ := read.tags
  have sameTags : tagList = e.tagStrings := by
    apply mapM_check _ tagged
    intro name checked accepted
    exact names.tag name checked (mapError_ok.mp accepted)
  constructor
  · exact names.eventType _ _ read.eventType
  · intro tag
    rw [← sameTags]
    exact names.tags _ _ collected tag

theorem encodeEvent_accepted {envelope : EventEnvelope}
    {cryptoKeys cached : List (String × Uuid × CryptoKey)} {p : PendingEvent V} {event : Event}
    (encoded : encodeEvent codec rules createKey envelope cryptoKeys p = .ok (cached, event)) :
    ∃ data, rules.event p.eventType p.tags data = .ok event := by
  rcases encodeEvent_cases encoded with ⟨_, _, made⟩ | ⟨_, _, _, _, _, _, _, made⟩
  · exact ⟨_, made⟩
  · exact ⟨_, made⟩

theorem dcbEvents_names (stores : StoresEvents rules) {envelope : EventEnvelope}
    {cryptoKeys : List (String × Uuid × CryptoKey)} {pending : List (PendingEvent V)}
    {batch : List Event}
    (built : dcbEvents codec rules createKey envelope cryptoKeys pending = .ok batch) :
    List.Forall₂ (fun p event => event.eventType = p.eventType ∧
      ∀ tag, tag ∈ event.tags ↔ tag ∈ p.tags) pending batch := by
  induction pending generalizing cryptoKeys batch with
  | nil =>
    cases built
    exact List.Forall₂.nil
  | cons p rest ih =>
    rw [dcbEvents_cons] at built
    obtain ⟨⟨cached, event⟩, encoded, later⟩ := do_ok.mp built
    obtain ⟨events, tail, rfl⟩ := map_ok.mp later
    obtain ⟨data, accepted⟩ := encodeEvent_accepted encoded
    apply List.Forall₂.cons
    · exact ⟨stores.eventType _ _ _ _ accepted, stores.tags _ _ _ _ accepted⟩
    · exact ih tail

theorem envelopeOf_key (keeps : KeepsKeys codec) {guest : Guest} {envelope : EventEnvelope}
    (keyed : context.idempotencyKey = some key)
    (stamped : envelopeOf codec guest (context.toWit codec) = .ok envelope) :
    envelope.idempotencyKey = some key := by
  unfold envelopeOf at stamped
  obtain ⟨_, _, stamped⟩ := do_ok.mp stamped
  obtain ⟨_, _, stamped⟩ := do_ok.mp stamped
  obtain ⟨_, _, stamped⟩ := do_ok.mp stamped
  obtain ⟨read, parsed, stamped⟩ := do_ok.mp stamped
  have same : read = some key := by
    rw [RunContext.toWit, keyed, Option.map_some, optionalContextUuid] at parsed
    obtain ⟨id, found, rfl⟩ := map_ok.mp parsed
    unfold parseContextUuid at found
    cases parse : codec.parseUuid (codec.uuidToString key) with
    | none => simp [parse] at found
    | some other =>
      rw [parse] at found
      obtain rfl := Except.ok.inj found
      rw [keeps.uuid key other parse]
  subst same
  cases guest with
  | command timestamp =>
    obtain rfl := Except.ok.inj stamped
    rfl
  | eventHandler now current =>
    obtain rfl := Except.ok.inj stamped
    rfl

theorem stored_carries (keeps : KeepsKeys codec) {envelope : EventEnvelope}
    (keyed : envelope.idempotencyKey = some key) {p : PendingEvent V}
    {under : Option (Uuid × CryptoKey)} {event : Event}
    (stored : StoredAs codec envelope p under event) : Carries codec key event := by
  intro record parsed
  cases stored with
  | plain _ _ written =>
    rw [written] at parsed
    exact (keeps.record _ _ parsed).trans keyed
  | encrypted _ _ _ _ _ _ written =>
    rw [written] at parsed
    exact (keeps.record _ _ parsed).trans keyed

/-- What a commit under the key appends: every event carries the key, and each is of the
    type and under the tags it was emitted with. -/
theorem committed_carries (stores : StoresEvents rules) (keeps : KeepsKeys codec)
    {log batch : List Event} {transactions transactions' : Transactions} {tx : Nat} {guest : Guest}
    {emit : List (EmitItem V)} {done : Committed} (keyed : context.idempotencyKey = some key)
    (committed : hostCommit codec rules createKey log transactions tx guest context
      (emitEvents codec newV5 context emit) = (transactions', .ok done))
    (grown : done.log = log ++ batch) :
    (∀ event ∈ batch, Carries codec key event) ∧
      List.Forall₂ (fun (item : EmitItem V) event => event.eventType = item.eventType ∧
        ∀ tag, tag ∈ event.tags ↔ tag ∈ item.tags) emit batch := by
  obtain ⟨envelope, stamped, stored⟩ := hostCommit_ok committed
  have built := committed_batch stored grown
  obtain ⟨pending, parsed, encoded, _⟩ := batchToAppend_ok built
  constructor
  · intro event member
    obtain ⟨p, _, kept⟩ := forall₂_exists_left
      (dcbEvents_stored stores.data (fun scope key found => absurd found (by simp)) encoded) member
    have stampedKey := envelopeOf_key keeps keyed stamped
    rcases kept with ⟨_, plain⟩ | ⟨_, _, _, _, encrypted⟩
    · exact stored_carries keeps stampedKey plain
    · exact stored_carries keeps stampedKey encrypted
  · have named := forall₂_through (T := fun (event : EmitEvent) (stored : Event) =>
        stored.eventType = event.eventType ∧ ∀ tag, tag ∈ stored.tags ↔ tag ∈ event.tagStrings)
      (by
        intro _ _ p event _ made kept
        obtain ⟨ty, tags⟩ := pendingEvent_names stores.names made
        exact ⟨kept.1.trans ty, fun tag => (kept.2 tag).trans (tags tag)⟩)
      parsed (dcbEvents_names stores encoded)
    apply forall₂_through _ (emitEvents_names codec newV5 context emit) named
    intro item _ event stored _ same kept
    rw [← same.1, ← same.2]
    exact kept

end committed

section invariant
variable {codec : Codec V} {key : Uuid} {query : Query}

def Unseen (codec : Codec V) (key : Uuid) (query : Query) (log : List Event)
    (item : TransactionItem) : Prop :=
  (∀ event, item.query.matches event = query.matches event) ∧
    ∃ pinned, item.read = some pinned ∧ pinned.head ≤ log.length ∧
      ∀ p e, (p, e) ∈ entries log → p ≤ pinned.head → query.matches e = true →
        ¬ Carries codec key e

def Marked (codec : Codec V) (key : Uuid) (query : Query) (log : List Event) : Prop :=
  ∃ e ∈ log, query.matches e = true ∧ Carries codec key e

structure Inv (codec : Codec V) (key : Uuid) (query : Query) (s : System V) : Prop where
  known : ∀ ex ∈ s.executions, ex.tx < s.transactions.length
  apart : ∀ (i j : Nat) (a b : Execution V), s.executions[i]? = some a →
    s.executions[j]? = some b → a.tx = b.tx → i = j
  pending : ∀ ex ∈ s.executions, ex.ended = none →
    ∃ item, s.transactions.find ex.tx = some item
  unseen : ∀ ex ∈ s.executions, ∀ finals, ex.outcome = .states finals →
    ∀ item, s.transactions.find ex.tx = some item → Unseen codec key query s.log item
  marked : ∀ ex ∈ s.executions, ex.appended ≠ [] → Marked codec key query s.log
  once : ∀ (i j : Nat) (a b : Execution V), s.executions[i]? = some a →
    s.executions[j]? = some b → a.appended ≠ [] → b.appended ≠ [] → i = j

theorem unseen_append {log more : List Event} {item : TransactionItem}
    (unseen : Unseen codec key query log item) : Unseen codec key query (log ++ more) item := by
  obtain ⟨same, pinned, read, inside, none⟩ := unseen
  refine ⟨same, pinned, read, ?_, ?_⟩
  · rw [List.length_append]
    omega
  · intro p e member below
    exact none p e (mem_entries_of_le member (by omega)) below

theorem marked_append {log more : List Event} (marked : Marked codec key query log) :
    Marked codec key query (log ++ more) := by
  obtain ⟨e, member, found⟩ := marked
  exact ⟨e, List.mem_append_left _ member, found⟩

theorem unmarked_of_fence {log batch : List Event} {item : TransactionItem}
    (unseen : Unseen codec key query log item)
    (quiet : ∀ pinned, item.read = some pinned → ∀ p e, (p, e) ∈ entries (log ++ batch) →
      pinned.head < p → p < log.length + 1 → item.query.matches e = false) :
    ¬ Marked codec key query log := by
  obtain ⟨same, pinned, read, _, none⟩ := unseen
  intro marked
  obtain ⟨e, member, selected, carries⟩ := marked
  obtain ⟨p, entry⟩ := entries_of_mem member
  have bounds := entries_bounds entry
  by_cases below : p ≤ pinned.head
  · exact none p e entry below selected carries
  · have fenced := quiet pinned read p e (mem_entries_append_left entry) (by omega) (by omega)
    rw [same, selected] at fenced
    exact absurd fenced (by simp)

end invariant

section steps
variable [DecidableEq V] {codec : Codec V} {rules : NameRules} {newV5 : List UInt8 → Uuid}
  {cmd : Command V I} {key : Uuid} {query : Query} {s t : System V}

omit [DecidableEq V] in
theorem inv_append (inv : Inv codec key query s) (more : List Event) :
    Inv codec key query { s with log := s.log ++ more } where
  known := inv.known
  apart := inv.apart
  pending := inv.pending
  unseen := fun ex member finals left item found =>
    unseen_append (inv.unseen ex member finals left item found)
  marked := fun ex member appends => marked_append (inv.marked ex member appends)
  once := inv.once

theorem inv_start (keeps : KeepsKeys codec) (names : KeepsNames rules)
    (built : cmd.query rules = .ok query) (selects : queryIsEmpty query = false)
    (keyed : cmd.idempotencyKey = some key)
    {getKey : Nat → Uuid → Except String (Option CryptoKey)} {snapshot : Except String Nat}
    (inv : Inv codec key query s) (valid : validSnapshot s.log snapshot = true) :
    Inv codec key query (startStep codec rules cmd s getKey snapshot) := by
  unfold startStep
  cases replayed : cmd.replay codec rules getKey 2 s.log s.transactions snapshot with
  | error err => exact inv
  | ok result =>
    obtain ⟨after, tx, outcome⟩ := result
    obtain ⟨_, query', item, _, _, built', rfl, passed, rfl, unread, head, _, _⟩ :=
      replay_ok replayed
    obtain rfl := Except.ok.inj (built.symm.trans built')
    constructor
    · intro ex member
      rw [List.length_append]
      rcases List.mem_append.mp member with old | new
      · have below := inv.known ex old
        omega
      · obtain rfl := List.mem_singleton.mp new
        simp
    · have below : ∀ (i : Nat) (a : Execution V), s.executions[i]? = some a →
          a.tx ≠ s.transactions.length := by
        intro i a old
        exact Nat.ne_of_lt (inv.known a (List.mem_of_getElem? old))
      intro i j a b first second same
      rcases entry_snoc.mp first with oldA | ⟨atI, rfl⟩
      · rcases entry_snoc.mp second with oldB | ⟨_, rfl⟩
        · exact inv.apart i j a b oldA oldB same
        · exact absurd same (below i a oldA)
      · rcases entry_snoc.mp second with oldB | ⟨atJ, _⟩
        · exact absurd same.symm (below j b oldB)
        · exact atI.trans atJ.symm
    · intro ex member waits
      rcases List.mem_append.mp member with old | new
      · obtain ⟨other, found⟩ := inv.pending ex old waits
        exact ⟨other, (find_append_left (inv.known ex old)).trans found⟩
      · obtain rfl := List.mem_singleton.mp new
        exact ⟨item, find_append_new⟩
    · intro ex member finals left other found
      rcases List.mem_append.mp member with old | new
      · rw [find_append_left (inv.known ex old)] at found
        exact inv.unseen ex old finals left other found
      · obtain rfl := List.mem_singleton.mp new
        rw [find_append_new] at found
        obtain rfl := Option.some.inj found
        constructor
        · exact toQuery_matches names passed
        · cases pin : item.read with
          | none =>
            have empty := unread pin
            rw [toQuery_empty passed, selects] at empty
            exact absurd empty (by simp)
          | some pinned =>
            obtain rfl := head pinned pin
            refine ⟨pinned, rfl, of_decide_eq_true valid, ?_⟩
            intro p e entry below selected
            dsimp only at left
            subst left
            exact replay_unseen keeps names built keyed replayed entry below selected
    · intro ex member appends
      rcases List.mem_append.mp member with old | new
      · exact inv.marked ex old appends
      · obtain rfl := List.mem_singleton.mp new
        exact absurd rfl appends
    · have inside : ∀ (i : Nat) (a : Execution V),
          (s.executions ++ [⟨s.transactions.length, outcome, none, []⟩])[i]? = some a →
            a.appended ≠ [] → s.executions[i]? = some a := by
        intro i a here appends
        rcases entry_snoc.mp here with old | ⟨_, rfl⟩
        · exact old
        · exact absurd rfl appends
      intro i j a b first second appendsA appendsB
      exact inv.once i j a b (inside i a first appendsA) (inside j b second appendsB) appendsA
        appendsB

omit [DecidableEq V] in
theorem inv_finish (inv : Inv codec key query s) {index : Nat} {before : Execution V}
    (here : s.executions[index]? = some before) {finished : RunEnd} {batch : List Event}
    (transactions : finished.transactions = s.transactions ∨
      finished.transactions = transactionDrop s.transactions before.tx)
    (grown : finished.log = s.log ++ batch)
    (alone : batch ≠ [] → ¬ Marked codec key query s.log ∧
      Marked codec key query (s.log ++ batch)) :
    Inv codec key query (finishStep s index before.tx before.outcome finished) := by
  have member := List.mem_of_getElem? here
  have tail : finished.log.drop s.log.length = batch := by simp [grown]
  have sameLength : finished.transactions.length = s.transactions.length := by
    rcases transactions with same | dropped
    · rw [same]
    · rw [dropped, transactionDrop, List.length_set]
  have kept : ∀ tx item, finished.transactions.find tx = some item →
      s.transactions.find tx = some item := by
    intro tx item found
    rcases transactions with same | dropped
    · rwa [same] at found
    · rw [dropped] at found
      exact (find_drop found).2
  have old : ∀ ex ∈ (finishStep s index before.tx before.outcome finished).executions,
      ∃ was ∈ s.executions, ex.tx = was.tx ∧ ex.outcome = was.outcome ∧
        (ex.appended = was.appended ∨ ex.appended = batch) := by
    intro ex among
    rcases List.mem_or_eq_of_mem_set among with was | rfl
    · exact ⟨ex, was, rfl, rfl, Or.inl rfl⟩
    · exact ⟨before, member, rfl, rfl, Or.inr tail⟩
  constructor
  · intro ex among
    obtain ⟨was, listed, tx, _⟩ := old ex among
    show ex.tx < finished.transactions.length
    rw [tx, sameLength]
    exact inv.known was listed
  · have stays : ∀ (i : Nat) (a : Execution V),
        (finishStep s index before.tx before.outcome finished).executions[i]? = some a →
          ∃ was, s.executions[i]? = some was ∧ a.tx = was.tx := by
      intro i a found
      rcases entry_set.mp found with ⟨rfl, _, rfl⟩ | ⟨_, was⟩
      · exact ⟨before, here, rfl⟩
      · exact ⟨a, was, rfl⟩
    intro i j a b first second same
    obtain ⟨wasA, oldA, txA⟩ := stays i a first
    obtain ⟨wasB, oldB, txB⟩ := stays j b second
    exact inv.apart i j wasA wasB oldA oldB (txA.symm.trans (same.trans txB))
  · intro ex among waits
    obtain ⟨i, found⟩ := List.mem_iff_getElem?.mp among
    rcases entry_set.mp found with ⟨_, _, rfl⟩ | ⟨other, was⟩
    · exact absurd waits (by simp)
    · obtain ⟨item, open'⟩ := inv.pending ex (List.mem_of_getElem? was) waits
      refine ⟨item, ?_⟩
      show finished.transactions.find ex.tx = some item
      rcases transactions with unchanged | dropped
      · rw [unchanged, open']
      · have different : before.tx ≠ ex.tx := fun equal =>
          other (inv.apart i index ex before was here equal.symm)
        rw [dropped, transactionDrop, find_set_other different, open']
  · intro ex among finals left item found
    obtain ⟨was, listed, tx, outcome, _⟩ := old ex among
    show Unseen codec key query finished.log item
    rw [grown]
    exact unseen_append (inv.unseen was listed finals (outcome.symm.trans left) item
      (kept _ item (tx ▸ found)))
  · intro ex among appends
    obtain ⟨was, listed, _, _, same | same⟩ := old ex among
    · show Marked codec key query finished.log
      rw [grown]
      exact marked_append (inv.marked was listed (same ▸ appends))
    · show Marked codec key query finished.log
      rw [grown]
      exact (alone (same ▸ appends)).2
  · have place : ∀ (i : Nat) (a : Execution V),
        (finishStep s index before.tx before.outcome finished).executions[i]? = some a →
          a.appended ≠ [] → (i = index ∧ batch ≠ []) ∨ s.executions[i]? = some a := by
      intro i a found appends
      rcases entry_set.mp found with ⟨atI, _, rfl⟩ | ⟨_, was⟩
      · exact Or.inl ⟨atI, tail ▸ appends⟩
      · exact Or.inr was
    intro i j a b first second appendsA appendsB
    rcases place i a first appendsA with ⟨atI, new⟩ | oldA
    · rcases place j b second appendsB with ⟨atJ, _⟩ | oldB
      · exact atI.trans atJ.symm
      · exact absurd (inv.marked b (List.mem_of_getElem? oldB) appendsB) (alone new).1
    · rcases place j b second appendsB with ⟨_, new⟩ | oldB
      · exact absurd (inv.marked a (List.mem_of_getElem? oldA) appendsA) (alone new).1
      · exact inv.once i j a b oldA oldB appendsA appendsB

omit [DecidableEq V] in
theorem commit_alone (stores : StoresEvents rules) (keeps : KeepsKeys codec)
    (inv : Inv codec key query s) {before : Execution V} (member : before ∈ s.executions)
    {finals : List (RunningFold V)} (left : before.outcome = .states finals)
    {createKey : String → Except String (Uuid × CryptoKey)} {guest : Guest} {context : RunContext}
    (keyed : context.idempotencyKey = some key) {emit : List (EmitItem V)}
    (emits : emit = [] ∨ ∃ item ∈ emit, query.matches ⟨item.eventType, item.tags, []⟩ = true)
    {transactions' : Transactions} {done : Committed} {batch : List Event}
    (committed : hostCommit codec rules createKey s.log s.transactions before.tx guest context
      (emitEvents codec newV5 context emit) = (transactions', .ok done))
    (grown : done.log = s.log ++ batch) (appends : batch ≠ []) :
    ¬ Marked codec key query s.log ∧ Marked codec key query (s.log ++ batch) := by
  obtain ⟨carries, named⟩ := committed_carries stores keeps keyed committed grown
  obtain ⟨envelope, _, stored⟩ := hostCommit_ok committed
  obtain ⟨item, batch', found, _, grown', quiet⟩ := transactionCommit_ok stored
  obtain rfl := List.append_cancel_left (grown.symm.trans grown')
  constructor
  · exact unmarked_of_fence (inv.unseen before member finals left item found) (quiet appends)
  · rcases emits with none | ⟨emitted, among, selected⟩
    · subst none
      cases named
      exact absurd rfl appends
    · obtain ⟨event, stands, ty, tags⟩ := forall₂_exists_left named.flip among
      refine ⟨event, List.mem_append_right _ stands, ?_, carries event stands⟩
      rw [matches_congr (b := ⟨emitted.eventType, emitted.tags, []⟩) ty tags]
      exact selected

theorem inv_step (stores : StoresEvents rules) (keeps : KeepsKeys codec)
    (built : cmd.query rules = .ok query) (selects : queryIsEmpty query = false)
    (keyed : cmd.idempotencyKey = some key) {a : Action V} (inv : Inv codec key query s)
    (emits : EmitsMatching query a) (taken : step codec rules newV5 cmd s a = some t) :
    Inv codec key query t := by
  cases a with
  | append events =>
    obtain rfl := Option.some.inj taken
    exact inv_append inv events
  | start getKey snapshot =>
    simp only [step] at taken
    split at taken
    · rename_i valid
      obtain rfl := Option.some.inj taken
      exact inv_start keeps stores.names built selects keyed inv valid
    · exact absurd taken (by simp)
  | finish index guest correlationId causationId triggeringEventId decision createKey =>
    simp only [step] at taken
    split at taken
    · rename_i tx outcome appended here
      obtain rfl := Option.some.inj taken
      have cases := finishRun_cases (Eq.refl (finishRun codec rules newV5 createKey s.log
        s.transactions tx guest
        ⟨correlationId, causationId, triggeringEventId, cmd.idempotencyKey⟩ outcome decision))
      obtain ⟨transactions, unchanged | ⟨finals, emit, done, left, decided, committed, log⟩⟩ :=
        cases
      · have nothing := unchanged.trans (List.append_nil s.log).symm
        exact inv_finish inv here transactions nothing fun some => absurd rfl some
      · obtain ⟨batch, grown⟩ := hostCommit_grown committed
        subst decided
        apply inv_finish inv here transactions (log.trans grown)
        exact commit_alone stores keeps inv (List.mem_of_getElem? here) left keyed emits committed
          grown
    · exact absurd taken (by simp)

omit [DecidableEq V] in
theorem inv_initial (log : List Event) : Inv codec key query (initial log : System V) where
  known := fun ex member => absurd member List.not_mem_nil
  apart := fun i j a b first => absurd first (by simp [initial])
  pending := fun ex member => absurd member List.not_mem_nil
  unseen := fun ex member => absurd member List.not_mem_nil
  marked := fun ex member => absurd member List.not_mem_nil
  once := fun i j a b first => absurd first (by simp [initial])

end steps

/-- Finished from here, the execution returns without an append, or its append is refused:
    events its decision emits and the host accepts meet a conflict. -/
structure AppendRefused (codec : Codec V) (rules : NameRules) (newV5 : List UInt8 → Uuid)
    (s : System V) (ex : Execution V) : Prop where
  duplicate : ∀ createKey guest context decision envelope, ex.outcome = .idempotent →
    envelopeOf codec guest (RunContext.toWit codec context) = .ok envelope →
    ∃ position, finishRun codec rules newV5 createKey s.log s.transactions ex.tx guest context
      ex.outcome decision =
        ⟨s.log, transactionDrop s.transactions ex.tx, .ok ⟨position, []⟩⟩
  conflict : ∀ createKey guest context emit envelope built finals, ex.outcome = .states finals →
    envelopeOf codec guest (RunContext.toWit codec context) = .ok envelope →
    batchToAppend codec rules createKey envelope (emitEvents codec newV5 context emit) =
      .ok built → emit ≠ [] →
    finishRun codec rules newV5 createKey s.log s.transactions ex.tx guest context ex.outcome
      (.ok emit) =
        ⟨s.log, transactionDrop s.transactions ex.tx, .error (.run (.host (.append .conflict)))⟩

theorem fence_violated {codec : Codec V} {key : Uuid} {query : Query} {log batch : List Event}
    {item : TransactionItem} (unseen : Unseen codec key query log item)
    (marked : Marked codec key query log) (appends : batch ≠ []) :
    appendBatch log item batch = .error (.append .conflict) := by
  obtain ⟨same, pinned, read, _, none⟩ := unseen
  obtain ⟨e, member, selected, carries⟩ := marked
  obtain ⟨p, entry⟩ := entries_of_mem member
  have violated : AppendCondition.violated ⟨item.query, pinned.head⟩ log = true := by
    by_contra clear
    have above : pinned.head < p := by
      by_contra below
      exact none p e entry (Nat.not_lt.mp below) selected carries
    have fenced := violated_eq_false.mp (Bool.eq_false_iff.mpr clear) p e entry above
    rw [same, selected] at fenced
    exact absurd fenced (by simp)
  simp [appendBatch, appends, read, append, violated]

theorem refused_of_marked {codec : Codec V} {rules : NameRules} {newV5 : List UInt8 → Uuid}
    {key : Uuid} {query : Query} {s : System V} (stores : StoresEvents rules)
    (inv : Inv codec key query s) (marked : Marked codec key query s.log) {ex : Execution V}
    (member : ex ∈ s.executions) (waits : ex.ended = none) :
    AppendRefused codec rules newV5 s ex := by
  obtain ⟨item, found⟩ := inv.pending ex member waits
  constructor
  · intro createKey guest context decision envelope left stamped
    refine ⟨item.read.map (·.head), ?_⟩
    rw [left]
    simp [finishRun, hostCommit, stamped, transactionCommit, found, batchToAppend, dcbEvents,
      appendBatch, transactionDrop, bind, Except.bind, pure, Except.pure]
  · intro createKey guest context emit envelope built finals left stamped accepted emits
    obtain ⟨batch, emitted⟩ := built
    have appends : batch ≠ [] := by
      obtain ⟨pending, parsed, encoded, _⟩ := batchToAppend_ok accepted
      have emitLength := (emitEvents_names codec newV5 context emit).length_eq
      have pendingLength := parsed.length_eq
      have batchLength := (dcbEvents_names stores encoded).length_eq
      intro none
      subst none
      exact emits (List.length_eq_zero_iff.mp (by simp_all))
    have refused := fence_violated (inv.unseen ex member finals left item found) marked appends
    rw [left]
    simp [finishRun, hostCommit, stamped, transactionCommit, found, accepted, refused,
      transactionDrop, bind, Except.bind]

/-- However the executions of a command under one idempotency key interleave with each
    other and with everything else: once one of them has appended, the others have not
    and no longer can. -/
theorem idempotency_key_once [DecidableEq V] {codec : Codec V} {rules : NameRules}
    {newV5 : List UInt8 → Uuid} {cmd : Command V I} {key : Uuid} {query : Query}
    (stores : StoresEvents rules) (keeps : KeepsKeys codec)
    (keyed : cmd.idempotencyKey = some key) (built : cmd.query rules = .ok query)
    (selects : queryIsEmpty query = false) {log : List Event} {actions : List (Action V)}
    (emits : ∀ a ∈ actions, EmitsMatching query a) {s : System V}
    (run : exec (step codec rules newV5 cmd) (initial log) actions = some s) :
    ∀ (i : Nat) (winner : Execution V), s.executions[i]? = some winner → winner.appended ≠ [] →
      ∀ (j : Nat) (other : Execution V), s.executions[j]? = some other → j ≠ i →
        other.appended = [] ∧ (other.ended = none → AppendRefused codec rules newV5 s other) := by
  have met : Meets (step codec rules newV5 cmd) (fun _ a => EmitsMatching query a) (initial log)
      actions := meets_of_mem (fun _ a member => emits a member) _
  have inv : Inv codec key query s := guarded_invariant
    (fun held guard taken => inv_step stores keeps built selects keyed held guard taken)
    (inv_initial log) run met
  intro i winner first appends j other second different
  constructor
  · by_contra also
    exact different (inv.once j i other winner second first also appends)
  · intro waits
    exact refused_of_marked stores inv
      (inv.marked winner (List.mem_of_getElem? first) appends) (List.mem_of_getElem? second) waits

section sample
open UmariJsonCodec UmariQueryCoverage

theorem jsonCodec_keepsKeys {records : List (StoredEventData String)} {ids : List Uuid}
    {message : Sealing}
    (distinct : ∀ a ∈ records, ∀ b ∈ records, recordBytes a = recordBytes b → a = b) :
    KeepsKeys (jsonCodec records ids message) where
  uuid := fun _ _ parsed => jsonCodec_uuid parsed
  record := by
    intro written read parsed
    have body : parseRecord records (storedBytes records written) = .ok read := parsed
    rw [parseRecord_stored distinct] at body
    split at body
    · rw [Except.ok.inj body]
    · exact absurd body (by simp)

theorem plainNames_store : StoresEvents plainNames where
  names := UmariQueryCoverage.plainNames_keep
  data := UmariSealedEvents.plainNames_keep
  eventType := by
    intro ty tags data event made
    cases made
    rfl
  tags := by
    intro ty tags data event made tag
    cases made
    rfl

def createTask : Command String Unit :=
  (Command.new () (fun _ => taskInput) (some 5)).fold (countFold taskCreated ["project_id"])
    fun _ _ => .ok ()

def taskEmit : EmitItem String := ⟨"task.created", "\x7b\x7d", taskInput, none⟩

def taskRecord (id causationId : Uuid) : StoredEventData String :=
  ⟨id, 0, 0x11111111111111111111111111111111, causationId, none, some 5, none, none, "\x7b\x7d"⟩

def taskCodec : Codec String :=
  jsonCodec [taskRecord 0xd8bee0eaf637579c828593706e9e67d5 firstCausation,
      taskRecord 0x205f8c5e173d59949cc2fa45b2402a79 secondCausation]
    [0x11111111111111111111111111111111, firstCausation, secondCausation,
      0xd8bee0eaf637579c828593706e9e67d5, 0x205f8c5e173d59949cc2fa45b2402a79, 5] adaMessage

def taskStart (head : Nat) : Action String := .start (fun _ _ => .ok none) (.ok head)

def taskFinish (index : Nat) (causationId : Uuid) : Action String :=
  .finish index (.command 0) 0x11111111111111111111111111111111 causationId none
    (.ok [taskEmit]) (fun _ => .error "unused")

def twoRetries : List (Action String) :=
  [taskStart 0, taskStart 0, taskFinish 0 firstCausation, taskFinish 1 secondCausation,
    taskStart 1, taskFinish 2 secondCausation]

theorem retries_append_nothing : ∃ s,
    exec (step taskCodec plainNames knownV5 createTask) (initial []) twoRetries = some s ∧
      s.executions.map (fun ex => (ex.appended.length, ex.ended)) =
        [(1, some (.ok ⟨some 1, [⟨0xd8bee0eaf637579c828593706e9e67d5, "task.created",
            [⟨"project_id", "p1"⟩, ⟨"task_id", "t1"⟩]⟩]⟩)),
          (0, some (.error (.run (.host (.append .conflict))))), (0, some (.ok ⟨some 1, []⟩))] ∧
      ∀ (j : Nat) (other : Execution String), s.executions[j]? = some other → j ≠ 0 →
        other.appended = [] := by
  have built : createTask.query plainNames =
      .ok (.items [⟨["task.created"], ["project_id:p1", "task_id:t1"]⟩]) := by decide +kernel
  have seen : (exec (step taskCodec plainNames knownV5 createTask) (initial []) twoRetries).map
      (fun s => s.executions.map fun ex => (ex.appended.length, ex.ended)) =
        some [(1, some (.ok ⟨some 1, [⟨0xd8bee0eaf637579c828593706e9e67d5, "task.created",
            [⟨"project_id", "p1"⟩, ⟨"task_id", "t1"⟩]⟩]⟩)),
          (0, some (.error (.run (.host (.append .conflict))))), (0, some (.ok ⟨some 1, []⟩))] := by
    decide +kernel
  obtain ⟨s, run, ends⟩ := Option.map_eq_some_iff.mp seen
  refine ⟨s, run, ends, ?_⟩
  obtain ⟨winner, first, appended⟩ : ∃ winner, s.executions[0]? = some winner ∧
      winner.appended.length = 1 := by
    have head : (s.executions.map fun ex => (ex.appended.length, ex.ended))[0]?.map (·.1) =
        some 1 := by rw [ends]; rfl
    simpa using head
  have emits : ∀ a ∈ twoRetries,
      EmitsMatching (.items [⟨["task.created"], ["project_id:p1", "task_id:t1"]⟩]) a := by
    intro a member
    simp only [twoRetries, List.mem_cons, List.not_mem_nil, or_false] at member
    have selected : Query.matches (.items [⟨["task.created"], ["project_id:p1", "task_id:t1"]⟩])
        ⟨taskEmit.eventType, taskEmit.tags, []⟩ = true := by decide +kernel
    rcases member with rfl | rfl | rfl | rfl | rfl | rfl
    · trivial
    · trivial
    · exact Or.inr ⟨taskEmit, List.mem_cons_self, selected⟩
    · exact Or.inr ⟨taskEmit, List.mem_cons_self, selected⟩
    · trivial
    · exact Or.inr ⟨taskEmit, List.mem_cons_self, selected⟩
  intro j other second different
  exact (idempotency_key_once plainNames_store (jsonCodec_keepsKeys (by decide +kernel)) rfl built
    rfl emits run 0 winner first (by rintro none; simp [none] at appended) j other second
    different).1

end sample

end UmariIdempotency
