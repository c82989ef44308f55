import Umari.StoredEvents

/-!
The guest's transaction resource: `new` pins one read, `next_batch` hands the
whole matching set out once, `commit` removes the transaction and appends under
the condition the read pinned. Keys of the slot map are never reused. What the
environment answers (the snapshot a read sees, the key store) is an argument.
Whether a call is moved to another thread changes nothing here.
-/
namespace UmariTransactions
open PositionedLogs UmariEventStore UmariStoredEvents

structure CommandRead where
  events : List (Nat × Event)
  head : Nat
deriving DecidableEq, Repr

structure TransactionItem where
  query : Query
  read : Option CommandRead
deriving DecidableEq, Repr

abbrev Transactions := List (Option TransactionItem)

def Transactions.find (transactions : Transactions) (tx : Nat) : Option TransactionItem :=
  (transactions[tx]?).join

structure DomainId where
  name : String
  id : String
deriving DecidableEq, Repr

structure EmitEvent where
  id : String
  eventType : String
  data : String
  domainIds : List DomainId
  encryptionScope : Option String
deriving DecidableEq, Repr

structure EmittedEvent where
  id : Uuid
  eventType : String
  tags : List String
deriving DecidableEq, Repr

structure CommandContext where
  correlationId : String
  causationId : String
  triggeringEventId : Option String
  idempotencyKey : Option String
deriving DecidableEq, Repr

inductive TransactionError where
  | query (error : QueryError)
  | read (error : String)
  | missing
  | deserializeEvent (error : String)
  | invalidEventId
  | name (error : NameError)
  | tags (error : TagsError)
  | event (error : String)
  | append (error : AppendError)
  | message (text : String)
deriving DecidableEq, Repr

def queryIsEmpty : Query → Bool
  | .items [] => true
  | _ => false

def readMatching (log : List Event) (query : Query) (snapshot : Except String Nat) :
    Except TransactionError CommandRead := do
  let head ← snapshot.mapError TransactionError.read
  pure ⟨readUpTo log query 0 head, head⟩

def transactionNew (rules : NameRules) (log : List Event) (transactions : Transactions)
    (query : EventQuery) (snapshot : Except String Nat) :
    Except TransactionError (Transactions × Nat) := do
  let query ← (query.toQuery rules).mapError TransactionError.query
  let pinned ← if queryIsEmpty query then pure none else some <$> readMatching log query snapshot
  pure (transactions ++ [some ⟨query, pinned⟩], transactions.length)

section guestData
variable {V : Type} (codec : Codec V)

def encryptEventData (key : CryptoKey) (eventId : Uuid) (value : V) :
    Except TransactionError V :=
  match codec.encrypt key (nonceOf eventId) (codec.toVec value) with
  | .ok ciphertext => .ok (codec.string (codec.hexEncode ciphertext))
  | .error err => .error (.message ("aes-gcm encryption failed: " ++ err))

def decryptEventDataBytes (key : CryptoKey) (eventId : Uuid) (data : V) :
    Except TransactionError V :=
  match codec.asStr data with
  | none => .error (.message "encrypted event data is not a string")
  | some ciphertextHex =>
    match codec.hexDecode ciphertextHex with
    | .error err => .error (.message ("hex decode failed: " ++ err))
    | .ok ciphertext =>
      match codec.decrypt key (nonceOf eventId) ciphertext with
      | .error err => .error (.message ("aes-gcm decryption failed: " ++ err))
      | .ok plaintext =>
        match codec.fromSlice plaintext with
        | .error err => .error (.message ("failed to deserialize decrypted data: " ++ err))
        | .ok value => .ok value

def decryptEventData (getKey : Uuid → Except String (Option CryptoKey)) (eventId : Uuid)
    (data : V) (encryptionKeyId : Option Uuid) : Except TransactionError V :=
  match encryptionKeyId with
  | none => .ok data
  | some keyId =>
    match getKey keyId with
    | .error err => .error (.message err)
    | .ok none => .ok codec.null
    | .ok (some key) => decryptEventDataBytes codec key eventId data

/-- One event as `next_batch` returns it; `getKey` is the key store's answer for it. -/
def batchEntry (getKey : Uuid → Except String (Option CryptoKey)) (entry : Nat × Event) :
    Except TransactionError WitStoredEvent := do
  let stored ← (codec.storedFromSlice entry.2.data).mapError TransactionError.deserializeEvent
  let data ← decryptEventData codec getKey stored.eventId stored.data stored.encryptionKeyId
  pure {
    id := codec.uuidToString stored.eventId
    position := asI64 entry.1
    eventType := entry.2.eventType
    tags := entry.2.tags
    timestamp := timestampMillis stored.timestamp
    correlationId := codec.uuidToString stored.correlationId
    causationId := codec.uuidToString stored.causationId
    triggeringEventId := stored.triggeringEventId.map codec.uuidToString
    idempotencyKey := stored.idempotencyKey.map codec.uuidToString
    encryptionScope := stored.encryptionScope
    encryptionKeyId := stored.encryptionKeyId.map codec.uuidToString
    data := codec.toString data }

/-- The batch is taken out of the transaction before it is decoded. -/
def transactionNextBatch (getKey : Nat → Uuid → Except String (Option CryptoKey))
    (transactions : Transactions) (tx : Nat) :
    Transactions × Except TransactionError (List WitStoredEvent) :=
  match transactions.find tx with
  | none => (transactions, .error .missing)
  | some item =>
    match item.read with
    | none => (transactions, .ok [])
    | some pinned =>
      (transactions.set tx (some { item with read := some { pinned with events := [] } }),
        pinned.events.mapM fun entry => batchEntry codec (getKey entry.1) entry)

def parseContextUuid (what : String) (text : String) : Except TransactionError Uuid :=
  match codec.parseUuid text with
  | some id => .ok id
  | none => .error (.message ("invalid " ++ what))

def optionalContextUuid (what : String) : Option String → Except TransactionError (Option Uuid)
  | none => .ok none
  | some text => some <$> parseContextUuid codec what text

/-- Which guest commits: a command stamps its start time, an event handler the
    current time and the event it is handling. -/
inductive Guest where
  | command (timestamp : Int)
  | eventHandler (now : Int) (currentEventId : Uuid)
deriving DecidableEq, Repr

def envelopeOf (guest : Guest) (context : CommandContext) :
    Except TransactionError EventEnvelope := do
  let correlationId ← parseContextUuid codec "correlation id" context.correlationId
  let causationId ← parseContextUuid codec "causation id" context.causationId
  let triggeringEventId ←
    optionalContextUuid codec "triggering event id" context.triggeringEventId
  let idempotencyKey ← optionalContextUuid codec "idempotency key" context.idempotencyKey
  match guest with
  | .command timestamp =>
    pure ⟨timestamp, correlationId, causationId, triggeringEventId, idempotencyKey⟩
  | .eventHandler now currentEventId =>
    pure ⟨now, correlationId, causationId, some (triggeringEventId.getD currentEventId),
      idempotencyKey⟩

structure PendingEvent (V : Type) where
  eventId : Uuid
  eventType : String
  tags : List String
  data : V
  encryptionScope : Option String
  emitted : EmittedEvent

def EmitEvent.tagStrings (event : EmitEvent) : List String :=
  event.domainIds.map fun domainId => domainId.name ++ ":" ++ domainId.id

def pendingEvent (rules : NameRules) (event : EmitEvent) :
    Except TransactionError (PendingEvent V) := do
  let eventId ← match codec.parseUuid event.id with
    | some id => pure id
    | none => throw TransactionError.invalidEventId
  let eventType ← (rules.eventType event.eventType).mapError TransactionError.name
  let tagList ← event.tagStrings.mapM fun tag =>
    (rules.tag tag).mapError TransactionError.name
  let tags ← (rules.tags tagList).mapError TransactionError.tags
  let data ← (codec.fromStr event.data).mapError TransactionError.deserializeEvent
  pure ⟨eventId, eventType, tags, data, event.encryptionScope,
    ⟨eventId, event.eventType, event.tagStrings⟩⟩

/-- The events to append. A scope's key is created once per commit and then reused. -/
def dcbEvents (rules : NameRules) (createKey : String → Except String (Uuid × CryptoKey))
    (envelope : EventEnvelope) (cryptoKeys : List (String × Uuid × CryptoKey)) :
    List (PendingEvent V) → Except TransactionError (List Event)
  | [] => pure []
  | pending :: rest =>
    match pending.encryptionScope with
    | none => do
      let event ← (rules.event pending.eventType pending.tags
        (encodeWithEnvelope codec envelope pending.eventId pending.data none none)).mapError
          TransactionError.event
      let events ← dcbEvents rules createKey envelope cryptoKeys rest
      pure (event :: events)
    | some scope => do
      let key ← match cryptoKeys.lookup scope with
        | some key => pure key
        | none => (createKey scope).mapError TransactionError.message
      let value ← encryptEventData codec key.2 pending.eventId pending.data
      let event ← (rules.event pending.eventType pending.tags
        (encodeWithEnvelope codec envelope pending.eventId value (some scope)
          (some key.1))).mapError TransactionError.event
      let events ← dcbEvents rules createKey envelope ((scope, key) :: cryptoKeys) rest
      pure (event :: events)

def batchToAppend (rules : NameRules) (createKey : String → Except String (Uuid × CryptoKey))
    (envelope : EventEnvelope) (events : List EmitEvent) :
    Except TransactionError (List Event × List EmittedEvent) := do
  let pending ← events.mapM (pendingEvent codec rules)
  let batch ← dcbEvents codec rules createKey envelope [] pending
  pure (batch, pending.map (·.emitted))

structure Committed where
  log : List Event
  position : Option Nat
  emitted : List EmittedEvent

/-- The append of `commit`: nothing to append leaves the log alone and reports the
    pinned watermark. -/
def appendBatch (log : List Event) (item : TransactionItem) (batch : List Event) :
    Except TransactionError (List Event × Option Nat) :=
  let head := item.read.map (·.head)
  if batch.isEmpty then .ok (log, head)
  else
    match append log batch (head.map fun after => ⟨item.query, after⟩) with
    | .error err => .error (.append err)
    | .ok (log', range) => .ok (log', some range.last)

/-- The transaction is removed first, so a failed commit cannot be retried on it. -/
def transactionCommit (rules : NameRules)
    (createKey : String → Except String (Uuid × CryptoKey)) (log : List Event)
    (transactions : Transactions) (tx : Nat) (events : List EmitEvent)
    (envelope : EventEnvelope) : Transactions × Except TransactionError Committed :=
  match transactions.find tx with
  | none => (transactions, .error .missing)
  | some item =>
    (transactions.set tx none, do
      let (batch, emitted) ← batchToAppend codec rules createKey envelope events
      let (log', position) ← appendBatch log item batch
      pure ⟨log', position, emitted⟩)

end guestData

def transactionDrop (transactions : Transactions) (tx : Nat) : Transactions :=
  transactions.set tx none

theorem find_append_left {transactions more : Transactions} {tx : Nat}
    (live : tx < transactions.length) :
    Transactions.find (transactions ++ more) tx = transactions.find tx := by
  simp [Transactions.find, List.getElem?_append_left live]

theorem find_append_new {transactions : Transactions} {item : TransactionItem} :
    Transactions.find (transactions ++ [some item]) transactions.length = some item := by
  simp [Transactions.find]

theorem find_lt {transactions : Transactions} {tx : Nat} {item : TransactionItem}
    (found : transactions.find tx = some item) : tx < transactions.length := by
  by_contra outside
  simp [Transactions.find, List.getElem?_eq_none (Nat.not_lt.mp outside)] at found

theorem find_set_self {transactions : Transactions} {tx : Nat} {slot : Option TransactionItem}
    (live : tx < transactions.length) :
    Transactions.find (transactions.set tx slot) tx = slot := by
  simp [Transactions.find, live]

theorem find_set_other {transactions : Transactions} {tx other : Nat}
    {slot : Option TransactionItem} (different : tx ≠ other) :
    Transactions.find (transactions.set tx slot) other = transactions.find other := by
  simp [Transactions.find, List.getElem?_set_ne different]

theorem find_drop {transactions : Transactions} {tx other : Nat} {item : TransactionItem}
    (found : Transactions.find (transactions.set tx none) other = some item) :
    tx ≠ other ∧ transactions.find other = some item := by
  by_cases same : tx = other
  · subst same
    have live : tx < transactions.length := by simpa using find_lt found
    rw [find_set_self live] at found
    exact absurd found (by simp)
  · exact ⟨same, by rwa [find_set_other same] at found⟩

theorem transactionNew_ok {rules : NameRules} {log : List Event}
    {transactions transactions' : Transactions} {query : EventQuery}
    {snapshot : Except String Nat} {tx : Nat}
    (created : transactionNew rules log transactions query snapshot = .ok (transactions', tx)) :
    ∃ item, transactions' = transactions ++ [some item] ∧ tx = transactions.length ∧
      query.toQuery rules = .ok item.query ∧ (item.read = none → queryIsEmpty item.query = true) ∧
      ∀ pinned, item.read = some pinned →
        snapshot = .ok pinned.head ∧ pinned.events = readUpTo log item.query 0 pinned.head := by
  unfold transactionNew at created
  cases converted : query.toQuery rules with
  | error err =>
    simp [converted, Except.mapError, bind, Except.bind] at created
  | ok accepted =>
    by_cases empty : queryIsEmpty accepted = true
    · simp only [converted, empty, Except.mapError, bind, Except.bind, pure, Except.pure,
        ↓reduceIte, Except.ok.injEq, Prod.mk.injEq] at created
      exact ⟨⟨accepted, none⟩, created.1.symm, created.2.symm, rfl, fun _ => empty, by simp⟩
    · cases snapshot with
      | error err =>
        simp [converted, empty, readMatching, Except.mapError, bind, Except.bind, Functor.map,
          Except.map] at created
      | ok head =>
        simp only [converted, empty, readMatching, Except.mapError, bind, Except.bind, pure,
          Except.pure, Functor.map, Except.map, Bool.false_eq_true, ↓reduceIte, Except.ok.injEq,
          Prod.mk.injEq] at created
        refine ⟨⟨accepted, some ⟨readUpTo log accepted 0 head, head⟩⟩, created.1.symm,
          created.2.symm, rfl, by simp, ?_⟩
        intro pinned same
        obtain rfl := Option.some.inj same
        exact ⟨rfl, rfl⟩

section nextBatch
variable {V : Type} {codec : Codec V} {getKey : Nat → Uuid → Except String (Option CryptoKey)}
  {transactions : Transactions} {tx : Nat} {item : TransactionItem}

theorem transactionNextBatch_pinned {pinned : CommandRead}
    (found : transactions.find tx = some item) (pinnedRead : item.read = some pinned) :
    transactionNextBatch codec getKey transactions tx =
      (transactions.set tx (some { item with read := some { pinned with events := [] } }),
        pinned.events.mapM fun entry => batchEntry codec (getKey entry.1) entry) := by
  simp [transactionNextBatch, found, pinnedRead]

theorem transactionNextBatch_unread (found : transactions.find tx = some item)
    (unread : item.read = none) :
    transactionNextBatch codec getKey transactions tx = (transactions, .ok []) := by
  simp [transactionNextBatch, found, unread]

end nextBatch

theorem appendBatch_ok {log log' : List Event} {item : TransactionItem} {batch : List Event}
    {position : Option Nat} (appended : appendBatch log item batch = .ok (log', position)) :
    log' = log ++ batch ∧
      (batch ≠ [] → ∀ pinned, item.read = some pinned → ∀ p e, (p, e) ∈ entries log' →
        pinned.head < p → p < log.length + 1 → item.query.matches e = false) := by
  unfold appendBatch at appended
  by_cases empty : batch.isEmpty = true
  · have none : batch = [] := List.isEmpty_iff.mp empty
    simp only [empty, ↓reduceIte, Except.ok.injEq, Prod.mk.injEq] at appended
    refine ⟨by rw [none, List.append_nil]; exact appended.1.symm, fun some => absurd none some⟩
  · simp only [empty, Bool.false_eq_true, ↓reduceIte] at appended
    cases stored : append log batch ((item.read.map (·.head)).map fun after =>
        ⟨item.query, after⟩) with
    | error err => simp only [stored, reduceCtorEq] at appended
    | ok result =>
      obtain ⟨newLog, range⟩ := result
      simp only [stored, Except.ok.injEq, Prod.mk.injEq] at appended
      obtain ⟨rfl, _⟩ := appended
      obtain ⟨grown, first, _, _⟩ := append_ok stored
      refine ⟨grown, ?_⟩
      intro _ pinned found p e member above before
      rw [found] at stored
      exact append_fenced stored member above (by omega)

section commit
variable {V : Type} {codec : Codec V} {rules : NameRules}
  {createKey : String → Except String (Uuid × CryptoKey)} {log : List Event}
  {transactions transactions' : Transactions} {tx : Nat} {events : List EmitEvent}
  {envelope : EventEnvelope}

theorem transactionCommit_transactions {result : Except TransactionError Committed}
    (committed : transactionCommit codec rules createKey log transactions tx events envelope =
      (transactions', result)) :
    transactions' = transactions ∨ transactions' = transactionDrop transactions tx := by
  unfold transactionCommit at committed
  cases found : transactions.find tx with
  | none =>
    rw [found] at committed
    exact Or.inl (Prod.mk.inj committed).1.symm
  | some item =>
    rw [found] at committed
    exact Or.inr (Prod.mk.inj committed).1.symm

theorem transactionCommit_ok {done : Committed}
    (committed : transactionCommit codec rules createKey log transactions tx events envelope =
      (transactions', .ok done)) :
    ∃ item batch, transactions.find tx = some item ∧
      transactions' = transactionDrop transactions tx ∧ done.log = log ++ batch ∧
      (batch ≠ [] → ∀ pinned, item.read = some pinned → ∀ p e, (p, e) ∈ entries (log ++ batch) →
        pinned.head < p → p < log.length + 1 → item.query.matches e = false) := by
  unfold transactionCommit at committed
  cases found : transactions.find tx with
  | none =>
    rw [found] at committed
    exact absurd (Prod.mk.inj committed).2 (by simp)
  | some item =>
    rw [found] at committed
    obtain ⟨removed, body⟩ := Prod.mk.inj committed
    cases built : batchToAppend codec rules createKey envelope events with
    | error err => simp [built, bind, Except.bind] at body
    | ok result =>
      obtain ⟨batch, emitted⟩ := result
      cases appended : appendBatch log item batch with
      | error err => simp [built, appended, bind, Except.bind] at body
      | ok stored =>
        obtain ⟨newLog, position⟩ := stored
        simp only [built, appended, bind, Except.bind, pure, Except.pure, Except.ok.injEq] at body
        subst body
        obtain ⟨rfl, quiet⟩ := appendBatch_ok appended
        exact ⟨item, batch, rfl, removed.symm, rfl, quiet⟩

end commit

end UmariTransactions
