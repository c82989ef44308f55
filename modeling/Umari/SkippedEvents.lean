import Umari.PooledDispatch
import Umari.SealedEvents
import Umari.SequentialProjection

/-!
What one turn of the two event loops makes of an encrypted event. Both loops skip an
event whose payload is null after decryption. A deleted key makes it null, but so do a
key store that does not answer, a ciphertext that does not open, and a null inside it.
-/
namespace UmariSkippedEvents
open FallibleFolds UmariEventStore UmariStoredEvents UmariModuleActor UmariCryptoKeys
open UmariSealedEvents UmariJsonCodec UmariTransactions
variable {V T : Type}

inductive Turn where
  | dropped
  | handled (event : WitStoredEvent)
  | failed (error : ModuleError)
deriving DecidableEq, Repr

def pooledTurn [DecidableEq V] (codec : Codec V) (entry : Nat × Event)
    (answer : Except String (Option CryptoKey)) (partition : Except String PartitionKey) : Turn :=
  match UmariPooledDispatch.prepareEvent codec entry answer partition with
  | .error err => .failed err
  | .ok none => .dropped
  | .ok (some (_, message)) => .handled message.event

def sequentialTurn [DecidableEq V] (codec : Codec V)
    (getKey : Uuid → Except String (Option CryptoKey)) (entry : Nat × Event) : Turn :=
  match UmariSequentialProjection.prepareInput codec getKey entry with
  | .error err => .failed err
  | .ok none => .dropped
  | .ok (some event) => .handled event

/-- The step of the pooled loop at an entry is the one its turn says: only a drop goes on
    to acknowledge the position. -/
def PooledFollows (cfg : UmariPooledDispatch.Config V) (s t : UmariPooledDispatch.System)
    (d : UmariPooledDispatch.Dispatcher) (entry : Nat × Event) (rest : List (Nat × Event))
    (answer : Except String (Option CryptoKey)) (commits : Bool) : Turn → Prop
  | .dropped => t = UmariPooledDispatch.skipEvent s d rest entry.1
      (UmariPooledDispatch.keyGone cfg.codec entry answer) commits
  | .handled event => t.row = s.row ∧ ∃ key message, message.event = event ∧
      message.position = entry.1 ∧ t = UmariPooledDispatch.sendEvent cfg.hash s d rest key message
  | .failed _ => t.row = s.row ∧ t.actor = none

/-- The same of the sequential loop, which stores no position before the batch ends. -/
def SequentialFollows (cfg : UmariSequentialProjection.Config V T)
    (s t : UmariSequentialProjection.System T) (a : UmariSequentialProjection.Projector T)
    (rest : List (Nat × Event)) : Turn → Prop
  | .dropped => t = { s with actor := some { a with batch := some rest } }
  | .handled event => t.committed = s.committed ∧
      t.actor = (cfg.guest.handle a.working.tables event).map fun tables =>
        { a with
          working := { a.working with tables := tables }
          batch := some rest }
  | .failed _ => t.committed = s.committed ∧ t.actor = none

structure Encrypted (codec : Codec V) (entry : Nat × Event) (event : StoredEvent V)
    (keyId : Uuid) : Prop where
  decoded : deserializeEvent codec entry = .ok event
  underScope : event.encryptionScope.isSome
  named : event.encryptionKeyId = some keyId

/-- The reply to a request for a key; a `failure` is an error of the store or a timeout. -/
def lookupKey (keys : CryptoKeys) (failure : Option String) (id : Uuid) :
    Except String (Option CryptoKey) :=
  match failure with
  | some err => .error err
  | none => .ok (getCryptoKeyById keys id)

/-- The stored payload is the hex text of a ciphertext of `v` under the key. -/
def Opens (codec : Codec V) (key : CryptoKey) (event : StoredEvent V) (v : V) : Prop :=
  ∃ text ciphertext plaintext, codec.asStr event.data = some text ∧
    codec.hexDecode text = .ok ciphertext ∧
    codec.decrypt key (nonceOf event.id) ciphertext = .ok plaintext ∧
    codec.fromSlice plaintext = .ok v

section turns
variable (codec : Codec V) (keys : CryptoKeys) (event : StoredEvent V) (keyId : Uuid)

def Shredded : Prop := getCryptoKeyById keys keyId = none

/-- Dropped only once the key is deleted, handled with the decrypted payload, or failed. -/
inductive Sound : Turn → Prop where
  | dropped (deleted : Shredded keys keyId) : Sound .dropped
  | handled (key : CryptoKey) (v : V) (live : getCryptoKeyById keys keyId = some key)
      (opens : Opens codec key event v) : Sound (.handled ({ event with data := v }.toWit codec))
  | failed (error : ModuleError) : Sound (.failed error)

/-- The store answers with the key, and the payload opens under it to something else
    than null. -/
def Readable (failure : Option String) : Prop :=
  failure = none ∧ ∃ key v, getCryptoKeyById keys keyId = some key ∧ Opens codec key event v ∧
    v ≠ codec.null

end turns

theorem decryptPayload_some {codec : Codec V} {key : CryptoKey} {event : StoredEvent V} {v : V} :
    decryptPayload codec key event.id event.data = some v ↔ Opens codec key event v := by
  simp only [decryptPayload, bind, Option.bind_eq_some_iff, toOption_ok, Opens, exists_and_left]

section loops
variable [DecidableEq V] {codec : Codec V} {entry : Nat × Event} {event : StoredEvent V}
  {keyId : Uuid} {keys : CryptoKeys} {failure : Option String}

theorem decrypted_readable (encrypted : Encrypted codec entry event keyId)
    (readable : Readable codec keys event keyId failure) :
    ∃ key v, getCryptoKeyById keys keyId = some key ∧ Opens codec key event v ∧
      decryptStoredEvent codec (lookupKey keys failure keyId) event = { event with data := v } ∧
      isShredded codec { event with data := v } = false := by
  obtain ⟨rfl, key, v, live, opens, present⟩ := readable
  refine ⟨key, v, live, opens, ?_, ?_⟩
  · simp [decryptStoredEvent, encrypted.named, lookupKey, live, Except.toOption,
      decryptPayload_some.mpr opens]
  · simp [isShredded, present]

theorem shredded_unreadable (encrypted : Encrypted codec entry event keyId)
    (unreadable : ¬ Readable codec keys event keyId failure) :
    isShredded codec (decryptStoredEvent codec (lookupKey keys failure keyId) event) = true := by
  unfold decryptStoredEvent
  rw [encrypted.named]
  cases failure with
  | some err => simp [lookupKey, Except.toOption, isShredded, encrypted.underScope]
  | none =>
    cases live : getCryptoKeyById keys keyId with
    | none => simp [lookupKey, live, Except.toOption, isShredded, encrypted.underScope]
    | some key =>
      cases opened : decryptPayload codec key event.id event.data with
      | none => simp [lookupKey, live, Except.toOption, isShredded, encrypted.underScope, opened]
      | some v =>
        have null : v = codec.null := by
          by_contra present
          exact unreadable ⟨rfl, key, v, live, decryptPayload_some.mp opened, present⟩
        simp [lookupKey, live, Except.toOption, isShredded, encrypted.underScope, opened, null]

omit [DecidableEq V] in
theorem sound_dropped_iff (unreadable : ¬ Readable codec keys event keyId failure) :
    Sound codec keys event keyId .dropped ↔
      Shredded keys keyId ∨ Readable codec keys event keyId failure := by
  constructor
  · intro sound
    cases sound with
    | dropped deleted => exact Or.inl deleted
  · exact fun either => Sound.dropped (either.resolve_right unreadable)

theorem pooled_sound_iff (encrypted : Encrypted codec entry event keyId)
    (partition : Except String PartitionKey) :
    Sound codec keys event keyId
        (pooledTurn codec entry (lookupKey keys failure keyId) partition) ↔
      Shredded keys keyId ∨ Readable codec keys event keyId failure := by
  by_cases readable : Readable codec keys event keyId failure
  · obtain ⟨key, v, live, opens, decrypted, kept⟩ := decrypted_readable encrypted readable
    constructor
    · exact fun _ => Or.inr readable
    · intro _
      unfold pooledTurn UmariPooledDispatch.prepareEvent
      cases partition with
      | error err =>
        simp only [encrypted.decoded, decrypted, kept, Bool.false_eq_true, ↓reduceIte]
        exact Sound.failed _
      | ok given =>
        simp only [encrypted.decoded, decrypted, kept, Bool.false_eq_true, ↓reduceIte]
        exact Sound.handled key v live opens
  · have turn : pooledTurn codec entry (lookupKey keys failure keyId) partition = .dropped := by
      unfold pooledTurn UmariPooledDispatch.prepareEvent
      simp [encrypted.decoded, shredded_unreadable encrypted readable]
    rw [turn]
    exact sound_dropped_iff readable

theorem sequential_sound_iff (encrypted : Encrypted codec entry event keyId) :
    Sound codec keys event keyId (sequentialTurn codec (lookupKey keys failure) entry) ↔
      Shredded keys keyId ∨ Readable codec keys event keyId failure := by
  have asked : (event.encryptionKeyId.map (lookupKey keys failure)).getD (.ok none) =
      lookupKey keys failure keyId := by
    rw [encrypted.named]
    rfl
  by_cases readable : Readable codec keys event keyId failure
  · obtain ⟨key, v, live, opens, decrypted, kept⟩ := decrypted_readable encrypted readable
    constructor
    · exact fun _ => Or.inr readable
    · intro _
      unfold sequentialTurn UmariSequentialProjection.prepareInput
      simp only [encrypted.decoded, asked, decrypted, kept, Bool.false_eq_true, ↓reduceIte]
      exact Sound.handled key v live opens
  · have turn : sequentialTurn codec (lookupKey keys failure) entry = .dropped := by
      unfold sequentialTurn UmariSequentialProjection.prepareInput
      simp [encrypted.decoded, asked, shredded_unreadable encrypted readable]
    rw [turn]
    exact sound_dropped_iff readable

end loops

section steps
variable [DecidableEq V]

theorem pooled_follows (cfg : UmariPooledDispatch.Config V) {s : UmariPooledDispatch.System}
    {d : UmariPooledDispatch.Dispatcher} {entry : Nat × Event} {rest : List (Nat × Event)}
    (live : s.actor = some d) (next : d.batch = entry :: rest)
    (answer : Except String (Option CryptoKey)) (partition : Except String PartitionKey)
    (commits : Bool) :
    ∃ t, UmariPooledDispatch.step cfg s (.dispatch answer partition commits) = some t ∧
      PooledFollows cfg s t d entry rest answer commits
        (pooledTurn cfg.codec entry answer partition) := by
  simp only [UmariPooledDispatch.step, live, next, pooledTurn]
  cases prepared : UmariPooledDispatch.prepareEvent cfg.codec entry answer partition with
  | error err => exact ⟨_, rfl, rfl, rfl⟩
  | ok result =>
    cases result with
    | none => exact ⟨_, rfl, rfl⟩
    | some sent =>
      obtain ⟨key, message⟩ := sent
      exact ⟨_, rfl, rfl, key, message, rfl,
        UmariPooledDispatch.prepareEvent_position prepared, rfl⟩

theorem sequential_follows (cfg : UmariSequentialProjection.Config V T)
    {s : UmariSequentialProjection.System T} {a : UmariSequentialProjection.Projector T}
    {entry : Nat × Event} {rest : List (Nat × Event)} (live : s.actor = some a)
    (next : a.batch = some (entry :: rest)) :
    ∃ t, UmariSequentialProjection.step cfg s .handle = some t ∧
      SequentialFollows cfg s t a rest (sequentialTurn cfg.codec cfg.getKey entry) := by
  simp only [UmariSequentialProjection.step, live, next, sequentialTurn,
    UmariSequentialProjection.handleStep, UmariSequentialProjection.applyEvent]
  cases prepared : UmariSequentialProjection.prepareInput cfg.codec cfg.getKey entry with
  | error err => exact ⟨_, rfl, rfl, rfl⟩
  | ok result =>
    cases result with
    | none => exact ⟨_, rfl, rfl⟩
    | some called =>
      cases handled : cfg.guest.handle a.working.tables called with
      | none => simp [SequentialFollows, handled]
      | some tables => simp [SequentialFollows, handled]

end steps

/-- At an encrypted event, whatever the lookup and the decryption give, either loop takes
    a sound turn exactly when the key is deleted, or found in time and opens the payload
    to something else than null. -/
theorem skips_only_shredded_iff [DecidableEq V] {codec : Codec V} {entry : Nat × Event}
    {event : StoredEvent V} {keyId : Uuid} (encrypted : Encrypted codec entry event keyId)
    (keys : CryptoKeys) (failure : Option String) :
    (∀ (cfg : UmariPooledDispatch.Config V) s d rest partition commits, cfg.codec = codec →
      s.actor = some d → d.batch = entry :: rest →
      let answer := lookupKey keys failure keyId
      (∃ t, UmariPooledDispatch.step cfg s (.dispatch answer partition commits) = some t ∧
        PooledFollows cfg s t d entry rest answer commits
          (pooledTurn codec entry answer partition)) ∧
      (Sound codec keys event keyId (pooledTurn codec entry answer partition) ↔
        Shredded keys keyId ∨ Readable codec keys event keyId failure)) ∧
    (∀ (cfg : UmariSequentialProjection.Config V T) s a rest, cfg.codec = codec →
      cfg.getKey = lookupKey keys failure → s.actor = some a → a.batch = some (entry :: rest) →
      (∃ t, UmariSequentialProjection.step cfg s .handle = some t ∧
        SequentialFollows cfg s t a rest (sequentialTurn codec cfg.getKey entry)) ∧
      (Sound codec keys event keyId (sequentialTurn codec cfg.getKey entry) ↔
        Shredded keys keyId ∨ Readable codec keys event keyId failure)) := by
  constructor
  · intro cfg s d rest partition commits same live next
    subst same
    constructor
    · exact pooled_follows cfg live next _ partition commits
    · exact pooled_sound_iff encrypted partition
  · intro cfg s a rest same answers live next
    subst same
    constructor
    · exact sequential_follows cfg live next
    · rw [answers]
      exact sequential_sound_iff encrypted

section sample

def adaKeys : CryptoKeys := (askedFirst []).now

def nullMessage : Sealing where
  key := 7
  nonce := 0
  plaintext := [110, 117, 108, 108]
  ciphertext := [0xf7, 0x5f, 0x8f, 0x45, 0x85, 0x23, 0x44, 0x20, 0x88, 0xe6, 0xcd, 0xdd, 0x88, 0xee,
    0xdb, 0x45, 0xe8, 0x2d, 0x46, 0xf5]

def nullRecord : StoredEventData String :=
  { adaRecord with data := "\"f75f8f458523442088e6cddd88eedb45e82d46f5\"" }

def nullCodec : Codec String := jsonCodec [nullRecord] [1] nullMessage

def nullEmit : EmitEvent := ⟨idText 1, "Registered", "null", [], some "user:1"⟩

def entryOf (record : StoredEventData String) : Nat × Event :=
  (1, ⟨"Registered", [], recordBytes record⟩)

def storedOf (record : StoredEventData String) : StoredEvent String where
  id := record.eventId
  position := 1
  eventType := "Registered"
  tags := []
  timestamp := record.timestamp
  correlationId := record.correlationId
  causationId := record.causationId
  triggeringEventId := record.triggeringEventId
  idempotencyKey := record.idempotencyKey
  encryptionScope := record.encryptionScope
  encryptionKeyId := record.encryptionKeyId
  data := record.data

theorem ada_encrypted : Encrypted adaCodec (entryOf adaRecord) (storedOf adaRecord) 9 where
  decoded := by decide +kernel
  underScope := rfl
  named := rfl

theorem ada_readable : Readable adaCodec adaKeys (storedOf adaRecord) 9 none := by
  refine ⟨rfl, 7, "\"ada\"", by decide +kernel, ?_, by decide⟩
  exact ⟨"bb4b87489da732db0078e5d35a4eb99d89939d1735", adaMessage.ciphertext,
    adaMessage.plaintext, by decide +kernel, by decide +kernel, by decide +kernel,
    by decide +kernel⟩

def effectConfig : UmariPooledDispatch.Config String := ⟨adaCodec, .all, String.length, "mailer"⟩

def effectAt (entry : Nat × Event) : UmariPooledDispatch.Dispatcher :=
  ⟨⟨1, OrderedSets.OrderedSet.empty, 0, none⟩, [entry]⟩

def projectorConfig : UmariSequentialProjection.Config String (List Int) where
  codec := adaCodec
  getKey := lookupKey adaKeys none
  query := .all
  name := "positions"
  guest := UmariSequentialProjection.positionList

def projectorAt (entry : Nat × Event) : UmariSequentialProjection.Projector (List Int) :=
  ⟨⟨none, []⟩, none, 1, true, some [entry]⟩

theorem live_key_reaches_handler :
    Sound adaCodec adaKeys (storedOf adaRecord) 9
        (pooledTurn adaCodec (entryOf adaRecord) (lookupKey adaKeys none 9) (.ok .unkeyed)) ∧
      Sound adaCodec adaKeys (storedOf adaRecord) 9
        (sequentialTurn adaCodec (lookupKey adaKeys none) (entryOf adaRecord)) := by
  obtain ⟨pooled, sequential⟩ :=
    skips_only_shredded_iff (T := List Int) ada_encrypted adaKeys none
  have sent := pooled effectConfig
    { UmariPooledDispatch.initial [] with actor := some (effectAt (entryOf adaRecord)) }
    (effectAt (entryOf adaRecord)) [] (.ok .unkeyed) true rfl rfl rfl
  have called := sequential projectorConfig
    { UmariSequentialProjection.initial [] [] with actor := some (projectorAt (entryOf adaRecord)) }
    (projectorAt (entryOf adaRecord)) [] rfl rfl rfl rfl
  constructor
  · exact sent.2.mpr (Or.inr ada_readable)
  · exact called.2.mpr (Or.inr ada_readable)

/-- The key is live, and both loops skip the event when the store times out, and an event
    that was committed with the payload null under any circumstances. -/
theorem timeout_and_null_skipped :
    getCryptoKeyById adaKeys 9 = some 7 ∧
      ¬ Sound adaCodec adaKeys (storedOf adaRecord) 9 (pooledTurn adaCodec (entryOf adaRecord)
        (lookupKey adaKeys (some "timeout") 9) (.ok .unkeyed)) ∧
      ¬ Sound adaCodec adaKeys (storedOf adaRecord) 9 (sequentialTurn adaCodec
        (lookupKey adaKeys (some "timeout")) (entryOf adaRecord)) ∧
      (transactionCommit nullCodec plainNames (askedFirst []).createKey [] openRead 0 [nullEmit]
        adaEnvelope).2.toOption.map (·.log) = some [(entryOf nullRecord).2] ∧
      ¬ Sound nullCodec adaKeys (storedOf nullRecord) 9 (pooledTurn nullCodec (entryOf nullRecord)
        (lookupKey adaKeys none 9) (.ok .unkeyed)) ∧
      ¬ Sound nullCodec adaKeys (storedOf nullRecord) 9 (sequentialTurn nullCodec
        (lookupKey adaKeys none) (entryOf nullRecord)) := by
  have live : getCryptoKeyById adaKeys 9 = some 7 := by decide +kernel
  have unsound : ∀ codec record turn, turn = Turn.dropped →
      ¬ Sound codec adaKeys (storedOf record) 9 turn := by
    intro codec record turn dropped sound
    subst dropped
    cases sound with
    | dropped deleted => exact absurd (live.symm.trans deleted) (by simp)
  refine ⟨live, ?_, ?_, by decide +kernel, ?_, ?_⟩
  · exact unsound _ _ _ (by decide +kernel)
  · exact unsound _ _ _ (by decide +kernel)
  · exact unsound _ _ _ (by decide +kernel)
  · exact unsound _ _ _ (by decide +kernel)

end sample

end UmariSkippedEvents
