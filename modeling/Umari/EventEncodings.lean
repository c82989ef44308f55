import Umari.Folds
import Umari.SealedEvents

/-!
A committed event on its way to a guest: the batch of a command and the actor of an
event handler each build the interface record from the stored bytes, and the guest
takes that record apart again, panicking on a field the host promised and did not keep.
-/
namespace UmariEventEncodings
open FallibleFolds UmariEventStore UmariStoredEvents UmariTransactions UmariModuleActor
open UmariFolds UmariSealedEvents UmariCryptoKeys UmariJsonCodec
variable {V : Type}

structure DateRange where
  least : Int
  greatest : Int
  aligned : (1000000 : Int) ∣ least

namespace DateRange

def Holds (dates : DateRange) (timestamp : Int) : Prop :=
  dates.least ≤ timestamp ∧ timestamp ≤ dates.greatest

instance {dates : DateRange} {timestamp : Int} : Decidable (dates.Holds timestamp) :=
  inferInstanceAs (Decidable (_ ∧ _))

def fromTimestampMillis (dates : DateRange) (millis : Int) : Option Int :=
  if dates.Holds (millis * 1000000) then some (millis * 1000000) else none

theorem floor_held {dates : DateRange} {timestamp : Int} (held : dates.Holds timestamp) :
    dates.Holds (timestampMillis timestamp * 1000000) := by
  obtain ⟨above, below⟩ := held
  obtain ⟨days, start⟩ := dates.aligned
  unfold timestampMillis
  constructor
  · omega
  · omega

end DateRange

section guest
variable (dates : DateRange) (codec : Codec V)

def parseTimestamp (millis : Int) : Except RunError Int :=
  match dates.fromTimestampMillis millis with
  | some timestamp => .ok timestamp
  | none => .error (.panic "host guaranteed valid timestamp for event")

/-- The guest's conversion of an interface record; every failure is a failed `expect`. -/
def fromWit (event : WitStoredEvent) : Except RunError (StoredEvent V) := do
  let id ← parseGuestUuid codec "event id" event.id
  let position ← parsePosition event.position
  let timestamp ← parseTimestamp dates event.timestamp
  let correlationId ← parseGuestUuid codec "correlation_id" event.correlationId
  let causationId ← parseGuestUuid codec "causation_id" event.causationId
  let triggeringEventId ← parseOptionalUuid codec "triggering_event_id" event.triggeringEventId
  let idempotencyKey ← parseOptionalUuid codec "idempotency_key" event.idempotencyKey
  let encryptionKeyId ← parseOptionalUuid codec "encryption_key_id" event.encryptionKeyId
  let data ← (codec.fromStr event.data).mapError fun _ =>
    .panic "host guaranteed valid json for event data"
  pure {
    id := id
    position := position
    eventType := event.eventType
    tags := event.tags
    timestamp := timestamp
    correlationId := correlationId
    causationId := causationId
    triggeringEventId := triggeringEventId
    idempotencyKey := idempotencyKey
    encryptionScope := event.encryptionScope
    encryptionKeyId := encryptionKeyId
    data := data }

variable {dates codec}

theorem fromWit_guestEvent {event : WitStoredEvent}
    (held : dates.Holds (event.timestamp * 1000000)) :
    fromWit dates codec event = guestEvent codec event := by
  have timestamp : parseTimestamp dates event.timestamp = .ok (event.timestamp * 1000000) := by
    rw [parseTimestamp, DateRange.fromTimestampMillis, if_pos held]
  rw [fromWit, guestEvent, timestamp]
  rfl

end guest

section host
variable (codec : Codec V)

/-- An entry as a module actor passes it to its handler; `getKey` is the key store's
    answer for it. -/
def handlerEntry (getKey : Uuid → Except String (Option CryptoKey)) (entry : Nat × Event) :
    Except ModuleError WitStoredEvent := do
  let stored ← deserializeEvent codec entry
  let answer := match stored.encryptionKeyId with
    | some keyId => getKey keyId
    | none => .ok none
  pure ((decryptStoredEvent codec answer stored).toWit codec)

inductive Opens (getKey : Uuid → Except String (Option CryptoKey)) (record : StoredEventData V) :
    V → Prop where
  | plain (unkeyed : record.encryptionKeyId = none) : Opens getKey record record.data
  | decrypted (keyId : Uuid) (key : CryptoKey) (data : V)
      (keyed : record.encryptionKeyId = some keyId) (found : getKey keyId = .ok (some key))
      (opened : decryptEventDataBytes codec key record.eventId record.data = .ok data) :
      Opens getKey record data

def storedAt (entry : Nat × Event) (record : StoredEventData V) (data : V) : StoredEvent V where
  id := record.eventId
  position := entry.1
  eventType := entry.2.eventType
  tags := entry.2.tags
  timestamp := record.timestamp
  correlationId := record.correlationId
  causationId := record.causationId
  triggeringEventId := record.triggeringEventId
  idempotencyKey := record.idempotencyKey
  encryptionScope := record.encryptionScope
  encryptionKeyId := record.encryptionKeyId
  data := data

end host

section encoders
variable {codec : Codec V} {getKey : Uuid → Except String (Option CryptoKey)}
  {entry : Nat × Event} {record : StoredEventData V} {data : V}

theorem decryptPayload_iff {key : CryptoKey} {id : Uuid} {sealed : V} :
    decryptPayload codec key id sealed = some data ↔
      decryptEventDataBytes codec key id sealed = .ok data := by
  unfold decryptPayload decryptEventDataBytes
  cases codec.asStr sealed with
  | none => simp
  | some text =>
    cases hex : codec.hexDecode text with
    | error err => simp [hex, Except.toOption]
    | ok bytes =>
      cases plain : codec.decrypt key (nonceOf id) bytes with
      | error err => simp [hex, plain, Except.toOption]
      | ok plaintext =>
        cases parsed : codec.fromSlice plaintext with
        | error err => simp [hex, plain, parsed, Except.toOption]
        | ok value => simp [hex, plain, parsed, Except.toOption]

theorem batchEntry_opened (parsed : codec.storedFromSlice entry.2.data = .ok record)
    (opens : Opens codec getKey record data) :
    batchEntry codec getKey entry = .ok ((storedAt entry record data).toWit codec) := by
  have payload : decryptEventData codec getKey record.eventId record.data
      record.encryptionKeyId = .ok data := by
    cases opens with
    | plain unkeyed => rw [unkeyed, decryptEventData]
    | decrypted keyId key _ keyed found opened =>
      rw [keyed, decryptEventData, found]
      exact opened
  simp only [batchEntry, parsed, payload, Except.mapError, bind, Except.bind, pure, Except.pure]
  rfl

theorem handlerEntry_opened (parsed : codec.storedFromSlice entry.2.data = .ok record)
    (opens : Opens codec getKey record data) :
    handlerEntry codec getKey entry = .ok ((storedAt entry record data).toWit codec) := by
  have decoded : deserializeEvent codec entry = .ok (storedAt entry record record.data) := by
    rw [deserializeEvent, parsed]
    rfl
  rw [handlerEntry, decoded]
  cases opens with
  | plain unkeyed =>
    have keyId : (storedAt entry record record.data).encryptionKeyId = none := unkeyed
    simp only [bind, Except.bind, pure, Except.pure, decryptStoredEvent, keyId]
  | decrypted key_id key _ keyed found opened =>
    have keyId : (storedAt entry record record.data).encryptionKeyId = some key_id := keyed
    have answered : (Except.ok (some key) : Except String (Option CryptoKey)).toOption.join =
        some key := rfl
    have payload : decryptPayload codec key (storedAt entry record record.data).id
        (storedAt entry record record.data).data = some data := decryptPayload_iff.mpr opened
    simp only [bind, Except.bind, pure, Except.pure, decryptStoredEvent, keyId, found, answered,
      payload, Option.getD_some]
    rw [← keyed]
    rfl

end encoders

/-- What `Rereads` leaves open: a printed UUID parses back, and of a printed value the
    parser makes what it makes of one in bytes. -/
structure Reprints (codec : Codec V) (reread : V → V) (nesting : V → Nat) (limit : Nat) :
    Prop where
  rereads : Rereads codec reread nesting limit
  uuid : ∀ id, codec.parseUuid (codec.uuidToString id) = some id
  printed : ∀ v, nesting v ≤ limit → codec.fromStr (codec.toString v) = .ok (reread v)

theorem faithful_withParser {codec : Codec V} {nesting : V → Nat} {limit : Nat}
    (faithful : Faithful codec nesting limit) (parseUuid : String → Option Uuid) :
    Faithful { codec with parseUuid := parseUuid } nesting limit where
  parsed := faithful.parsed
  value := faithful.value
  record := faithful.record
  flat := faithful.flat
  text := faithful.text
  hex := faithful.hex
  cipher := faithful.cipher

section decoder
variable {dates : DateRange} {codec : Codec V} {reread : V → V} {nesting : V → Nat}
  {limit : Nat}

theorem reread_within (reprints : Reprints codec reread nesting limit) {v : V}
    (within : nesting v ≤ limit) : nesting (reread v) ≤ limit :=
  reprints.rereads.parsed _ _ (reprints.printed v within)

theorem parseGuestUuid_printed (reprints : Reprints codec reread nesting limit) (what : String)
    (id : Uuid) : parseGuestUuid codec what (codec.uuidToString id) = .ok id := by
  rw [parseGuestUuid, reprints.uuid]

theorem parseOptionalUuid_printed (reprints : Reprints codec reread nesting limit) (what : String)
    (id : Option Uuid) :
    parseOptionalUuid codec what (id.map codec.uuidToString) = .ok id := by
  cases id with
  | none => rfl
  | some id =>
    rw [Option.map_some, parseOptionalUuid, parseGuestUuid_printed reprints]
    rfl

theorem parsePosition_asI64 {position : Nat} (small : position < 2 ^ 63) :
    parsePosition (asI64 position) = .ok position := by
  have exact : asI64 position = position := by
    have within : (BitVec.ofNat 64 position).toNat = position := by
      rw [BitVec.toNat_ofNat]
      omega
    rw [asI64, BitVec.toInt_eq_toNat_of_lt (by omega), within]
  have positive : (0 : Int) ≤ position := Int.natCast_nonneg position
  rw [exact, parsePosition, if_pos positive, Int.toNat_natCast]

theorem fromWit_toWit (reprints : Reprints codec reread nesting limit) {event : StoredEvent V}
    (small : event.position < 2 ^ 63) (held : dates.Holds event.timestamp)
    (within : nesting event.data ≤ limit) :
    fromWit dates codec (event.toWit codec) =
      .ok { event with
        timestamp := timestampMillis event.timestamp * 1000000
        data := reread event.data } := by
  have floor : dates.Holds ((event.toWit codec).timestamp * 1000000) := DateRange.floor_held held
  rw [fromWit_guestEvent floor, guestEvent]
  simp only [StoredEvent.toWit, parseGuestUuid_printed reprints,
    parseOptionalUuid_printed reprints, parsePosition_asI64 small, reprints.printed _ within,
    Except.mapError, bind, Except.bind, pure, Except.pure]

end decoder

def envelopeRecord (envelope : EventEnvelope) (eventId : Uuid) (data : V)
    (encryptionScope : Option String) (encryptionKeyId : Option Uuid) : StoredEventData V where
  eventId := eventId
  timestamp := envelope.timestamp
  correlationId := envelope.correlationId
  causationId := envelope.causationId
  triggeringEventId := envelope.triggeringEventId
  idempotencyKey := envelope.idempotencyKey
  encryptionScope := encryptionScope
  encryptionKeyId := encryptionKeyId
  data := data

/-- The event that was committed, as it stands in the log with its payload in the clear:
    the data is what the parser makes of the committed value. -/
def committedEvent (reread : V → V) (envelope : EventEnvelope) (p : PendingEvent V)
    (keyId : Option Uuid) (entry : Nat × Event) : StoredEvent V :=
  storedAt entry (envelopeRecord envelope p.eventId p.data p.encryptionScope keyId)
    (reread p.data)

/-- Both hosts build the interface record of `event`, and the guest takes it apart
    without a panic, losing only what its time has below a millisecond and reading its data
    once more. -/
structure HandedOver (dates : DateRange) (codec : Codec V) (reread : V → V)
    (getKey : Uuid → Except String (Option CryptoKey)) (entry : Nat × Event)
    (event : StoredEvent V) : Prop where
  command : batchEntry codec getKey entry = .ok (event.toWit codec)
  handler : handlerEntry codec getKey entry = .ok (event.toWit codec)
  guest : fromWit dates codec (event.toWit codec) =
    .ok { event with
      timestamp := timestampMillis event.timestamp * 1000000
      data := reread event.data }

section commit
variable {dates : DateRange} {codec : Codec V} {rules : NameRules} {reread : V → V}
  {nesting : V → Nat} {limit : Nat} {envelope : EventEnvelope} {p : PendingEvent V}

theorem stored_envelope (rereads : Rereads codec reread nesting limit) {event : Event} {data : V}
    {keyId : Option Uuid} (shallow : nesting data < limit)
    (stored : event.data =
      encodeWithEnvelope codec envelope p.eventId data p.encryptionScope keyId) :
    codec.storedFromSlice event.data =
      .ok (envelopeRecord envelope p.eventId (reread data) p.encryptionScope keyId) := by
  rw [stored]
  exact rereads.record (envelopeRecord envelope p.eventId data p.encryptionScope keyId) shallow

theorem handed_over (reprints : Reprints codec reread nesting limit)
    (held : dates.Holds envelope.timestamp)
    {getKey : Uuid → Except String (Option CryptoKey)} {entry : Nat × Event}
    (small : entry.1 < 2 ^ 63) {keyId : Option Uuid} {data : V}
    (parsed : codec.storedFromSlice entry.2.data =
      .ok (envelopeRecord envelope p.eventId (reread data) p.encryptionScope keyId))
    (opens : Opens codec getKey
      (envelopeRecord envelope p.eventId (reread data) p.encryptionScope keyId) (reread p.data))
    (within : nesting p.data ≤ limit) :
    HandedOver dates codec reread getKey entry
      (committedEvent reread envelope p keyId entry) := by
  have command := batchEntry_opened parsed opens
  have handler := handlerEntry_opened parsed opens
  constructor
  · exact command
  · exact handler
  · exact fromWit_toWit reprints small held (reread_within reprints within)

/-- The key identifier an event was committed with: the one the commit was given for
    its scope. -/
inductive KeyGiven (history : KeyHistory) : Option String → Option Uuid → Prop where
  | plain : KeyGiven history none none
  | scope (scope : String) (key : Uuid × CryptoKey) (answered : history.createKey scope = .ok key) :
      KeyGiven history (some scope) (some key.1)

/-- The stored event is plain, or the lookup of its key and the decryption succeed. -/
def Readable (codec : Codec V) (keys : CryptoKeys) (event : Event) : Prop :=
  ∃ record data, codec.storedFromSlice event.data = .ok record ∧
    Opens codec (answerById keys) record data

theorem key_found {history : KeyHistory} {scope : String} {key : Uuid × CryptoKey}
    {found : CryptoKey} (answered : history.createKey scope = .ok key)
    (looked : answerById history.now key.1 = .ok (some found)) : found = key.2 := by
  have row := history.key_now answered
  have here : getCryptoKeyById history.now key.1 = some found := Except.ok.inj looked
  rw [here] at row
  split at row
  · exact absurd row (by simp)
  · exact Option.some.inj row

theorem committed_handed_over (reprints : Reprints codec reread nesting limit)
    {history : KeyHistory}
    (held : dates.Holds envelope.timestamp) {event : Event} (within : nesting p.data ≤ limit)
    (shallow : p.encryptionScope = none → nesting p.data < limit)
    (stored : (p.encryptionScope = none ∧ StoredAs codec envelope p none event) ∨
      ∃ scope key, p.encryptionScope = some scope ∧ history.createKey scope = .ok key ∧
        StoredAs codec envelope p (some key) event) :
    ∃ keyId, KeyGiven history p.encryptionScope keyId ∧ ∀ position : Nat, position < 2 ^ 63 →
      Readable codec history.now event →
        HandedOver dates codec reread (answerById history.now) (position, event)
          (committedEvent reread envelope p keyId (position, event)) := by
  rcases stored with ⟨unscoped, plain⟩ | ⟨scope, key, underScope, answered, encrypted⟩
  · refine ⟨none, by rw [unscoped]; exact KeyGiven.plain, ?_⟩
    intro position small _
    cases plain with
    | plain _ _ written =>
      rw [← unscoped] at written
      have parsed := stored_envelope reprints.rereads (shallow unscoped) written
      exact handed_over reprints held small parsed (Opens.plain rfl) within
  · refine ⟨some key.1, by rw [underScope]; exact KeyGiven.scope scope key answered, ?_⟩
    intro position small readable
    obtain ⟨record, data, read, opens⟩ := readable
    cases encrypted with
    | encrypted _ same key ciphertext sameScope sealed written =>
      rw [← sameScope] at written
      have parsed := stored_envelope reprints.rereads
        (ciphertext_flat reprints.rereads sealed) written
      obtain rfl := Except.ok.inj (read.symm.trans parsed)
      cases opens with
      | plain unkeyed => exact absurd unkeyed (by simp [envelopeRecord])
      | decrypted keyId found _ keyed looked _ =>
        obtain rfl : key.1 = keyId := Option.some.inj keyed
        obtain rfl := key_found answered looked
        have opened := (sealed_opens reprints.rereads within sealed).1
        have decrypted := Opens.decrypted key.1 key.2 (reread p.data) keyed looked opened
        exact handed_over reprints held small parsed decrypted within

end commit

section sample

def hexNumber (digits : List UInt8) : Nat :=
  digits.foldl (fun n d => 16 * n + if d.toNat < 58 then d.toNat - 48 else d.toNat - 87) 0

/-- The parser of hyphenated UUID text; it takes what printing the result gives back. -/
def parseHyphenated (text : String) : Option Uuid :=
  let digits := (asciiBytes text).filter fun b => b != 45
  let id : Uuid := BitVec.ofNat 128 (hexNumber digits)
  if asciiText (uuidBytes id) = text then some id else none

theorem hexDigit_number : ∀ n < 16,
    (if (hexDigit n).toNat < 58 then (hexDigit n).toNat - 48 else (hexDigit n).toNat - 87) = n ∧
      (hexDigit n != 45) = true := by decide

theorem hexNumber_hexDigits {k n : Nat} (bound : n < 16 ^ k) :
    hexNumber (hexDigits k n) = n := by
  induction k generalizing n with
  | zero =>
    have zero : n = 0 := by omega
    rw [zero]
    rfl
  | succ k ih =>
    have high := ih (n := n / 16) (by omega)
    have low := (hexDigit_number (n % 16) (Nat.mod_lt n (by decide))).1
    unfold hexNumber at high ⊢
    rw [hexDigits, List.foldl_append, high, List.foldl_cons, List.foldl_nil, low]
    omega

theorem hexDigits_plain (k n : Nat) : ∀ d ∈ hexDigits k n, (d != 45) = true := by
  induction k generalizing n with
  | zero =>
    intro d member
    exact absurd member (by simp [hexDigits])
  | succ k ih =>
    intro d member
    rw [hexDigits] at member
    rcases List.mem_append.mp member with earlier | last
    · exact ih (n / 16) d earlier
    · rw [List.mem_singleton.mp last]
      exact (hexDigit_number (n % 16) (Nat.mod_lt n (by decide))).2

theorem uuidBytes_digits (id : Uuid) :
    (uuidBytes id).filter (fun b => b != 45) = hexDigits 32 id.toNat := by
  have plain := hexDigits_plain 32 id.toNat
  unfold uuidBytes
  dsimp only
  generalize hexDigits 32 id.toNat = digits at plain ⊢
  have kept : ∀ part : List UInt8, (∀ d ∈ part, d ∈ digits) →
      part.filter (fun b => b != 45) = part := by
    intro part within
    exact List.filter_eq_self.mpr fun d member => plain d (within d member)
  have taken : ∀ n m, ((digits.drop n).take m).filter (fun b => b != 45) =
      (digits.drop n).take m := by
    intro n m
    exact kept _ fun d member => List.mem_of_mem_drop (List.mem_of_mem_take member)
  have first := taken 0 8
  have last := kept (digits.drop 20) fun d member => List.mem_of_mem_drop member
  rw [List.drop_zero] at first
  have hyphen : ((45 : UInt8) != 45) = false := rfl
  simp only [List.filter_append, List.filter_cons, hyphen, Bool.false_eq_true, if_false, first,
    taken, last]
  have split : ∀ n m, n + 4 = m → (digits.drop n).take 4 ++ digits.drop m = digits.drop n := by
    intro n m next
    rw [← next, ← List.drop_drop, List.take_append_drop]
  simp only [List.append_assoc, split 16 20 rfl, split 12 16 rfl, split 8 12 rfl,
    List.take_append_drop]

theorem asciiBytes_asciiText (bytes : List UInt8) : asciiBytes (asciiText bytes) = bytes := by
  have value : ∀ b : UInt8, UInt8.ofNat (Char.ofNat b.toNat).toNat = b := by
    intro b
    have small := b.toNat_lt
    have valid : b.toNat.isValidChar := Or.inl (by omega)
    rw [Char.ofNat, dif_pos valid]
    exact UInt8.ofNat_toNat
  rw [asciiBytes, asciiText, String.toList_ofList, List.map_map]
  exact (List.map_congr_left fun b _ => value b).trans (List.map_id bytes)

theorem parseHyphenated_printed (id : Uuid) :
    parseHyphenated (asciiText (uuidBytes id)) = some id := by
  have number : hexNumber (hexDigits 32 id.toNat) = id.toNat := hexNumber_hexDigits (by omega)
  rw [parseHyphenated, asciiBytes_asciiText, uuidBytes_digits, number, BitVec.ofNat_toNat,
    BitVec.setWidth_eq, if_pos rfl]

def rereading (codec : Codec V) (reread : V → V) : Codec V := { codec with
  fromSlice := fun bytes => (codec.fromSlice bytes).map reread
  fromStr := fun text => (codec.fromStr text).map reread
  storedFromSlice := fun bytes => (codec.storedFromSlice bytes).map fun record =>
    { record with data := reread record.data } }

theorem rereading_rereads {codec : Codec V} {reread : V → V} {nesting : V → Nat} {limit : Nat}
    (faithful : Faithful codec nesting limit) (flat : ∀ v, nesting (reread v) ≤ nesting v)
    (hex : ∀ bytes, reread (codec.string (codec.hexEncode bytes)) =
      codec.string (codec.hexEncode bytes)) :
    Rereads (rereading codec reread) reread nesting limit where
  parsed := by
    intro text v parsed
    change (codec.fromStr text).map reread = .ok v at parsed
    cases found : codec.fromStr text with
    | error err => simp [found, Except.map] at parsed
    | ok w =>
      obtain rfl : reread w = v := by simpa [found, Except.map] using parsed
      exact (flat w).trans (faithful.parsed text w found)
  value := fun v within => congrArg (Except.map reread) (faithful.value v within)
  record := fun r shallow => congrArg (Except.map _) (faithful.record r shallow)
  flat := faithful.flat
  text := fun bytes => (congrArg codec.asStr (hex bytes)).trans (faithful.text bytes)
  hex := faithful.hex
  cipher := faithful.cipher

structure Decimal where
  significand : Nat
  exponent : Nat

/-- The double next to a number from 2^53 on; of two that are as near, the even one. -/
def toDouble (n : Nat) : Nat :=
  let unit := 2 ^ (n.log2 - 52)
  let below := n / unit
  let rest := 2 * (n % unit)
  if unit < rest ∨ rest = unit ∧ below % 2 = 1 then (below + 1) * unit else below * unit

def Decimal.nearest (d : Decimal) : Nat := toDouble (d.significand * 10 ^ d.exponent)

/-- The double that the parser reads: the product of two doubles, rounded again. -/
def Decimal.read (d : Decimal) : Nat :=
  toDouble (toDouble d.significand * toDouble (10 ^ d.exponent))

def Decimal.text (d : Decimal) : String :=
  match d.significand.repr.toList with
  | [] => ""
  | first :: rest =>
    String.ofList (first :: '.' :: rest) ++ "e" ++ (d.exponent + rest.length).repr

/-- Doubles and what the parser reads from the digits they are printed in. -/
def drifts : List (Decimal × Decimal) :=
  [(⟨2468308932939, 36⟩, ⟨24683089329390003, 32⟩),
    (⟨24683089329390003, 32⟩, ⟨24683089329390006, 32⟩),
    (⟨24683089329390006, 32⟩, ⟨2468308932939001, 33⟩)]

example : ∀ drift ∈ drifts, drift.1.read = drift.2.nearest := by decide +kernel

def rereadNumber (text : String) : String :=
  ((drifts.find? fun drift => drift.1.text = text).map (·.2.text)).getD text

theorem rereadNumber_flat (text : String) : nesting (rereadNumber text) ≤ nesting text := by
  rw [rereadNumber]
  cases found : drifts.find? fun drift => drift.1.text = text with
  | none => exact le_rfl
  | some drift =>
    have flat : ∀ drift ∈ drifts, nesting drift.2.text = 0 := by decide +kernel
    rw [Option.map_some, Option.getD_some, flat drift (List.mem_of_find?_eq_some found)]
    exact Nat.zero_le _

theorem rereadNumber_quoted (chars : List Char) :
    rereadNumber (String.ofList (quote :: chars)) = String.ofList (quote :: chars) := by
  rw [rereadNumber]
  cases found : drifts.find? fun drift => drift.1.text = String.ofList (quote :: chars) with
  | none => rfl
  | some drift =>
    have digits : ∀ drift ∈ drifts, drift.1.text.toList.head? ≠ some quote := by decide +kernel
    have same : drift.1.text = String.ofList (quote :: chars) := by
      simpa using List.find?_some found
    exact absurd (by simp [same]) (digits drift (List.mem_of_find?_eq_some found))

def numberRecord : StoredEventData String :=
  ⟨4, 0, 2, 3, none, none, none, none, "2.4683089329390003e48"⟩

/-- The codec of the sealed sample with a parser for every UUID, reading numbers as the
    library does. -/
def numberCodec : Codec String :=
  rereading { jsonCodec [numberRecord, adaRecord] [] adaMessage with
    parseUuid := parseHyphenated } rereadNumber

theorem numberCodec_reprints : Reprints numberCodec rereadNumber nesting maxNesting := by
  constructor
  · have faithful : Faithful (jsonCodec [numberRecord, adaRecord] [] adaMessage) nesting
        maxNesting := jsonCodec_faithful (by decide +kernel)
    exact rereading_rereads (faithful_withParser faithful parseHyphenated) rereadNumber_flat
      fun bytes => rereadNumber_quoted _
  · intro id
    dsimp only [numberCodec, rereading, jsonCodec]
    exact parseHyphenated_printed id
  · intro v within
    have parsed : parseValue v = .ok v := if_pos within
    dsimp only [numberCodec, rereading, jsonCodec, id]
    rw [parsed]
    rfl

/-- The dates of `chrono`, from the year -262143 to 262142. -/
def chronoDates : DateRange := ⟨-8334601228800000000000, 8210266876799999999999, by decide⟩

def numberEmit : EmitEvent := ⟨idText 4, "Registered", "2.468308932939e48", [], none⟩

def numberBatch : List Event :=
  [⟨"Registered", [], recordBytes numberRecord⟩, ⟨"Registered", [], recordBytes adaRecord⟩]

def numberCommit : Transactions × Except TransactionError Committed :=
  transactionCommit numberCodec plainNames (askedFirst []).createKey [] openRead 0
    [numberEmit, adaEmit] adaEnvelope

end sample

end UmariEventEncodings
