import Umari.EventStore

/-!
The event envelope as it is stored and as it is handed to a guest. JSON, UUID
text, hex and AES-GCM are third-party code; `Codec` collects the functions of
them that the runtime calls. `V` is the JSON value type. Timestamps are
nanoseconds since the epoch.
-/
namespace UmariStoredEvents
open UmariEventStore

abbrev Uuid := BitVec 128
abbrev CryptoKey := BitVec 256
abbrev Nonce := BitVec 96

/-- The first twelve bytes of a UUID, which is held most significant byte first. -/
def nonceOf (id : Uuid) : Nonce := id.extractLsb' 32 96

/-- The conversion `as i64` of an unsigned 64-bit position. -/
def asI64 (position : Nat) : Int := (BitVec.ofNat 64 position).toInt

def timestampMillis (timestamp : Int) : Int := timestamp / 1000000

structure EventEnvelope where
  timestamp : Int
  correlationId : Uuid
  causationId : Uuid
  triggeringEventId : Option Uuid
  idempotencyKey : Option Uuid
deriving DecidableEq, Repr

structure StoredEventData (V : Type) where
  eventId : Uuid
  timestamp : Int
  correlationId : Uuid
  causationId : Uuid
  triggeringEventId : Option Uuid
  idempotencyKey : Option Uuid
  encryptionScope : Option String
  encryptionKeyId : Option Uuid
  data : V
deriving DecidableEq, Repr

structure StoredEvent (V : Type) where
  id : Uuid
  position : Nat
  eventType : String
  tags : List String
  timestamp : Int
  correlationId : Uuid
  causationId : Uuid
  triggeringEventId : Option Uuid
  idempotencyKey : Option Uuid
  encryptionScope : Option String
  encryptionKeyId : Option Uuid
  data : V
deriving DecidableEq, Repr

structure WitStoredEvent where
  id : String
  position : Int
  eventType : String
  tags : List String
  timestamp : Int
  correlationId : String
  causationId : String
  triggeringEventId : Option String
  idempotencyKey : Option String
  encryptionScope : Option String
  encryptionKeyId : Option String
  data : String
deriving DecidableEq, Repr

structure Codec (V : Type) where
  null : V
  asStr : V → Option String
  string : String → V
  toVec : V → List UInt8
  fromSlice : List UInt8 → Except String V
  toString : V → String
  fromStr : String → Except String V
  storedToVec : StoredEventData V → List UInt8
  storedFromSlice : List UInt8 → Except String (StoredEventData V)
  parseUuid : String → Option Uuid
  uuidToString : Uuid → String
  hexEncode : List UInt8 → String
  hexDecode : String → Except String (List UInt8)
  encrypt : CryptoKey → Nonce → List UInt8 → Except String (List UInt8)
  decrypt : CryptoKey → Nonce → List UInt8 → Except String (List UInt8)

variable {V : Type} (codec : Codec V)

/-- What the JSON, hex and cipher functions give back of what they were given. The JSON
    parser takes values of a bounded nesting; a record nests one deeper than its data. Of a
    value that was written it makes `reread` of it: a number may come back as a neighbour. -/
structure Rereads (reread : V → V) (nesting : V → Nat) (limit : Nat) : Prop where
  parsed : ∀ text v, codec.fromStr text = .ok v → nesting v ≤ limit
  value : ∀ v, nesting v ≤ limit → codec.fromSlice (codec.toVec v) = .ok (reread v)
  record : ∀ r, nesting r.data < limit →
    codec.storedFromSlice (codec.storedToVec r) = .ok { r with data := reread r.data }
  -- a ciphertext is stored as a JSON string of hex digits
  flat : ∀ bytes, nesting (codec.string (codec.hexEncode bytes)) < limit
  text : ∀ bytes,
    codec.asStr (reread (codec.string (codec.hexEncode bytes))) = some (codec.hexEncode bytes)
  hex : ∀ bytes, codec.hexDecode (codec.hexEncode bytes) = .ok bytes
  cipher : ∀ key nonce plaintext ciphertext,
    codec.encrypt key nonce plaintext = .ok ciphertext →
      codec.decrypt key nonce ciphertext = .ok plaintext

abbrev Faithful (nesting : V → Nat) (limit : Nat) : Prop := Rereads codec id nesting limit

/-- The parser's bound is exact: a record whose data nests too deep is rejected. -/
structure Limited (reread : V → V) (nesting : V → Nat) (limit : Nat) : Prop where
  rereads : Rereads codec reread nesting limit
  tooDeep : ∀ r, limit ≤ nesting r.data → ∃ err,
    codec.storedFromSlice (codec.storedToVec r) = .error err

def encodeWithEnvelope (envelope : EventEnvelope) (eventId : Uuid) (data : V)
    (encryptionScope : Option String) (encryptionKeyId : Option Uuid) : List UInt8 :=
  codec.storedToVec {
    eventId := eventId
    timestamp := envelope.timestamp
    correlationId := envelope.correlationId
    causationId := envelope.causationId
    triggeringEventId := envelope.triggeringEventId
    idempotencyKey := envelope.idempotencyKey
    encryptionScope := encryptionScope
    encryptionKeyId := encryptionKeyId
    data := data }

def StoredEvent.toWit (event : StoredEvent V) : WitStoredEvent := {
  id := codec.uuidToString event.id
  position := asI64 event.position
  eventType := event.eventType
  tags := event.tags
  timestamp := timestampMillis event.timestamp
  correlationId := codec.uuidToString event.correlationId
  causationId := codec.uuidToString event.causationId
  triggeringEventId := event.triggeringEventId.map codec.uuidToString
  idempotencyKey := event.idempotencyKey.map codec.uuidToString
  encryptionScope := event.encryptionScope
  encryptionKeyId := event.encryptionKeyId.map codec.uuidToString
  data := codec.toString event.data }

section textCodec

def hexDigit (n : Nat) : UInt8 := UInt8.ofNat (if n < 10 then 48 + n else 87 + n)

def hexDigits : Nat → Nat → List UInt8
  | 0, _ => []
  | k + 1, n => hexDigits k (n / 16) ++ [hexDigit (n % 16)]

def asciiBytes (text : String) : List UInt8 := text.toList.map fun c => UInt8.ofNat c.toNat

def asciiText (bytes : List UInt8) : String :=
  String.ofList (bytes.map fun b => Char.ofNat b.toNat)

def uuidBytes (id : Uuid) : List UInt8 :=
  let digits := hexDigits 32 id.toNat
  digits.take 8 ++ 45 :: (digits.drop 8).take 4 ++ 45 :: (digits.drop 12).take 4 ++
    45 :: (digits.drop 16).take 4 ++ 45 :: digits.drop 20

def optionalField (name : String) : Option (List UInt8) → List UInt8
  | none => []
  | some value => asciiBytes ("\"" ++ name ++ "\":\"") ++ value ++ asciiBytes "\","

/-- The JSON text of a record stamped at the epoch whose data is JSON text already. -/
def recordBytes (record : StoredEventData String) : List UInt8 :=
  asciiBytes "\x7b\"event_id\":\"" ++ uuidBytes record.eventId ++
    asciiBytes "\",\"timestamp\":\"1970-01-01T00:00:00Z\",\"correlation_id\":\"" ++
    uuidBytes record.correlationId ++ asciiBytes "\",\"causation_id\":\"" ++
    uuidBytes record.causationId ++ asciiBytes "\"," ++
    optionalField "triggering_event_id" (record.triggeringEventId.map uuidBytes) ++
    optionalField "idempotency_key" (record.idempotencyKey.map uuidBytes) ++
    optionalField "encryption_scope" (record.encryptionScope.map asciiBytes) ++
    optionalField "encryption_key_id" (record.encryptionKeyId.map uuidBytes) ++
    asciiBytes "\"data\":" ++ asciiBytes record.data ++ [125]

/-- JSON held as its compact text, decoding the known records and UUIDs only. It
    runs the model on fixed inputs; nothing on them is encrypted. -/
def textCodec (records : List (StoredEventData String)) (ids : List Uuid) : Codec String where
  null := "null"
  asStr := fun _ => none
  string := fun text => "\"" ++ text ++ "\""
  toVec := asciiBytes
  fromSlice := fun bytes => .ok (asciiText bytes)
  toString := id
  fromStr := .ok
  storedToVec := recordBytes
  storedFromSlice := fun bytes =>
    match records.find? fun record => recordBytes record = bytes with
    | some record => .ok record
    | none => .error "expected value"
  parseUuid := fun text => ids.find? fun id => asciiText (uuidBytes id) = text
  uuidToString := fun id => asciiText (uuidBytes id)
  hexEncode := fun bytes => asciiText (bytes.flatMap fun b => hexDigits 2 b.toNat)
  hexDecode := fun _ => .error "Invalid string length"
  encrypt := fun _ _ _ => .error "aead::Error"
  decrypt := fun _ _ _ => .error "aead::Error"

end textCodec

end UmariStoredEvents
