import Umari.StoredEvents
import Mathlib.Algebra.Group.Nat.Defs
import Mathlib.Logic.Equiv.List

/-!
A codec that runs: JSON values are compact texts, the parser stops at the nesting the
default recursion limit of `serde_json` allows, hex is lower case, and the cipher is
known at one message. The bytes of a record outside the known ones are a number that
nothing but the parser looks at.
-/
namespace UmariJsonCodec
open UmariEventStore UmariStoredEvents

/-- The parser reports an error at the bracket that would be the 128th open one. -/
def maxNesting : Nat := 127

def quote : Char := Char.ofNat 34
def backslash : Char := Char.ofNat 92

def opens (c : Char) : Bool := c.toNat == 91 || c.toNat == 123
def closes (c : Char) : Bool := c.toNat == 93 || c.toNat == 125

def scan : List Char → Nat → Bool → Bool → Nat
  | [], _, _, _ => 0
  | c :: rest, depth, inString, escaped =>
    if inString then
      if escaped then scan rest depth true false
      else if c = backslash then scan rest depth true true
      else scan rest depth (c != quote) false
    else if c = quote then scan rest depth true false
    else if opens c then max (depth + 1) (scan rest (depth + 1) false false)
    else if closes c then scan rest (depth - 1) false false
    else scan rest depth false false

def nesting (text : String) : Nat := scan text.toList 0 false false

def parseValue (text : String) : Except String String :=
  if nesting text ≤ maxNesting then .ok text else .error "recursion limit exceeded"

def hexChar (n : Nat) : Char := Char.ofNat (if n < 10 then 48 + n else 87 + n)

def hexValue (c : Char) : Option Nat :=
  if 48 ≤ c.toNat ∧ c.toNat ≤ 57 then some (c.toNat - 48)
  else if 97 ≤ c.toNat ∧ c.toNat ≤ 102 then some (c.toNat - 87)
  else if 65 ≤ c.toNat ∧ c.toNat ≤ 70 then some (c.toNat - 55)
  else none

def hexChars (bytes : List UInt8) : List Char :=
  bytes.flatMap fun b => [hexChar (b.toNat / 16), hexChar (b.toNat % 16)]

def decodeHex : List Char → Except String (List UInt8)
  | [] => .ok []
  | [_] => .error "Odd number of digits"
  | high :: low :: rest =>
    match hexValue high, hexValue low with
    | some h, some l => (UInt8.ofNat (16 * h + l) :: ·) <$> decodeHex rest
    | _, _ => .error "Invalid character"

def unquote (text : String) : Option String :=
  match text.toList with
  | [] => none
  | c :: rest => if c = quote ∧ rest.getLast? = some quote then some (String.ofList rest.dropLast)
      else none

structure Sealing where
  key : CryptoKey
  nonce : Nonce
  plaintext : List UInt8
  ciphertext : List UInt8

instance encodableChar : Encodable Char :=
  Encodable.ofLeftInverse Char.toNat Char.ofNat Char.ofNat_toNat

instance encodableString : Encodable String :=
  Encodable.ofLeftInverse String.toList String.ofList (by simp)

instance encodableUuid : Encodable Uuid :=
  Encodable.ofLeftInverse BitVec.toNat (BitVec.ofNat 128) (by simp)

abbrev RecordFields :=
  (Uuid × Int × Uuid × Uuid) × (Option Uuid × Option Uuid × Option String × Option Uuid × String)

def recordFields (r : StoredEventData String) : RecordFields :=
  ((r.eventId, r.timestamp, r.correlationId, r.causationId),
    (r.triggeringEventId, r.idempotencyKey, r.encryptionScope, r.encryptionKeyId, r.data))

def ofRecordFields (f : RecordFields) : StoredEventData String :=
  ⟨f.1.1, f.1.2.1, f.1.2.2.1, f.1.2.2.2, f.2.1, f.2.2.1, f.2.2.2.1, f.2.2.2.2.1, f.2.2.2.2.2⟩

instance encodableRecord : Encodable (StoredEventData String) :=
  Encodable.ofLeftInverse recordFields ofRecordFields fun _ => rfl

def storedBytes (records : List (StoredEventData String)) (r : StoredEventData String) :
    List UInt8 :=
  if r ∈ records then recordBytes r else List.replicate (Encodable.encode r) 0

def parseRecord (records : List (StoredEventData String)) (bytes : List UInt8) :
    Except String (StoredEventData String) :=
  let found := match records.find? fun r => recordBytes r = bytes with
    | some r => some r
    | none => Encodable.decode bytes.length
  match found with
  | none => .error "expected value"
  -- the record is one bracket around its data
  | some r => if nesting r.data + 1 ≤ maxNesting then .ok r else .error "recursion limit exceeded"

def jsonCodec (records : List (StoredEventData String)) (ids : List Uuid) (message : Sealing) :
    Codec String where
  null := "null"
  asStr := unquote
  string := fun text => String.ofList (quote :: (text.toList ++ [quote]))
  toVec := fun text => text.toUTF8.data.toList
  fromSlice := fun bytes =>
    match String.fromUTF8? ⟨bytes.toArray⟩ with
    | some text => parseValue text
    | none => .error "invalid unicode code point"
  toString := id
  fromStr := parseValue
  storedToVec := storedBytes records
  storedFromSlice := parseRecord records
  parseUuid := fun text => ids.find? fun id => asciiText (uuidBytes id) = text
  uuidToString := fun id => asciiText (uuidBytes id)
  hexEncode := fun bytes => String.ofList (hexChars bytes)
  hexDecode := fun text => decodeHex text.toList
  encrypt := fun key nonce plaintext =>
    if key = message.key ∧ nonce = message.nonce ∧ plaintext = message.plaintext
      then .ok message.ciphertext else .error "aead::Error"
  decrypt := fun key nonce ciphertext =>
    if key = message.key ∧ nonce = message.nonce ∧ ciphertext = message.ciphertext
      then .ok message.plaintext else .error "aead::Error"

section laws

theorem hexChar_value : ∀ n < 16, hexValue (hexChar n) = some n := by decide

theorem hexChar_plain : ∀ n < 16, hexChar n ≠ backslash ∧ hexChar n ≠ quote := by decide

theorem decodeHex_hexChars (bytes : List UInt8) : decodeHex (hexChars bytes) = .ok bytes := by
  induction bytes with
  | nil => rfl
  | cons b rest ih =>
    have small := b.toNat_lt
    have high := hexChar_value (b.toNat / 16) (by omega)
    have low := hexChar_value (b.toNat % 16) (by omega)
    have unfolded : hexChars (b :: rest) =
        hexChar (b.toNat / 16) :: hexChar (b.toNat % 16) :: hexChars rest := rfl
    rw [unfolded, decodeHex, high, low]
    dsimp only
    rw [ih, Nat.div_add_mod]
    simp [Functor.map, Except.map]

theorem unquote_quoted (text : String) :
    unquote (String.ofList (quote :: (text.toList ++ [quote]))) = some text := by
  simp [unquote]

theorem scan_literal {chars : List Char} (plain : ∀ c ∈ chars, c ≠ backslash ∧ c ≠ quote)
    (depth : Nat) : scan (chars ++ [quote]) depth true false = 0 := by
  induction chars with
  | nil => rfl
  | cons c rest ih =>
    obtain ⟨unescaped, unquoted⟩ := plain c List.mem_cons_self
    have later := ih fun d member => plain d (List.mem_cons_of_mem _ member)
    have stays : (c != quote) = true := bne_iff_ne.mpr unquoted
    rw [List.cons_append, scan]
    simp [unescaped, stays, later]

theorem hexChars_plain (bytes : List UInt8) : ∀ c ∈ hexChars bytes, c ≠ backslash ∧ c ≠ quote := by
  intro c member
  obtain ⟨b, _, here⟩ := List.mem_flatMap.mp member
  have small := b.toNat_lt
  simp only [List.mem_cons, List.not_mem_nil, or_false] at here
  rcases here with rfl | rfl
  · exact hexChar_plain _ (by omega)
  · exact hexChar_plain _ (by omega)

theorem nesting_hex (bytes : List UInt8) :
    nesting (String.ofList (quote :: ((String.ofList (hexChars bytes)).toList ++ [quote]))) =
      0 := by
  rw [nesting, String.toList_ofList, String.toList_ofList, scan]
  simp [scan_literal (hexChars_plain bytes)]

theorem fromUTF8_toUTF8 (text : String) :
    String.fromUTF8? ⟨text.toUTF8.data.toList.toArray⟩ = some text := by
  have bytes : (⟨text.toUTF8.data.toList.toArray⟩ : ByteArray) = text.toUTF8 := by simp
  rw [bytes, String.fromUTF8?]
  exact dif_pos text.isValidUTF8

theorem hexDigit_injective : ∀ a < 16, ∀ b < 16, hexDigit a = hexDigit b → a = b := by decide

theorem hexDigits_length (k n : Nat) : (hexDigits k n).length = k := by
  induction k generalizing n with
  | zero => rfl
  | succ k ih => simp [hexDigits, ih]

theorem hexDigits_injective {k a b : Nat} (boundA : a < 16 ^ k) (boundB : b < 16 ^ k)
    (same : hexDigits k a = hexDigits k b) : a = b := by
  induction k generalizing a b with
  | zero => omega
  | succ k ih =>
    rw [hexDigits, hexDigits] at same
    obtain ⟨high, low⟩ := List.append_inj' same rfl
    have last := hexDigit_injective _ (Nat.mod_lt a (by decide)) _ (Nat.mod_lt b (by decide))
      (List.cons.inj low).1
    have first := ih (by omega) (by omega) high
    omega

theorem asciiText_injective {a b : List UInt8} (same : asciiText a = asciiText b) : a = b := by
  have value : ∀ n < 256, (Char.ofNat n).toNat = n := by
    intro n small
    have valid : n.isValidChar := Or.inl (by omega)
    rw [Char.ofNat, dif_pos valid]
    rfl
  apply List.map_injective_iff.mpr _ (String.ofList_injective same)
  intro x y equal
  have codes := congrArg Char.toNat equal
  rw [value _ x.toNat_lt, value _ y.toNat_lt] at codes
  exact UInt8.toNat_inj.mp codes

theorem uuidBytes_injective {a b : Uuid} (same : uuidBytes a = uuidBytes b) : a = b := by
  unfold uuidBytes at same
  dsimp only at same
  have digits : hexDigits 32 a.toNat = hexDigits 32 b.toNat := by
    have lengthA := hexDigits_length 32 a.toNat
    have lengthB := hexDigits_length 32 b.toNat
    generalize hexDigits 32 a.toNat = x at same lengthA ⊢
    generalize hexDigits 32 b.toNat = y at same lengthB ⊢
    simp only [List.append_assoc, List.cons_append] at same
    obtain ⟨first, rest⟩ := List.append_inj same (by simp [lengthA, lengthB])
    obtain ⟨second, rest⟩ := List.append_inj (List.cons.inj rest).2 (by simp [lengthA, lengthB])
    obtain ⟨third, rest⟩ := List.append_inj (List.cons.inj rest).2 (by simp [lengthA, lengthB])
    obtain ⟨fourth, rest⟩ := List.append_inj (List.cons.inj rest).2 (by simp [lengthA, lengthB])
    have parts : ∀ d : List UInt8, d = d.take 8 ++ ((d.drop 8).take 4 ++ ((d.drop 12).take 4 ++
        ((d.drop 16).take 4 ++ d.drop 20))) := by
      intro d
      have split : ∀ n m, n + 4 = m → (d.drop n).take 4 ++ d.drop m = d.drop n := by
        intro n m next
        rw [← next, ← List.drop_drop, List.take_append_drop]
      rw [split 16 20 rfl, split 12 16 rfl, split 8 12 rfl, List.take_append_drop]
    rw [parts x, parts y, first, second, third, fourth, (List.cons.inj rest).2]
  have boundA := a.isLt
  have boundB := b.isLt
  exact BitVec.eq_of_toNat_eq (hexDigits_injective (by omega) (by omega) digits)
variable {records : List (StoredEventData String)} {ids : List Uuid} {message : Sealing}

theorem jsonCodec_uuid {id found : Uuid}
    (parsed : (jsonCodec records ids message).parseUuid
      ((jsonCodec records ids message).uuidToString id) = some found) : found = id := by
  dsimp only [jsonCodec] at parsed
  have same : asciiText (uuidBytes found) = asciiText (uuidBytes id) := by
    simpa using List.find?_some parsed
  exact uuidBytes_injective (asciiText_injective same)

theorem recordBytes_head (r : StoredEventData String) : ∃ rest, recordBytes r = 123 :: rest := by
  have opened : asciiBytes "\x7b\"event_id\":\"" = 123 :: asciiBytes "\"event_id\":\"" := by decide
  unfold recordBytes
  rw [opened]
  simp only [List.cons_append]
  exact ⟨_, rfl⟩

theorem findRecord
    (distinct : ∀ a ∈ records, ∀ b ∈ records, recordBytes a = recordBytes b → a = b)
    {r : StoredEventData String} (known : r ∈ records) :
    (records.find? fun other => recordBytes other = recordBytes r) = some r := by
  cases found : records.find? fun other => recordBytes other = recordBytes r with
  | none => exact absurd (decide_eq_true rfl) (List.find?_eq_none.mp found r known)
  | some other =>
    have same : recordBytes other = recordBytes r := by simpa using List.find?_some found
    rw [distinct other (List.mem_of_find?_eq_some found) r known same]

theorem parseRecord_stored
    (distinct : ∀ a ∈ records, ∀ b ∈ records, recordBytes a = recordBytes b → a = b)
    (r : StoredEventData String) :
    parseRecord records (storedBytes records r) =
      if nesting r.data + 1 ≤ maxNesting then .ok r else .error "recursion limit exceeded" := by
  unfold parseRecord storedBytes
  by_cases known : r ∈ records
  · rw [if_pos known, findRecord distinct known]
  · rw [if_neg known]
    have other : (records.find? fun other =>
        recordBytes other = List.replicate (Encodable.encode r) 0) = none := by
      apply List.find?_eq_none.mpr
      intro other _ same
      obtain ⟨rest, head⟩ := recordBytes_head other
      have zeros : recordBytes other = List.replicate (Encodable.encode r) 0 := by simpa using same
      have first : (123 : UInt8) ∈ List.replicate (Encodable.encode r) (0 : UInt8) := by
        rw [← zeros, head]
        exact List.mem_cons_self
      exact absurd (List.eq_of_mem_replicate first) (by decide)
    rw [other, List.length_replicate, Encodable.encodek]

theorem jsonCodec_faithful
    (distinct : ∀ a ∈ records, ∀ b ∈ records, recordBytes a = recordBytes b → a = b) :
    Faithful (jsonCodec records ids message) nesting maxNesting := by
  constructor
  · intro text v parsed
    have body : parseValue text = .ok v := parsed
    unfold parseValue at body
    split at body
    · rename_i within
      obtain rfl := Except.ok.inj body
      exact within
    · exact absurd body (by simp)
  · intro text within
    show (match String.fromUTF8? ⟨text.toUTF8.data.toList.toArray⟩ with
      | some text => parseValue text
      | none => .error "invalid unicode code point") = Except.ok text
    rw [fromUTF8_toUTF8]
    exact if_pos within
  · intro r shallow
    show parseRecord records (storedBytes records r) = .ok r
    rw [parseRecord_stored distinct]
    exact if_pos shallow
  · intro bytes
    show nesting (String.ofList (quote :: ((String.ofList (hexChars bytes)).toList ++ [quote]))) <
      maxNesting
    rw [nesting_hex]
    decide
  · intro bytes
    dsimp only [jsonCodec, id]
    rw [unquote_quoted]
  · intro bytes
    show decodeHex (String.ofList (hexChars bytes)).toList = .ok bytes
    rw [String.toList_ofList, decodeHex_hexChars]
  · intro key nonce plaintext ciphertext encrypted
    simp only [jsonCodec] at encrypted ⊢
    split at encrypted
    · rename_i known
      obtain ⟨rfl, rfl, rfl⟩ := known
      obtain rfl := Except.ok.inj encrypted
      simp
    · exact absurd encrypted (by simp)

theorem jsonCodec_limited
    (distinct : ∀ a ∈ records, ∀ b ∈ records, recordBytes a = recordBytes b → a = b) :
    Limited (jsonCodec records ids message) id nesting maxNesting where
  rereads := jsonCodec_faithful distinct
  tooDeep := by
    intro r deep
    refine ⟨"recursion limit exceeded", ?_⟩
    show parseRecord records (storedBytes records r) = _
    rw [parseRecord_stored distinct]
    exact if_neg (by omega)

end laws

end UmariJsonCodec
