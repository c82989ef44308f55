import Umari.OrderedSets
import Umari.StateDatabases
import Umari.StoredEvents

/-!
The functions of a module actor that do not depend on how it schedules events:
decoding, decryption, the resume position, the durable watermark and the
handling of one acknowledgement.
-/
namespace UmariModuleActor
open OrderedSets UmariEventStore UmariStoredEvents UmariStateDatabases
variable {V : Type}

inductive ModuleError where
  | concurrentModification
  | deserializeEvent (error : String)
  | workerFailed (message : String)
  | wasmtime (message : String)
  | assertionFailed
deriving DecidableEq, Repr

inductive PartitionKey where
  | inline
  | unkeyed
  | keyed (key : String)
deriving DecidableEq, Repr

def deserializeEvent (codec : Codec V) (entry : Nat × Event) :
    Except ModuleError (StoredEvent V) :=
  match codec.storedFromSlice entry.2.data with
  | .error err => .error (.deserializeEvent err)
  | .ok data => .ok {
      id := data.eventId
      position := entry.1
      eventType := entry.2.eventType
      tags := entry.2.tags
      timestamp := data.timestamp
      correlationId := data.correlationId
      causationId := data.causationId
      triggeringEventId := data.triggeringEventId
      idempotencyKey := data.idempotencyKey
      encryptionScope := data.encryptionScope
      encryptionKeyId := data.encryptionKeyId
      data := data.data }

/-- The decryption of one payload; every failure in it yields nothing. -/
def decryptPayload (codec : Codec V) (key : CryptoKey) (id : Uuid) (data : V) : Option V := do
  let hexStr ← codec.asStr data
  let ciphertext ← (codec.hexDecode hexStr).toOption
  let plaintext ← (codec.decrypt key (nonceOf id) ciphertext).toOption
  (codec.fromSlice plaintext).toOption

/-- `answer` is the key store's reply; a failed request counts as a missing key. -/
def decryptStoredEvent (codec : Codec V) (answer : Except String (Option CryptoKey))
    (event : StoredEvent V) : StoredEvent V :=
  match event.encryptionKeyId with
  | none => event
  | some _ =>
    match answer.toOption.join with
    | none => { event with data := codec.null }
    | some key =>
      { event with data := (decryptPayload codec key event.id event.data).getD codec.null }

/-- The test both event loops skip an event by. -/
def isShredded [DecidableEq V] (codec : Codec V) (event : StoredEvent V) : Bool :=
  event.encryptionScope.isSome && decide (event.data = codec.null)

def resumePosition (last : Option Nat) : Nat := last.getD 0

/-- `none` is the failed assertion that no event is at position zero. -/
def calculateWatermark (inFlight : OrderedSet Nat) (cursor highestCompleted : Nat) :
    Option Nat :=
  match inFlight.first with
  | some least => if least ≠ 0 then some (least - 1) else none
  | none => some (max cursor highestCompleted)

structure Progress where
  cursor : Nat
  inFlight : OrderedSet Nat
  highestCompleted : Nat
  lastPosition : Option Nat
deriving DecidableEq

/-- The new progress, the row, and the value written when there was an update. -/
def handleAck (progress : Progress) (row : Option MetaRow) (position : Nat) :
    Except ModuleError (Progress × Option MetaRow × Option Nat) :=
  let progress := { progress with
    inFlight := progress.inFlight.remove position
    highestCompleted := max progress.highestCompleted position }
  match calculateWatermark progress.inFlight progress.cursor progress.highestCompleted with
  | none => .error .assertionFailed
  | some watermark =>
    if some watermark = progress.lastPosition then .ok (progress, row, none)
    else
      match updateLastPosition watermark progress.lastPosition row with
      | none => .error .concurrentModification
      | some row => .ok ({ progress with lastPosition := some watermark }, row, some watermark)

/-- Every update of `last_position` wrote at least the value it replaced. -/
def Monotone (writes : List (Option Nat × Nat)) : Prop :=
  ∀ old new, (old, new) ∈ writes → ∀ n, old = some n → n ≤ new

theorem monotone_snoc {writes : List (Option Nat × Nat)} {old : Option Nat} {new : Nat}
    (before : Monotone writes) (grows : ∀ n, old = some n → n ≤ new) :
    Monotone (writes ++ [(old, new)]) := by
  intro a b member
  rcases List.mem_append.mp member with earlier | last
  · exact before a b earlier
  · obtain ⟨rfl, rfl⟩ := Prod.mk.inj (List.mem_singleton.mp last)
    exact grows

theorem calculateWatermark_some {inFlight : OrderedSet Nat} {cursor highest watermark : Nat}
    (computed : calculateWatermark inFlight cursor highest = some watermark) :
    (∀ p, p ∈ inFlight → watermark < p) ∧
      ((∀ p, ¬ p ∈ inFlight) → watermark = max cursor highest) ∧
      ((∃ p, p ∈ inFlight) → ∃ p, p ∈ inFlight ∧ watermark + 1 = p) := by
  unfold calculateWatermark at computed
  cases least : inFlight.first with
  | none =>
    have empty := OrderedSet.first_eq_none.mp least
    simp only [least, Option.some.injEq] at computed
    refine ⟨fun p member => absurd member (empty p), fun _ => computed.symm, ?_⟩
    rintro ⟨p, member⟩
    exact absurd member (empty p)
  | some q =>
    simp only [least] at computed
    split at computed
    · rename_i positive
      have value := Option.some.inj computed
      refine ⟨?_, ?_, ?_⟩
      · intro p member
        have below := OrderedSet.first_le least member
        omega
      · intro empty
        exact absurd (OrderedSet.first_mem least) (empty q)
      · intro _
        exact ⟨q, OrderedSet.first_mem least, by omega⟩
    · exact absurd computed (by simp)

theorem watermark_le_cursor {inFlight : OrderedSet Nat} {cursor highest watermark : Nat}
    (computed : calculateWatermark inFlight cursor highest = some watermark)
    (completed : highest ≤ cursor) (flying : ∀ p, p ∈ inFlight → p ≤ cursor) :
    watermark ≤ cursor := by
  obtain ⟨_, drained, pinned⟩ := calculateWatermark_some computed
  by_cases some : ∃ p, p ∈ inFlight
  · obtain ⟨p, member, next⟩ := pinned some
    have bound := flying p member
    omega
  · have value := drained (fun p member => some ⟨p, member⟩)
    omega

theorem handleAck_ok {progress progress' : Progress} {row row' : Option MetaRow}
    {position : Nat} {write : Option Nat}
    (handled : handleAck progress row position = .ok (progress', row', write)) :
    ∃ watermark,
      calculateWatermark (progress.inFlight.remove position) progress.cursor
        (max progress.highestCompleted position) = some watermark ∧
      progress' = ⟨progress.cursor, progress.inFlight.remove position,
        max progress.highestCompleted position, some watermark⟩ ∧
      ((write = none ∧ row' = row ∧ progress.lastPosition = some watermark) ∨
        (write = some watermark ∧ storedPosition row = progress.lastPosition ∧
          storedPosition row' = some watermark ∧ row'.isSome = row.isSome)) := by
  unfold handleAck at handled
  dsimp only at handled
  cases computed : calculateWatermark (progress.inFlight.remove position) progress.cursor
      (max progress.highestCompleted position) with
  | none =>
    rw [computed] at handled
    exact absurd handled (by simp)
  | some watermark =>
    rw [computed] at handled
    dsimp only at handled
    refine ⟨watermark, rfl, ?_⟩
    split at handled
    · rename_i same
      simp only [Except.ok.injEq, Prod.mk.injEq] at handled
      obtain ⟨rfl, rfl, rfl⟩ := handled
      exact ⟨by rw [same], Or.inl ⟨rfl, rfl, same.symm⟩⟩
    · cases updated : updateLastPosition watermark progress.lastPosition row with
      | none =>
        rw [updated] at handled
        exact absurd handled (by simp)
      | some newRow =>
        rw [updated] at handled
        simp only [Except.ok.injEq, Prod.mk.injEq] at handled
        obtain ⟨rfl, rfl, rfl⟩ := handled
        have rows := updateLastPosition_some updated
        exact ⟨rfl, Or.inr ⟨rfl, rows⟩⟩

def secretRecord : StoredEventData String :=
  ⟨1, 0, 2, 3, none, none, some "user:1", some 9, "\"00ff\""⟩

def plainRecord : StoredEventData String := ⟨4, 0, 2, 3, none, none, none, none, "\x7b\x7d"⟩

def secretEvent : Event := ⟨"Registered", [], recordBytes secretRecord⟩

def plainEvent : Event := ⟨"Registered", [], recordBytes plainRecord⟩

def sampleCodec : Codec String := textCodec [secretRecord, plainRecord] []

end UmariModuleActor
