import Umari.SealedEvents

/-!
Events that were accepted and cannot be read. A commit parses the bare payload of an
event, its readers parse the record around it, which nests one deeper; an encrypted
payload is a flat string by then.
-/
namespace UmariPoisonEvents
open FallibleFolds UmariEventStore UmariStoredEvents UmariTransactions UmariModuleActor
open UmariSealedEvents UmariJsonCodec
variable {V : Type}

/-- Neither the actor's `deserialize_event` nor the parse in `transaction_next_batch`
    fails on the event, wherever it stands in the log. -/
structure Readable (codec : Codec V) (event : Event) : Prop where
  actor : ∀ position, ∃ stored, deserializeEvent codec (position, event) = .ok stored
  command : ∀ getKey position err,
    batchEntry codec getKey (position, event) ≠ .error (.deserializeEvent err)

theorem decrypt_other {codec : Codec V} {getKey : Uuid → Except String (Option CryptoKey)}
    {id : Uuid} {data : V} {keyId : Option Uuid} {err : String} :
    decryptEventData codec getKey id data keyId ≠ .error (.deserializeEvent err) := by
  unfold decryptEventData decryptEventDataBytes
  repeat' split
  all_goals simp

theorem refused_reads {codec : Codec V} {entry : Nat × Event} {err : String}
    (refused : codec.storedFromSlice entry.2.data = .error err) :
    deserializeEvent codec entry = .error (.deserializeEvent err) ∧
      ∀ getKey, batchEntry codec getKey entry = .error (.deserializeEvent err) := by
  constructor
  · simp [deserializeEvent, refused]
  · intro getKey
    simp [batchEntry, refused, Except.mapError, bind, Except.bind]

theorem readable_iff {codec : Codec V} {event : Event} :
    Readable codec event ↔ ∃ record, codec.storedFromSlice event.data = .ok record := by
  cases parsed : codec.storedFromSlice event.data with
  | error err =>
    constructor
    · intro readable
      obtain ⟨stored, read⟩ := readable.actor 0
      exact absurd ((@refused_reads V codec (0, event) err parsed).1.symm.trans read) (by simp)
    · intro found
      obtain ⟨record, same⟩ := found
      exact absurd same (by simp)
  | ok record =>
    constructor
    · exact fun _ => ⟨record, rfl⟩
    · intro _
      constructor
      · intro position
        simp [deserializeEvent, parsed]
      · intro getKey position err failed
        unfold batchEntry at failed
        simp only [parsed, Except.mapError, bind, Except.bind] at failed
        cases decrypted : decryptEventData codec getKey record.eventId record.data
            record.encryptionKeyId with
        | error other =>
          simp only [decrypted, Except.error.injEq] at failed
          exact decrypt_other (decrypted.trans (congrArg Except.error failed))
        | ok data => simp [decrypted, pure, Except.pure] at failed

section accepted
variable {codec : Codec V} {rules : NameRules} {reread : V → V} {nesting : V → Nat}
  {limit : Nat}

theorem stored_readable_iff (limited : Limited codec reread nesting limit)
    {envelope : EventEnvelope}
    {p : PendingEvent V} {key : Option (Uuid × CryptoKey)} {event : Event}
    (stored : StoredAs codec envelope p key event) :
    Readable codec event ↔ (p.encryptionScope = none → nesting p.data < limit) := by
  rw [readable_iff]
  cases stored with
  | plain _ unscoped written =>
    constructor
    · intro found _
      obtain ⟨record, parsed⟩ := found
      by_contra deep
      obtain ⟨stored, same, _, _, _, data⟩ :=
        envelope_record codec envelope p.eventId p.data none none
      obtain ⟨err, failed⟩ := limited.tooDeep stored (by rw [data]; exact Nat.not_lt.mp deep)
      rw [written, same, failed] at parsed
      exact absurd parsed (by simp)
    · intro shallow
      obtain ⟨record, parsed, _⟩ := stored_record limited.rereads (shallow unscoped) written
      exact ⟨record, parsed⟩
  | encrypted _ scope key ciphertext underScope encrypted written =>
    constructor
    · intro _ plain
      exact absurd (plain.symm.trans underScope) (by simp)
    · intro _
      obtain ⟨record, parsed, _⟩ :=
        stored_record limited.rereads (ciphertext_flat limited.rereads encrypted) written
      exact ⟨record, parsed⟩

/-- Every event a commit appended can be read exactly when each plain payload it accepted
    nests less deep than the parser goes. -/
theorem accepted_readable_iff (limited : Limited codec reread nesting limit)
    (keeps : KeepsData rules)
    {createKey : String → Except String (Uuid × CryptoKey)} {log batch : List Event}
    {transactions transactions' : Transactions} {tx : Nat} {events : List EmitEvent}
    {envelope : EventEnvelope} {done : Committed}
    (committed : transactionCommit codec rules createKey log transactions tx events envelope =
      (transactions', .ok done)) (appended : done.log = log ++ batch) :
    (∀ event ∈ batch, Readable codec event) ↔
      ∀ e ∈ events, e.encryptionScope = none → ∀ v, codec.fromStr e.data = .ok v →
        nesting v < limit := by
  have built := committed_batch committed appended
  obtain ⟨pending, parsed, encoded, _⟩ := batchToAppend_ok built
  have stored := dcbEvents_stored keeps (fun scope key found => absurd found (by simp)) encoded
  have pointwise : List.Forall₂ (fun e event => Readable codec event ↔
      (e.encryptionScope = none → ∀ v, codec.fromStr e.data = .ok v → nesting v < limit))
      events batch := by
    apply forall₂_through _ parsed stored
    intro e _ p event _ made kept
    obtain ⟨_, _, _, value, scope, _⟩ := pendingEvent_ok made
    have reads : Readable codec event ↔ (p.encryptionScope = none → nesting p.data < limit) :=
      kept.elim (fun plain => stored_readable_iff limited plain.2)
        (fun encrypted => by
          obtain ⟨_, _, _, _, encrypted⟩ := encrypted
          exact stored_readable_iff limited encrypted)
    rw [reads, scope]
    apply imp_congr_right
    intro _
    constructor
    · intro shallow v found
      rw [← Except.ok.inj (value.symm.trans found)]
      exact shallow
    · exact fun every => every p.data value
  exact (forall₂_all_iff pointwise).symm

end accepted

section sample

theorem adaCodec_limited : Limited adaCodec id nesting maxNesting :=
  jsonCodec_limited (by decide +kernel)

theorem shallow_batch_readable :
    adaBatch.length = 2 ∧ ∀ event ∈ adaBatch, Readable adaCodec event := by
  obtain ⟨_, _, committed, appended⟩ := adaCommit_done (askedFirst []) (by decide +kernel)
  constructor
  · rfl
  · exact (accepted_readable_iff adaCodec_limited plainNames_keep committed appended).mpr
      ada_shallow

theorem payload_appended {text : String} (parses : nesting text ≤ maxNesting) :
    (transactionCommit (jsonCodec [⟨4, 0, 2, 3, none, none, none, none, text⟩] [4] adaMessage)
        plainNames (askedFirst []).createKey [] openRead 0
        [⟨idText 4, "Registered", text, [], none⟩] adaEnvelope).2.toOption.map (·.log) =
      some [⟨"Registered", [], recordBytes ⟨4, 0, 2, 3, none, none, none, none, text⟩⟩] := by
  generalize named : jsonCodec [⟨4, 0, 2, 3, none, none, none, none, text⟩] [4] adaMessage = codec
  have id : codec.parseUuid (idText 4) = some 4 := by
    subst named
    simp [jsonCodec, idText]
  have value : codec.fromStr text = .ok text := by
    subst named
    exact if_pos parses
  have stored : codec.storedToVec ⟨4, 0, 2, 3, none, none, none, none, text⟩ =
      recordBytes ⟨4, 0, 2, 3, none, none, none, none, text⟩ := by
    subst named
    exact if_pos List.mem_cons_self
  have pending : pendingEvent codec plainNames ⟨idText 4, "Registered", text, [], none⟩ =
      .ok ⟨4, "Registered", [], text, none, ⟨4, "Registered", []⟩⟩ := by
    rw [pendingEvent]
    dsimp only
    rw [id, value]
    rfl
  have batch : batchToAppend codec plainNames (askedFirst []).createKey adaEnvelope
      [⟨idText 4, "Registered", text, [], none⟩] =
      .ok ([⟨"Registered", [], recordBytes ⟨4, 0, 2, 3, none, none, none, none, text⟩⟩],
        [⟨4, "Registered", []⟩]) := by
    rw [batchToAppend, List.mapM_cons, pending, ← stored]
    rfl
  have opened : openRead.find 0 = some ⟨.all, some ⟨[], 0⟩⟩ := rfl
  rw [transactionCommit, opened]
  dsimp only
  rw [batch]
  rfl

theorem record_refused {record : StoredEventData String} {ids : List Uuid} {message : Sealing}
    (deep : maxNesting ≤ nesting record.data) :
    (jsonCodec [record] ids message).storedFromSlice (recordBytes record) =
      .error "recursion limit exceeded" := by
  have stored : storedBytes [record] record = recordBytes record := if_pos List.mem_cons_self
  have single : ∀ a ∈ [record], ∀ b ∈ [record], recordBytes a = recordBytes b → a = b := by
    intro a first b second _
    rw [List.mem_singleton.mp first, List.mem_singleton.mp second]
  have parsed := parseRecord_stored single record
  rw [stored, if_neg (by omega)] at parsed
  dsimp only [jsonCodec]
  exact parsed

def deepText : String := String.ofList (List.replicate 127 '[' ++ List.replicate 127 ']')

def deepRecord : StoredEventData String := ⟨4, 0, 2, 3, none, none, none, none, deepText⟩

def deepCodec : Codec String := jsonCodec [deepRecord] [4] adaMessage

def deepEmit : EmitEvent := ⟨idText 4, "Registered", deepText, [], none⟩

def deepEvent : Event := ⟨"Registered", [], recordBytes deepRecord⟩

theorem deepText_nesting : nesting deepText = maxNesting :=
  calc nesting deepText
      = scan (List.replicate 127 '[' ++ List.replicate 127 ']') 0 false false :=
        congrArg (fun chars => scan chars 0 false false) String.toList_ofList
    _ = maxNesting := by decide +kernel

/-- The payload is accepted and appended; every parse of the record around it fails. -/
theorem deepest_payload_poisons :
    (transactionCommit deepCodec plainNames (askedFirst []).createKey [] openRead 0 [deepEmit]
        adaEnvelope).2.toOption.map (·.log) = some [deepEvent] ∧
      deserializeEvent deepCodec (0, deepEvent) =
        .error (.deserializeEvent "recursion limit exceeded") ∧
      batchEntry deepCodec (fun _ => .ok none) (0, deepEvent) =
        .error (.deserializeEvent "recursion limit exceeded") ∧
      ¬ Readable deepCodec deepEvent := by
  have refused : deepCodec.storedFromSlice deepEvent.data = .error "recursion limit exceeded" :=
    record_refused (ge_of_eq deepText_nesting)
  obtain ⟨actor, command⟩ := @refused_reads String deepCodec (0, deepEvent) _ refused
  constructor
  · exact payload_appended (le_of_eq deepText_nesting)
  constructor
  · exact actor
  constructor
  · exact command _
  · intro readable
    obtain ⟨stored, read⟩ := readable.actor 0
    exact absurd (actor.symm.trans read) (by simp)

end sample

end UmariPoisonEvents
