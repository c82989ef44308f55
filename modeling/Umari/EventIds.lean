import Umari.CommandRuns
import Umari.GuardedRuns
import Umari.NumberedLists

/-!
Identifiers and nonces over any number of guest executions. The host gives a command a
fresh causation id, and a guest may make contexts of its own, whose ids need not be new: a
command draws them from a random source that starts over in every execution. A context is
copied into as many runs as the guest likes. The index starts again at zero in each run, so
a context that two runs emit under gives both the same identifiers.
-/
namespace UmariEventIds
open FallibleFolds GuardedRuns NumberedLists UmariEventStore UmariStoredEvents UmariTransactions
open UmariFolds UmariSealedEvents UmariCommandRuns
variable {V : Type}

/-- A guest execution has the causation id the host gave it, if any, and those of the
    contexts it has made, until it traps. -/
structure Execution where
  given : Option Uuid
  made : List Uuid
  alive : Bool
deriving DecidableEq, Repr

def Execution.holds (execution : Execution) (causationId : Uuid) : Bool :=
  decide (execution.given = some causationId) || execution.made.contains causationId

structure Attempt (V : Type) where
  execution : Nat
  context : RunContext
  payloads : List V

structure Encryption (V : Type) where
  key : CryptoKey
  nonce : Nonce
  payload : V

structure System (V : Type) where
  log : List Event
  executions : List Execution
  attempts : List (Attempt V)
  appended : List Uuid
  encrypted : List (Encryption V)

/-- `start` carries the causation id of a command; an event handler is given none. -/
inductive Action (V : Type) where
  | append (events : List Event)
  | start (causationId : Option Uuid)
  | newContext (execution : Nat) (causationId : Uuid)
  | run (execution : Nat) (context : RunContext) (guest : Guest) (item : TransactionItem)
      (emit : List (EmitItem V)) (createKey : String → Except String (Uuid × CryptoKey))

def initial (log : List Event) : System V := ⟨log, [], [], [], []⟩

/-- Every encryption a commit may come to; an error leaves out those behind it. -/
def encryptions (createKey : String → Except String (Uuid × CryptoKey))
    (pending : List (PendingEvent V)) : List (Encryption V) :=
  pending.filterMap fun p => do
    let scope ← p.encryptionScope
    let key ← (createKey scope).toOption
    pure ⟨key.2, nonceOf p.eventId, p.data⟩

def fresh (s : System V) (causationId : Uuid) : Bool :=
  s.executions.all fun execution => decide (execution.given ≠ some causationId)

section step
variable (codec : Codec V) (rules : NameRules) (newV5 : List UInt8 → Uuid)

def pendingOf (context : RunContext) (emit : List (EmitItem V)) : List (PendingEvent V) :=
  ((emitEvents codec newV5 context emit).mapM (pendingEvent codec rules)).toOption.getD []

def recordAttempt (s : System V) (execution : Nat) (context : RunContext)
    (emit : List (EmitItem V)) (createKey : String → Except String (Uuid × CryptoKey)) : System V :=
  let pending := pendingOf codec rules newV5 context emit
  { s with
    attempts := if emit.isEmpty then s.attempts
      else s.attempts ++ [⟨execution, context, pending.map (·.data)⟩]
    encrypted := s.encrypted ++ encryptions createKey pending }

/-- The commit of a run, whatever its transaction has read; an error traps the guest. -/
def runStep (s : System V) (index : Nat) (execution : Execution) (context : RunContext)
    (guest : Guest) (item : TransactionItem) (emit : List (EmitItem V))
    (createKey : String → Except String (Uuid × CryptoKey)) : System V :=
  let after := recordAttempt codec rules newV5 s index context emit createKey
  match hostCommit codec rules createKey s.log [some item] 0 guest context
      (emitEvents codec newV5 context emit) with
  | (_, .error _) =>
    { after with
      executions := s.executions.set index { execution with alive := false } }
  | (_, .ok done) =>
    { after with
      log := done.log
      appended := s.appended ++ done.emitted.map (·.id) }

def step (s : System V) : Action V → Option (System V)
  | .append events => some { s with log := s.log ++ events }
  | .start causationId =>
    if causationId.all (fresh s) then
      some { s with executions := s.executions ++ [⟨causationId, [], true⟩] }
    else none
  | .newContext index causationId =>
    match s.executions[index]? with
    | none => none
    | some execution =>
      if execution.alive then
        some { s with
          executions := s.executions.set index
            { execution with made := causationId :: execution.made } }
      else none
  | .run index context guest item emit createKey =>
    match s.executions[index]? with
    | none => none
    | some execution =>
      if execution.alive && execution.holds context.causationId then
        some (runStep codec rules newV5 s index execution context guest item emit createKey)
      else none

end step

def sameContext (a b : RunContext) : Bool :=
  decide (a.correlationId = b.correlationId) && decide (a.causationId = b.causationId)

def hostGiven (s : System V) (execution : Nat) (context : RunContext) : Bool :=
  s.executions[execution]?.any fun e => decide (e.given = some context.causationId)

def hostApart (s : System V) (attempt : Attempt V) (execution : Nat) (context : RunContext) :
    Bool :=
  decide (attempt.execution ≠ execution) && hostGiven s attempt.execution attempt.context &&
    hostGiven s execution context

/-- A run that emits does so under a context that its execution has not emitted under, nor
    another one if either guest made it itself, and its indices fit into 32 bits. -/
def OncePerContext (s : System V) : Action V → Prop
  | .run index context _ _ emit _ => emit = [] ∨
      ((∀ attempt ∈ s.attempts, hostApart s attempt index context = false →
        sameContext attempt.context context = false) ∧ emit.length ≤ 2 ^ 32)
  | _ => True

/-- Distinct events have distinct identifiers, and a key meets a nonce with one payload. -/
structure Unique (s : System V) : Prop where
  ids : s.appended.Nodup
  nonces : ∀ a ∈ s.encrypted, ∀ b ∈ s.encrypted, a.key = b.key → a.nonce = b.nonce →
    a.payload = b.payload

def Action.idKeys : Action V → List (List UInt8)
  | .run _ context _ _ emit _ => (List.range emit.length).map (idKey context)
  | _ => []

section keys

theorem bigEndian_injective {k a b : Nat} (same : bigEndian k a = bigEndian k b) :
    a % 256 ^ k = b % 256 ^ k := by
  induction k generalizing a b with
  | zero => omega
  | succ k ih =>
    rw [bigEndian, bigEndian] at same
    obtain ⟨high, low⟩ := List.append_inj' same rfl
    have first := ih high
    have last : a % 256 = b % 256 := by
      have bytes := congrArg UInt8.toNat (List.cons.inj low).1
      simpa using bytes
    rw [Nat.pow_succ', Nat.mod_mul, Nat.mod_mul, first, last]

theorem bigEndian_length (k n : Nat) : (bigEndian k n).length = k := by
  induction k generalizing n with
  | zero => rfl
  | succ k ih => simp [bigEndian, ih]

theorem asBytes_injective {a b : Uuid} (same : asBytes a = asBytes b) : a = b := by
  have values := bigEndian_injective same
  have boundA := a.isLt
  have boundB := b.isLt
  apply BitVec.eq_of_toNat_eq
  omega

theorem idKey_injective {a b : RunContext} {i j : Nat} (same : idKey a i = idKey b j) :
    sameContext a b = true ∧ i % 2 ^ 32 = j % 2 ^ 32 := by
  have lengths : ∀ c : RunContext,
      (asBytes c.correlationId ++ asBytes c.causationId).length = 32 := by
    intro c
    simp [asBytes, bigEndian_length]
  obtain ⟨contexts, index⟩ := List.append_inj same (by rw [lengths, lengths])
  obtain ⟨correlation, causation⟩ := List.append_inj contexts (by simp [asBytes, bigEndian_length])
  constructor
  · simp [sameContext, asBytes_injective correlation, asBytes_injective causation]
  · exact bigEndian_injective index

end keys

section pending
variable {codec : Codec V} {rules : NameRules} {newV5 : List UInt8 → Uuid} {context : RunContext}

theorem pending_ids (uuids : KeepsUuids codec) {emit : List (EmitItem V)} {start : Nat}
    {pending : List (PendingEvent V)}
    (parsed : List.Forall₂ (fun e p => pendingEvent codec rules e = .ok p)
      ((emit.zipIdx start).map (emitEvent codec newV5 context)) pending) :
    pending.map (·.eventId) = (List.range' start emit.length).map fun i =>
      newV5 (idKey context i) := by
  induction emit generalizing start pending with
  | nil =>
    cases parsed
    rfl
  | cons item rest ih =>
    rw [List.zipIdx_cons, List.map_cons] at parsed
    obtain ⟨p, others, here, tail, rfl⟩ := List.forall₂_cons_left_iff.mp parsed
    have id : p.eventId = newV5 (idKey context start) := uuids _ _ (pendingEvent_ok here).id
    rw [List.map_cons, List.length_cons, List.range'_succ, List.map_cons, ih tail, id]

theorem pendingOf_ok {emit : List (EmitItem V)} {p : PendingEvent V}
    (member : p ∈ pendingOf codec rules newV5 context emit) :
    List.Forall₂ (fun e p => pendingEvent codec rules e = .ok p)
      (emitEvents codec newV5 context emit) (pendingOf codec rules newV5 context emit) := by
  unfold pendingOf at member ⊢
  cases built : (emitEvents codec newV5 context emit).mapM (pendingEvent codec rules) with
  | error err => simp [built, Except.toOption] at member
  | ok pending => exact mapM_ok.mp built

theorem pendingOf_at (uuids : KeepsUuids codec) {emit : List (EmitItem V)} {i : Nat}
    {p : PendingEvent V} (here : (pendingOf codec rules newV5 context emit)[i]? = some p) :
    i < emit.length ∧ p.eventId = newV5 (idKey context i) := by
  have parsed := pendingOf_ok (List.mem_of_getElem? here)
  have ids := pending_ids uuids parsed
  have at' := congrArg (fun ids => ids[i]?) ids
  simp only [List.getElem?_map, here, Option.map_some] at at'
  obtain ⟨k, found, same⟩ := Option.map_eq_some_iff.mp at'.symm
  obtain ⟨inside, value⟩ := List.getElem?_eq_some_iff.mp found
  rw [List.length_range'] at inside
  rw [List.getElem_range', Nat.zero_add, Nat.one_mul] at value
  exact ⟨inside, by rw [← same, value]⟩

theorem pendingOf_length {emit : List (EmitItem V)} :
    (pendingOf codec rules newV5 context emit).length ≤ emit.length := by
  unfold pendingOf
  cases built : (emitEvents codec newV5 context emit).mapM (pendingEvent codec rules) with
  | error err => exact Nat.zero_le _
  | ok pending =>
    have length := (mapM_ok.mp built).length_eq
    simp only [emitEvents, List.length_map, List.length_zipIdx] at length
    exact Nat.le_of_eq length.symm

theorem encryptions_at {createKey : String → Except String (Uuid × CryptoKey)}
    {pending : List (PendingEvent V)} {x : Encryption V}
    (member : x ∈ encryptions createKey pending) :
    ∃ (i : Nat) (p : PendingEvent V), pending[i]? = some p ∧ x.payload = p.data ∧
      x.nonce = nonceOf p.eventId := by
  obtain ⟨p, among, made⟩ := List.mem_filterMap.mp member
  obtain ⟨i, here⟩ := List.mem_iff_getElem?.mp among
  simp only [bind, Option.bind_eq_some_iff, pure, Option.some.injEq] at made
  obtain ⟨_, _, _, _, rfl⟩ := made
  exact ⟨i, p, here, rfl, rfl⟩

theorem committed_ids (uuids : KeepsUuids codec)
    {createKey : String → Except String (Uuid × CryptoKey)} {log : List Event}
    {transactions transactions' : Transactions} {tx : Nat} {guest : Guest}
    {emit : List (EmitItem V)} {done : Committed}
    (committed : hostCommit codec rules createKey log transactions tx guest context
      (emitEvents codec newV5 context emit) = (transactions', .ok done)) :
    done.emitted.map (·.id) = (List.range emit.length).map (fun i => newV5 (idKey context i)) ∧
      (pendingOf codec rules newV5 context emit).length = emit.length := by
  obtain ⟨batch, grown⟩ := hostCommit_grown committed
  obtain ⟨envelope, _, stored⟩ := hostCommit_ok committed
  obtain ⟨pending, parsed, _, emitted⟩ := batchToAppend_ok (committed_batch stored grown)
  have same : pendingOf codec rules newV5 context emit = pending := by
    rw [pendingOf, mapM_ok.mpr parsed]
    rfl
  have ids := pending_ids uuids parsed
  constructor
  · rw [emitted, List.map_map, List.range_eq_range', ← ids]
    apply List.map_congr_left
    intro p among
    obtain ⟨e, _, made⟩ := forall₂_exists_left parsed among
    exact congrArg EmittedEvent.id (pendingEvent_ok made).emitted
  · rw [same]
    simpa using congrArg List.length ids

end pending

section slots
variable {newV5 : List UInt8 → Uuid} {names : List (List UInt8)} {attempts : List (Attempt V)}

def Separates (newV5 : List UInt8 → Uuid) (names : List (List UInt8)) : Prop :=
  ∀ b ∈ names, ∀ c ∈ names, nonceOf (newV5 b) = nonceOf (newV5 c) → b = c

/-- No two attempts share a context, so no two payloads share a name. -/
structure Slots (names : List (List UInt8)) (attempts : List (Attempt V)) : Prop where
  apart : attempts.Pairwise fun a b => sameContext a.context b.context = false
  short : ∀ a ∈ attempts, a.payloads.length ≤ 2 ^ 32
  occurs : ∀ a ∈ attempts, ∀ i < a.payloads.length, idKey a.context i ∈ names

theorem sameContext_comm (a b : RunContext) : sameContext a b = sameContext b a := by
  simp [sameContext, eq_comm]

theorem slot_unique (separates : Separates newV5 names) (slots : Slots names attempts)
    {a b : Attempt V} (left : a ∈ attempts) (right : b ∈ attempts) {i j : Nat}
    (insideA : i < a.payloads.length) (insideB : j < b.payloads.length)
    (same : nonceOf (newV5 (idKey a.context i)) = nonceOf (newV5 (idKey b.context j))) :
    a = b ∧ i = j := by
  have name := separates _ (slots.occurs a left i insideA) _ (slots.occurs b right j insideB) same
  obtain ⟨context, index⟩ := idKey_injective name
  have symm : Std.Symm fun a b : Attempt V => sameContext a.context b.context = false :=
    ⟨fun a b different => (sameContext_comm b.context a.context).trans different⟩
  have equal : a = b := by
    by_contra different
    have apart := slots.apart.forall left right different
    exact absurd (context.symm.trans apart) (by simp)
  subst equal
  have short := slots.short a left
  exact ⟨rfl, by omega⟩

end slots

def Apart (given : List (Option Uuid)) : Prop :=
  ∀ (i j : Nat) (c : Uuid), given[i]? = some (some c) → given[j]? = some (some c) → i = j

def System.given (s : System V) : List (Option Uuid) := s.executions.map (·.given)

structure Inv (newV5 : List UInt8 → Uuid) (names : List (List UInt8)) (s : System V) : Prop where
  apart : Apart s.given
  slots : Slots names s.attempts
  ids : s.appended.Nodup
  appended : ∀ id ∈ s.appended, ∃ a ∈ s.attempts, ∃ i < a.payloads.length,
    id = newV5 (idKey a.context i)
  encrypted : ∀ x ∈ s.encrypted, ∃ a ∈ s.attempts, ∃ i : Nat,
    a.payloads[i]? = some x.payload ∧ x.nonce = nonceOf (newV5 (idKey a.context i))

section given
variable {given : List (Option Uuid)}

theorem fresh_iff {s : System V} {c : Uuid} : fresh s c = true ↔ some c ∉ s.given := by
  simp [fresh, System.given]

theorem hostGiven_iff {s : System V} {execution : Nat} {context : RunContext} :
    hostGiven s execution context = true ↔
      s.given[execution]? = some (some context.causationId) := by
  simp only [hostGiven, System.given, List.getElem?_map, Option.any_eq_true, decide_eq_true_eq,
    Option.map_eq_some_iff]

theorem apart_start (apart : Apart given) {causationId : Option Uuid}
    (new : ∀ c, causationId = some c → some c ∉ given) : Apart (given ++ [causationId]) := by
  intro i j c first second
  rcases entry_snoc.mp first with oldL | ⟨atI, madeL⟩
  · rcases entry_snoc.mp second with oldR | ⟨_, madeR⟩
    · exact apart i j c oldL oldR
    · exact absurd (List.mem_of_getElem? oldL) (new c madeR)
  · rcases entry_snoc.mp second with oldR | ⟨atJ, _⟩
    · exact absurd (List.mem_of_getElem? oldR) (new c madeL)
    · exact atI.trans atJ.symm

theorem given_set {s : System V} {index : Nat} {execution : Execution}
    (here : s.executions[index]? = some execution) (made : List Uuid) (alive : Bool) :
    (s.executions.set index ⟨execution.given, made, alive⟩).map (·.given) = s.given := by
  rw [List.map_set]
  apply List.ext_getElem?
  intro i
  by_cases at' : index = i
  · subst at'
    have inside : index < (s.executions.map (·.given)).length := by
      simpa using (List.getElem?_eq_some_iff.mp here).1
    rw [List.getElem?_set_self inside]
    simp [System.given, here]
  · rw [List.getElem?_set_ne at', System.given]

theorem sameContext_hostApart {s : System V} (apart : Apart s.given) {a : Attempt V} {index : Nat}
    {context : RunContext} (given : hostApart s a index context = true) :
    sameContext a.context context = false := by
  simp only [hostApart, Bool.and_eq_true, decide_eq_true_eq] at given
  obtain ⟨⟨different, left⟩, right⟩ := given
  by_contra shared
  have equal : a.context.causationId = context.causationId := by
    simp only [sameContext, Bool.not_eq_false, Bool.and_eq_true, decide_eq_true_eq] at shared
    exact shared.2
  have found := hostGiven_iff.mp right
  rw [← equal] at found
  exact different (apart _ _ _ (hostGiven_iff.mp left) found)

end given

section steps
variable {codec : Codec V} {rules : NameRules} {newV5 : List UInt8 → Uuid}
  {names : List (List UInt8)} {s t : System V}

theorem unique_of_inv (separates : Separates newV5 names) (inv : Inv newV5 names s) :
    Unique s where
  ids := inv.ids
  nonces := by
    intro x memberX y memberY _ same
    obtain ⟨a, left, i, hereX, nonceX⟩ := inv.encrypted x memberX
    obtain ⟨b, right, j, hereY, nonceY⟩ := inv.encrypted y memberY
    have insideX := (List.getElem?_eq_some_iff.mp hereX).1
    have insideY := (List.getElem?_eq_some_iff.mp hereY).1
    obtain ⟨rfl, rfl⟩ := slot_unique separates inv.slots left right insideX insideY
      (nonceX.symm.trans (same.trans nonceY))
    exact Option.some.inj (hereX.symm.trans hereY)

variable (rules) in
theorem inv_recorded (uuids : KeepsUuids codec) (inv : Inv newV5 names s) {index : Nat}
    {context : RunContext} {emit : List (EmitItem V)} (emits : emit ≠ [])
    (new : ∀ a ∈ s.attempts, hostApart s a index context = false →
      sameContext a.context context = false)
    (short : emit.length ≤ 2 ^ 32) (occurs : ∀ i < emit.length, idKey context i ∈ names)
    (createKey : String → Except String (Uuid × CryptoKey)) :
    let attempt : Attempt V :=
      ⟨index, context, (pendingOf codec rules newV5 context emit).map (·.data)⟩
    (recordAttempt codec rules newV5 s index context emit createKey).attempts =
      s.attempts ++ [attempt] ∧ (∀ a ∈ s.attempts, sameContext a.context context = false) ∧
      Inv newV5 names (recordAttempt codec rules newV5 s index context emit createKey) := by
  intro attempt
  have attempts : (recordAttempt codec rules newV5 s index context emit createKey).attempts =
      s.attempts ++ [attempt] := by
    simp [recordAttempt, emits, attempt]
  have length : attempt.payloads.length ≤ emit.length := by
    simpa [attempt] using pendingOf_length
  have other : ∀ a ∈ s.attempts, sameContext a.context context = false := by
    intro a member
    cases given : hostApart s a index context with
    | false => exact new a member given
    | true => exact sameContext_hostApart inv.apart given
  refine ⟨attempts, other, ?_⟩
  constructor
  · exact inv.apart
  · rw [attempts]
    constructor
    · apply List.pairwise_append.mpr
      refine ⟨inv.slots.apart, List.pairwise_singleton _ _, ?_⟩
      intro a member b added
      obtain rfl := List.mem_singleton.mp added
      exact other a member
    · intro a member
      rcases List.mem_append.mp member with old | added
      · exact inv.slots.short a old
      · obtain rfl := List.mem_singleton.mp added
        omega
    · intro a member i inside
      rcases List.mem_append.mp member with old | added
      · exact inv.slots.occurs a old i inside
      · obtain rfl := List.mem_singleton.mp added
        exact occurs i (by omega)
  · exact inv.ids
  · rw [attempts]
    intro id member
    obtain ⟨a, among, value⟩ := inv.appended id member
    exact ⟨a, List.mem_append_left _ among, value⟩
  · rw [attempts]
    intro x member
    rcases List.mem_append.mp member with old | added
    · obtain ⟨a, among, value⟩ := inv.encrypted x old
      exact ⟨a, List.mem_append_left _ among, value⟩
    · obtain ⟨i, p, found, payload, nonce⟩ := encryptions_at added
      refine ⟨attempt, List.mem_append_right _ List.mem_cons_self, i, ?_, ?_⟩
      · simp [attempt, found, payload]
      · rw [nonce, (pendingOf_at uuids found).2]

theorem inv_trapped (inv : Inv newV5 names s) {index : Nat} {execution : Execution}
    (here : s.executions[index]? = some execution) :
    Inv newV5 names { s with
      executions := s.executions.set index { execution with alive := false } } where
  apart := by
    show Apart ((s.executions.set index { execution with alive := false }).map (·.given))
    rw [given_set here]
    exact inv.apart
  slots := inv.slots
  ids := inv.ids
  appended := inv.appended
  encrypted := inv.encrypted

theorem inv_stored (separates : Separates newV5 names) (inv : Inv newV5 names s)
    {before : List (Attempt V)} {attempt : Attempt V} (attempts : s.attempts = before ++ [attempt])
    (earlier : ∀ id ∈ s.appended, ∃ a ∈ before, ∃ i < a.payloads.length,
      id = newV5 (idKey a.context i))
    (other : ∀ a ∈ before, sameContext a.context attempt.context = false) (log : List Event) :
    Inv newV5 names { s with
      log := log
      appended := s.appended ++
        (List.range attempt.payloads.length).map fun i => newV5 (idKey attempt.context i) } := by
  have last : attempt ∈ s.attempts := by
    rw [attempts]
    exact List.mem_append_right _ List.mem_cons_self
  constructor
  · exact inv.apart
  · exact inv.slots
  · apply List.nodup_append.mpr
    refine ⟨inv.ids, ?_, ?_⟩
    · apply List.Nodup.map_on _ List.nodup_range
      intro i insideI j insideJ same
      exact (slot_unique separates inv.slots last last (List.mem_range.mp insideI)
        (List.mem_range.mp insideJ) (congrArg nonceOf same)).2
    · intro id old new member equal
      obtain ⟨i, inside, rfl⟩ := List.mem_map.mp member
      obtain ⟨a, among, k, within, rfl⟩ := earlier id old
      have known : a ∈ s.attempts := by
        rw [attempts]
        exact List.mem_append_left _ among
      obtain ⟨rfl, _⟩ := slot_unique separates inv.slots known last within
        (List.mem_range.mp inside) (congrArg nonceOf equal)
      have apart := other a among
      simp [sameContext] at apart
  · intro id member
    rcases List.mem_append.mp member with old | added
    · exact inv.appended id old
    · obtain ⟨i, inside, rfl⟩ := List.mem_map.mp added
      exact ⟨attempt, last, i, List.mem_range.mp inside, rfl⟩
  · exact inv.encrypted

theorem inv_empty_run (uuids : KeepsUuids codec) (inv : Inv newV5 names s) {index : Nat}
    {execution : Execution} (here : s.executions[index]? = some execution) {context : RunContext}
    {guest : Guest} {item : TransactionItem}
    {createKey : String → Except String (Uuid × CryptoKey)} :
    Inv newV5 names
      (runStep codec rules newV5 s index execution context guest item [] createKey) := by
  have recorded : recordAttempt codec rules newV5 s index context [] createKey = s := by
    have none : pendingOf codec rules newV5 context ([] : List (EmitItem V)) = [] := rfl
    simp [recordAttempt, none, encryptions]
  unfold runStep
  rw [recorded]
  cases committed : hostCommit codec rules createKey s.log [some item] 0 guest context
      (emitEvents codec newV5 context []) with
  | mk left result =>
    cases result with
    | error err => exact inv_trapped inv here
    | ok done =>
      have ids := (committed_ids uuids committed).1
      simp only [ids, List.length_nil, List.range_zero, List.map_nil, List.append_nil]
      exact ⟨inv.apart, inv.slots, inv.ids, inv.appended, inv.encrypted⟩

theorem inv_run (uuids : KeepsUuids codec) (separates : Separates newV5 names)
    (inv : Inv newV5 names s) {index : Nat} {execution : Execution}
    (here : s.executions[index]? = some execution) {context : RunContext}
    {guest : Guest} {item : TransactionItem}
    {emit : List (EmitItem V)} {createKey : String → Except String (Uuid × CryptoKey)}
    (once : OncePerContext s (.run index context guest item emit createKey))
    (occurs : ∀ i < emit.length, idKey context i ∈ names) :
    Inv newV5 names
      (runStep codec rules newV5 s index execution context guest item emit createKey) := by
  by_cases emits : emit = []
  · subst emits
    exact inv_empty_run uuids inv here
  · obtain ⟨new, short⟩ := once.resolve_left emits
    obtain ⟨attempts, other, recorded⟩ :=
      inv_recorded rules uuids inv emits new short occurs createKey
    unfold runStep
    cases committed : hostCommit codec rules createKey s.log [some item] 0 guest context
        (emitEvents codec newV5 context emit) with
    | mk left result =>
      cases result with
      | error err => exact inv_trapped recorded here
      | ok done =>
        obtain ⟨ids, length⟩ := committed_ids uuids committed
        have stored := inv_stored separates recorded attempts inv.appended other done.log
        simp only [List.length_map, length] at stored
        simp only [ids]
        exact stored

theorem inv_step (uuids : KeepsUuids codec) (separates : Separates newV5 names) {a : Action V}
    (inv : Inv newV5 names s) (once : OncePerContext s a) (occurs : ∀ b ∈ a.idKeys, b ∈ names)
    (taken : step codec rules newV5 s a = some t) : Inv newV5 names t := by
  cases a with
  | append events =>
    obtain rfl := Option.some.inj taken
    exact ⟨inv.apart, inv.slots, inv.ids, inv.appended, inv.encrypted⟩
  | start causationId =>
    simp only [step] at taken
    split at taken
    · rename_i new
      obtain rfl := Option.some.inj taken
      refine ⟨?_, inv.slots, inv.ids, inv.appended, inv.encrypted⟩
      show Apart ((s.executions ++ [(⟨causationId, [], true⟩ : Execution)]).map (·.given))
      rw [List.map_append]
      apply apart_start inv.apart
      rintro c rfl
      exact fresh_iff.mp new
    · exact absurd taken (by simp)
  | newContext index causationId =>
    simp only [step] at taken
    cases here : s.executions[index]? with
    | none => simp [here] at taken
    | some execution =>
      simp only [here] at taken
      split at taken
      · obtain rfl := Option.some.inj taken
        refine ⟨?_, inv.slots, inv.ids, inv.appended, inv.encrypted⟩
        show Apart ((s.executions.set index
          { execution with made := causationId :: execution.made }).map (·.given))
        rw [given_set here]
        exact inv.apart
      · exact absurd taken (by simp)
  | run index context guest item emit createKey =>
    simp only [step] at taken
    cases here : s.executions[index]? with
    | none => simp [here] at taken
    | some execution =>
      simp only [here] at taken
      split at taken
      · obtain rfl := Option.some.inj taken
        apply inv_run uuids separates inv here once
        intro i inside
        exact occurs _ (List.mem_map.mpr ⟨i, List.mem_range.mpr inside, rfl⟩)
      · exact absurd taken (by simp)

end steps

theorem inv_initial (newV5 : List UInt8 → Uuid) (names : List (List UInt8)) (log : List Event) :
    Inv newV5 names (initial log : System V) where
  apart := fun i j c first => absurd first (by simp [initial, System.given])
  slots := ⟨List.Pairwise.nil, fun a member => absurd member List.not_mem_nil,
    fun a member => absurd member List.not_mem_nil⟩
  ids := List.nodup_nil
  appended := fun id member => absurd member List.not_mem_nil
  encrypted := fun x member => absurd member List.not_mem_nil

/-- As long as no execution emits twice under one context, none under a context that another
    emitted under and a guest made, and no run more events than 32 bits count, identifiers and
    nonces stay unique over all executions. -/
theorem ids_unique_once_per_context {codec : Codec V} {rules : NameRules}
    {newV5 : List UInt8 → Uuid} (uuids : KeepsUuids codec) {actions : List (Action V)}
    (separates : Separates newV5 (actions.flatMap Action.idKeys)) (log : List Event)
    (once : Meets (step codec rules newV5) OncePerContext (initial log) actions) :
    Always (step codec rules newV5) Unique (initial log) actions := by
  have occurs : ∀ a ∈ actions, ∀ b ∈ a.idKeys, b ∈ actions.flatMap Action.idKeys :=
    fun a member b key => List.mem_flatMap.mpr ⟨a, member, key⟩
  exact always_of_meets
    (fun inv met taken => inv_step uuids separates inv met.1 met.2 taken)
    (unique_of_inv separates) (inv_initial newV5 _ log) (meets_labelled occurs once)

section sample
open UmariJsonCodec UmariDcbQueries

instance {s : System V} {a : Action V} : Decidable (OncePerContext s a) :=
  match a with
  | .run .. => inferInstanceAs (Decidable (_ ∨ _))
  | .append _ => isTrue trivial
  | .start _ => isTrue trivial
  | .newContext _ _ => isTrue trivial

instance {newV5 : List UInt8 → Uuid} {names : List (List UInt8)} :
    Decidable (Separates newV5 names) := inferInstanceAs (Decidable (∀ b ∈ names, _))

/-- AES-256-GCM under the key 7 and the nonce of the first event of the first context. -/
def adaSealed : Sealing where
  key := 7
  nonce := 0xd8bee0eaf637579c82859370
  plaintext := [34, 97, 100, 97, 34]
  ciphertext := [0x6b, 0x5e, 0x10, 0xb0, 0xfd, 0x46, 0x11, 0x18, 0x7e, 0xc2, 0xf6, 0x80, 0x66, 0xf7,
    0x13, 0x3b, 0xd5, 0x0b, 0x6a, 0xba, 0x4a]

def bobSealed : Sealing where
  key := 7
  nonce := 0xd8bee0eaf637579c82859370
  plaintext := [34, 98, 111, 98, 34]
  ciphertext := [0x6b, 0x5d, 0x1b, 0xb3, 0xfd, 0xf1, 0xaa, 0xe9, 0x64, 0xc9, 0xc0, 0x86, 0x0c, 0x30,
    0x2c, 0x3b, 0xe5, 0xd0, 0x31, 0xbd, 0x6c]

def sealedRecord (ciphertext : String) : StoredEventData String :=
  ⟨0xd8bee0eaf637579c828593706e9e67d5, 0, 0x11111111111111111111111111111111, firstCausation, none,
    none, some "user:1", some 9, ciphertext⟩

def openRecord : StoredEventData String :=
  ⟨0x205f8c5e173d59949cc2fa45b2402a79, 0, 0x11111111111111111111111111111111, secondCausation,
    some 6, none, none, none, "\"ada\""⟩

def sealedCodec : Codec String :=
  { jsonCodec [sealedRecord "\"6b5e10b0fd4611187ec2f68066f7133bd50b6aba4a\"",
        sealedRecord "\"6b5d1bb3fdf1aae964c9c0860c302c3be5d031bd6c\"", openRecord]
      [0x11111111111111111111111111111111, firstCausation, secondCausation, 6,
        0xd8bee0eaf637579c828593706e9e67d5, 0x205f8c5e173d59949cc2fa45b2402a79] adaSealed with
    encrypt := fun key nonce plaintext =>
      if key = 7 ∧ nonce = adaSealed.nonce ∧ plaintext = adaSealed.plaintext then
        .ok adaSealed.ciphertext
      else if key = 7 ∧ nonce = bobSealed.nonce ∧ plaintext = bobSealed.plaintext then
        .ok bobSealed.ciphertext
      else .error "aead::Error" }

def nameEmit (name : String) (scope : Option String) : EmitItem String :=
  ⟨"Registered", "\"" ++ name ++ "\"", ⟨[], by decide⟩, scope⟩

def emitRun (execution : Nat) (causationId : Uuid) (guest : Guest) (emit : EmitItem String) :
    Action String :=
  .run execution (runContext causationId none) guest ⟨.items [], none⟩ [emit] fun _ => .ok (9, 7)

def twoContexts : List (Action String) :=
  [.start (some firstCausation), .start none, .newContext 1 secondCausation,
    emitRun 0 firstCausation (.command 0) (nameEmit "ada" (some "user:1")),
    emitRun 1 secondCausation (.eventHandler 0 6) (nameEmit "ada" none)]

theorem sealedCodec_uuids : KeepsUuids sealedCodec := by
  intro id found parsed
  dsimp only [sealedCodec] at parsed
  exact jsonCodec_uuid parsed

theorem two_contexts_unique :
    Always (step sealedCodec plainNames knownV5) Unique (initial []) twoContexts ∧
      (exec (step sealedCodec plainNames knownV5) (initial []) twoContexts).map (·.appended) =
        some [0xd8bee0eaf637579c828593706e9e67d5, 0x205f8c5e173d59949cc2fa45b2402a79] := by
  constructor
  · exact ids_unique_once_per_context sealedCodec_uuids (by decide +kernel) [] (by decide +kernel)
  · decide +kernel

def copiedContext : List (Action String) :=
  [.start (some firstCausation),
    emitRun 0 firstCausation (.command 0) (nameEmit "ada" (some "user:1")),
    emitRun 0 firstCausation (.command 0) (nameEmit "bob" (some "user:1"))]

/-- Both events have the same identifier, and both payloads were encrypted under the
    same key and nonce. -/
theorem copied_context_repeats_nonce :
    ¬ Always (step sealedCodec plainNames knownV5) Unique (initial []) copiedContext ∧
      (exec (step sealedCodec plainNames knownV5) (initial []) copiedContext).map
        (fun s => (s.appended, s.encrypted.map fun x => (x.key, x.nonce, x.payload))) =
          some ([0xd8bee0eaf637579c828593706e9e67d5, 0xd8bee0eaf637579c828593706e9e67d5],
            [(7, 0xd8bee0eaf637579c82859370, "\"ada\""),
              (7, 0xd8bee0eaf637579c82859370, "\"bob\"")]) := by
  have seen : (exec (step sealedCodec plainNames knownV5) (initial []) copiedContext).map
      (fun s => (s.appended, s.encrypted.map fun x => (x.key, x.nonce, x.payload))) =
        some ([0xd8bee0eaf637579c828593706e9e67d5, 0xd8bee0eaf637579c828593706e9e67d5],
          [(7, 0xd8bee0eaf637579c82859370, "\"ada\""),
            (7, 0xd8bee0eaf637579c82859370, "\"bob\"")]) := by decide +kernel
  constructor
  · intro always
    obtain ⟨final, run, fields⟩ := Option.map_eq_some_iff.mp seen
    have unique := always_iff_prefix.mp always _ final (List.prefix_refl _) run
    have ids := unique.ids
    rw [(Prod.mk.inj fields).1] at ids
    exact absurd ids (by decide)
  · exact seen

end sample

end UmariEventIds
