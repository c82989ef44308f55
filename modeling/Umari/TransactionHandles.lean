import Umari.FallibleFolds
import Umari.GuardedRuns
import Umari.KeyedMaps
import Umari.NumberedLists
import Umari.Transactions

/-!
The transactions of one component instance, as its guest holds them. A handle is found in
the resource table, the table names a slot, and the slot map has the transaction: dropping
a handle takes both away, committing takes the slot alone. A handle that is free may come
back for another transaction; a slot never does. The lists from `created` on record the
history of the slots; no call reads them.
-/
namespace UmariTransactionHandles
open GuardedRuns KeyedMaps NumberedLists PositionedLogs FallibleFolds
open UmariEventStore UmariStoredEvents UmariTransactions
variable {V : Type}

inductive HostError where
  | resource (message : String)
  | transaction (error : TransactionError)
deriving DecidableEq, Repr

/-- The call that made a slot: its query, the log it found and the snapshot it read. -/
structure Created where
  query : EventQuery
  log : List Event
  snapshot : Except String Nat

def Created.matching (rules : NameRules) (created : Created) : List (Nat × Event) :=
  match created.query.toQuery rules, created.snapshot with
  | .ok query, .ok head => readUpTo created.log query 0 head
  | _, _ => []

abbrev Batch := Except TransactionError (List WitStoredEvent)

structure Instance where
  log : List Event
  transactions : Transactions
  resources : KeyedMap Nat Nat
  emitted : List EmittedEvent
  created : List Created
  batches : List (Nat × Batch)
  attempted : List Nat
  dropped : List Nat

inductive Response where
  | handle (handle : Nat)
  | batch (events : List WitStoredEvent)
  | position (position : Option Nat)
  | done
  | failed (error : HostError)
deriving DecidableEq, Repr

inductive Call where
  | new (query : EventQuery) (snapshot : Except String Nat) (pushed : Except String Nat)
  | nextBatch (handle : Nat) (getKey : Nat → Uuid → Except String (Option CryptoKey))
  | commit (handle : Nat) (guest : Guest) (context : CommandContext) (events : List EmitEvent)
      (createKey : String → Except String (Uuid × CryptoKey))
  | drop (handle : Nat)
  | appended (events : List Event)

def initial (log : List Event) : Instance := ⟨log, [], ∅, [], [], [], [], []⟩

variable (codec : Codec V) (rules : NameRules)

/-- The slot is filled before the resource is pushed, and stays filled if the table is full.
    The table hands out any handle that is free. -/
def new (inst : Instance) (query : EventQuery) (snapshot pushed : Except String Nat) :
    Option (Instance × Response) :=
  match transactionNew rules inst.log inst.transactions query snapshot with
  | .error err => some (inst, .failed (.transaction err))
  | .ok (transactions, key) =>
    let inst := { inst with
      transactions := transactions
      created := inst.created ++ [⟨query, inst.log, snapshot⟩] }
    match pushed with
    | .error err => some (inst, .failed (.resource err))
    | .ok handle =>
      if (inst.resources.lookup handle).isSome then none
      else some ({ inst with resources := inst.resources.insert handle key }, .handle handle)

def notPresent : HostError := .resource "resource not present"

def nextBatch (inst : Instance) (handle : Nat)
    (getKey : Nat → Uuid → Except String (Option CryptoKey)) : Instance × Response :=
  match inst.resources.lookup handle with
  | none => (inst, .failed notPresent)
  | some key =>
    let (transactions, result) := transactionNextBatch codec getKey inst.transactions key
    let inst := { inst with
      transactions := transactions
      batches := if (inst.transactions.find key).isSome then inst.batches ++ [(key, result)]
        else inst.batches }
    match result with
    | .error err => (inst, .failed (.transaction err))
    | .ok events => (inst, .batch events)

/-- Only a command keeps what it emitted. -/
def keepEmitted (guest : Guest) (emitted more : List EmittedEvent) : List EmittedEvent :=
  match guest with
  | .command _ => emitted ++ more
  | .eventHandler _ _ => emitted

/-- A context that cannot be read ends the call before the transaction is looked up. -/
def commit (inst : Instance) (handle : Nat) (guest : Guest) (context : CommandContext)
    (events : List EmitEvent) (createKey : String → Except String (Uuid × CryptoKey)) :
    Instance × Response :=
  match envelopeOf codec guest context with
  | .error err => (inst, .failed (.transaction err))
  | .ok envelope =>
    match inst.resources.lookup handle with
    | none => (inst, .failed notPresent)
    | some key =>
      let (transactions, result) :=
        transactionCommit codec rules createKey inst.log inst.transactions key events envelope
      let inst := { inst with
        transactions := transactions
        attempted := if (inst.transactions.find key).isSome then inst.attempted ++ [key]
          else inst.attempted }
      match result with
      | .error err => (inst, .failed (.transaction err))
      | .ok done => ({ inst with
          log := done.log
          emitted := keepEmitted guest inst.emitted done.emitted }, .position done.position)

def drop (inst : Instance) (handle : Nat) : Instance × Response :=
  match inst.resources.lookup handle with
  | none => (inst, .failed notPresent)
  | some key => ({ inst with
      resources := inst.resources.erase handle
      transactions := transactionDrop inst.transactions key
      dropped := inst.dropped ++ [key] }, .done)

/-- `appended` stands for what others write to the store in between. -/
def call (inst : Instance) : Call → Option (Instance × Response)
  | .new query snapshot pushed => new rules inst query snapshot pushed
  | .nextBatch handle getKey => some (nextBatch codec inst handle getKey)
  | .commit handle guest context events createKey =>
    some (commit codec rules inst handle guest context events createKey)
  | .drop handle => some (drop inst handle)
  | .appended events => some ({ inst with log := inst.log ++ events }, .done)

def step (inst : Instance) (label : Call) : Option Instance :=
  (call codec rules inst label).map Prod.fst

/-- A batch as it is decoded with the keys that were there at the time. -/
def decoded (getKey : Nat → Uuid → Except String (Option CryptoKey)) (read : List (Nat × Event)) :
    Batch :=
  read.mapM fun entry => batchEntry codec (getKey entry.1) entry

/-- What a call can do, up to the log and to what was emitted. -/
inductive Moved (inst : Instance) : Instance → Prop where
  | kept (log : List Event) (emitted : List EmittedEvent) :
      Moved inst { inst with log := log, emitted := emitted }
  | leaked {query : EventQuery} {snapshot : Except String Nat} {transactions : Transactions}
      {key : Nat}
      (made : transactionNew rules inst.log inst.transactions query snapshot =
        .ok (transactions, key)) :
      Moved inst { inst with
        transactions := transactions
        created := inst.created ++ [⟨query, inst.log, snapshot⟩] }
  | created {query : EventQuery} {snapshot : Except String Nat} {transactions : Transactions}
      {key handle : Nat}
      (made : transactionNew rules inst.log inst.transactions query snapshot =
        .ok (transactions, key))
      (free : inst.resources.lookup handle = none) :
      Moved inst { inst with
        transactions := transactions
        created := inst.created ++ [⟨query, inst.log, snapshot⟩]
        resources := inst.resources.insert handle key }
  | readNothing {key : Nat} {item : TransactionItem}
      (found : inst.transactions.find key = some item) (unread : item.read = none) :
      Moved inst { inst with batches := inst.batches ++ [(key, .ok [])] }
  | handedOut {key : Nat} {item : TransactionItem} {pinned : CommandRead}
      (getKey : Nat → Uuid → Except String (Option CryptoKey))
      (found : inst.transactions.find key = some item) (read : item.read = some pinned) :
      Moved inst { inst with
        transactions := inst.transactions.set key
          (some { item with read := some { pinned with events := [] } })
        batches := inst.batches ++ [(key, decoded codec getKey pinned.events)] }
  | attempted {key : Nat} {item : TransactionItem} (log : List Event)
      (emitted : List EmittedEvent) (found : inst.transactions.find key = some item) :
      Moved inst { inst with
        transactions := transactionDrop inst.transactions key
        attempted := inst.attempted ++ [key]
        log := log
        emitted := emitted }
  | dropped {handle key : Nat} (held : inst.resources.lookup handle = some key) :
      Moved inst { inst with
        resources := inst.resources.erase handle
        transactions := transactionDrop inst.transactions key
        dropped := inst.dropped ++ [key] }

variable {codec rules} {inst next : Instance} {response : Response}

theorem new_moved {query : EventQuery} {snapshot pushed : Except String Nat}
    (called : new rules inst query snapshot pushed = some (next, response)) :
    Moved codec rules inst next := by
  unfold new at called
  cases made : transactionNew rules inst.log inst.transactions query snapshot with
  | error err =>
    simp only [made, Option.some.injEq, Prod.mk.injEq] at called
    obtain ⟨rfl, _⟩ := called
    exact Moved.kept inst.log inst.emitted
  | ok result =>
    obtain ⟨transactions, key⟩ := result
    cases pushed with
    | error err =>
      simp only [made, Option.some.injEq, Prod.mk.injEq] at called
      obtain ⟨rfl, _⟩ := called
      exact Moved.leaked made
    | ok handle =>
      simp only [made] at called
      cases held : inst.resources.lookup handle with
      | some other => simp [held] at called
      | none =>
        simp only [held, Option.isSome_none, Bool.false_eq_true, ↓reduceIte, Option.some.injEq,
          Prod.mk.injEq] at called
        obtain ⟨rfl, _⟩ := called
        exact Moved.created made held

theorem nextBatch_dead {handle : Nat} {getKey : Nat → Uuid → Except String (Option CryptoKey)}
    (dead : ∀ key, inst.resources.lookup handle = some key →
      inst.transactions.find key = none) :
    ∃ err, nextBatch codec inst handle getKey = (inst, .failed err) := by
  unfold nextBatch
  cases held : inst.resources.lookup handle with
  | none => exact ⟨notPresent, rfl⟩
  | some key =>
    have gone := dead key held
    refine ⟨.transaction .missing, ?_⟩
    simp [transactionNextBatch, gone]

theorem nextBatch_moved {handle : Nat}
    {getKey : Nat → Uuid → Except String (Option CryptoKey)}
    (called : nextBatch codec inst handle getKey = (next, response)) :
    Moved codec rules inst next := by
  cases held : inst.resources.lookup handle with
  | none =>
    simp only [nextBatch, held, Prod.mk.injEq] at called
    obtain ⟨rfl, _⟩ := called
    exact Moved.kept inst.log inst.emitted
  | some key =>
    cases found : inst.transactions.find key with
    | none =>
      simp only [nextBatch, held, transactionNextBatch, found, Prod.mk.injEq] at called
      obtain ⟨rfl, _⟩ := called
      exact Moved.kept inst.log inst.emitted
    | some item =>
      cases read : item.read with
      | none =>
        simp only [nextBatch, held, transactionNextBatch_unread found read, found,
          Option.isSome_some, ↓reduceIte, Prod.mk.injEq] at called
        obtain ⟨rfl, _⟩ := called
        exact Moved.readNothing found read
      | some pinned =>
        have moved : Moved codec rules inst _ := Moved.handedOut getKey found read
        simp only [nextBatch, held, transactionNextBatch_pinned found read, found,
          Option.isSome_some, ↓reduceIte] at called
        unfold decoded at moved
        cases result : pinned.events.mapM fun entry => batchEntry codec (getKey entry.1) entry with
        | error err =>
          rw [result] at called moved
          rw [← (Prod.mk.inj called).1]
          exact moved
        | ok events =>
          rw [result] at called moved
          rw [← (Prod.mk.inj called).1]
          exact moved

theorem commit_dead {handle : Nat} {guest : Guest} {context : CommandContext}
    {events : List EmitEvent} {createKey : String → Except String (Uuid × CryptoKey)}
    (dead : ∀ key, inst.resources.lookup handle = some key →
      inst.transactions.find key = none) :
    ∃ err, commit codec rules inst handle guest context events createKey =
      (inst, .failed err) := by
  unfold commit
  cases read : envelopeOf codec guest context with
  | error err => exact ⟨.transaction err, rfl⟩
  | ok envelope =>
    cases held : inst.resources.lookup handle with
    | none => exact ⟨notPresent, rfl⟩
    | some key =>
      have gone := dead key held
      refine ⟨.transaction .missing, ?_⟩
      simp [transactionCommit, gone]

theorem commit_moved {handle : Nat} {guest : Guest} {context : CommandContext}
    {events : List EmitEvent} {createKey : String → Except String (Uuid × CryptoKey)}
    (called : commit codec rules inst handle guest context events createKey =
      (next, response)) :
    next = inst ∨ ∃ key item log emitted, inst.resources.lookup handle = some key ∧
      inst.transactions.find key = some item ∧
      next = { inst with
        transactions := transactionDrop inst.transactions key
        attempted := inst.attempted ++ [key]
        log := log
        emitted := emitted } := by
  cases read : envelopeOf codec guest context with
  | error err =>
    simp only [commit, read, Prod.mk.injEq] at called
    exact Or.inl called.1.symm
  | ok envelope =>
    cases held : inst.resources.lookup handle with
    | none =>
      simp only [commit, read, held, Prod.mk.injEq] at called
      exact Or.inl called.1.symm
    | some key =>
      cases found : inst.transactions.find key with
      | none =>
        simp only [commit, read, held, transactionCommit, found, Prod.mk.injEq] at called
        exact Or.inl called.1.symm
      | some item =>
        refine Or.inr ⟨key, item, ?_⟩
        cases ended : transactionCommit codec rules createKey inst.log inst.transactions key
          events envelope with
        | mk transactions result =>
          have removed : transactions = transactionDrop inst.transactions key := by
            rw [transactionCommit, found] at ended
            exact (Prod.mk.inj ended).1.symm
          subst removed
          cases result with
          | error err =>
            simp only [commit, read, held, ended, found, Option.isSome_some, ↓reduceIte,
              Prod.mk.injEq] at called
            exact ⟨inst.log, inst.emitted, rfl, found, called.1.symm⟩
          | ok committed =>
            simp only [commit, read, held, ended, found, Option.isSome_some, ↓reduceIte,
              Prod.mk.injEq] at called
            exact ⟨committed.log, keepEmitted guest inst.emitted committed.emitted, rfl, found,
              called.1.symm⟩

theorem drop_moved {handle : Nat} (called : drop inst handle = (next, response)) :
    Moved codec rules inst next := by
  cases held : inst.resources.lookup handle with
  | none =>
    simp only [drop, held, Prod.mk.injEq] at called
    obtain ⟨rfl, _⟩ := called
    exact Moved.kept inst.log inst.emitted
  | some key =>
    simp only [drop, held, Prod.mk.injEq] at called
    obtain ⟨rfl, _⟩ := called
    exact Moved.dropped held

theorem step_moved {label : Call} (taken : step codec rules inst label = some next) :
    Moved codec rules inst next := by
  obtain ⟨⟨after, response⟩, called, rfl⟩ := Option.map_eq_some_iff.mp taken
  cases label with
  | new query snapshot pushed => exact new_moved called
  | nextBatch handle getKey => exact nextBatch_moved (Option.some.inj called)
  | commit handle guest context events createKey =>
    rcases commit_moved (Option.some.inj called) with
      rfl | ⟨key, item, log, emitted, _, found, same⟩
    · exact Moved.kept _ _
    · dsimp only at same ⊢
      rw [same]
      exact Moved.attempted log emitted found
  | drop handle => exact drop_moved (Option.some.inj called)
  | appended events =>
    obtain ⟨rfl, _⟩ := Prod.mk.inj (Option.some.inj called)
    exact Moved.kept (inst.log ++ events) inst.emitted

section lifecycle

def batchesOf (inst : Instance) (n : Nat) : List Batch :=
  (inst.batches.filter fun entry => entry.1 == n).map Prod.snd

theorem batchesOf_snoc (batches : List (Nat × Batch)) (key : Nat) (result : Batch) (n : Nat) :
    ((batches ++ [(key, result)]).filter fun entry => entry.1 == n).map Prod.snd =
      ((batches.filter fun entry => entry.1 == n).map Prod.snd) ++
        if key = n then [result] else [] := by
  by_cases same : key = n
  · simp [same]
  · simp [same]

inductive HandsOut (codec : Codec V) (read : List (Nat × Event)) : List Batch → Prop where
  | untaken : HandsOut codec read []
  | taken (getKey : Nat → Uuid → Except String (Option CryptoKey)) (rest : List Batch)
      (empty : ∀ result ∈ rest, result = .ok []) :
      HandsOut codec read (decoded codec getKey read :: rest)

structure LeftOver (read : List (Nat × Event)) (results : List Batch)
    (item : TransactionItem) : Prop where
  unread : item.read = none → read = []
  untaken : ∀ pinned, item.read = some pinned → results = [] → pinned.events = read
  taken : ∀ pinned, item.read = some pinned → results ≠ [] → pinned.events = []

structure Kept (codec : Codec V) (rules : NameRules) (inst : Instance) : Prop where
  slots : inst.transactions.length = inst.created.length
  found : ∀ n item, inst.transactions.find n = some item →
    n ∉ inst.attempted ∧ n ∉ inst.dropped
  live : ∀ n, n < inst.created.length → n ∉ inst.attempted → n ∉ inst.dropped →
    ∃ item, inst.transactions.find n = some item
  attempted : ∀ n ∈ inst.attempted, n < inst.created.length
  once : inst.attempted.Nodup
  dropped : ∀ n ∈ inst.dropped, n < inst.created.length
  handles : ∀ handle n, inst.resources.lookup handle = some n →
    n < inst.created.length ∧ n ∉ inst.dropped
  apart : ∀ handle other n, inst.resources.lookup handle = some n →
    inst.resources.lookup other = some n → handle = other
  recorded : ∀ entry ∈ inst.batches, entry.1 < inst.created.length
  handsOut : ∀ (n : Nat) created, inst.created[n]? = some created →
    HandsOut codec (created.matching rules) (batchesOf inst n)
  leftOver : ∀ (n : Nat) created item, inst.created[n]? = some created →
    inst.transactions.find n = some item →
    LeftOver (created.matching rules) (batchesOf inst n) item

theorem initial_kept (log : List Event) : Kept codec rules (initial log) where
  slots := rfl
  found := nofun
  live := nofun
  attempted := nofun
  once := List.nodup_nil
  dropped := nofun
  handles := nofun
  apart := nofun
  recorded := nofun
  handsOut := nofun
  leftOver := nofun

theorem kept_log (kept : Kept codec rules inst) (log : List Event)
    (emitted : List EmittedEvent) :
    Kept codec rules { inst with log := log, emitted := emitted } :=
  ⟨kept.slots, kept.found, kept.live, kept.attempted, kept.once, kept.dropped, kept.handles,
    kept.apart, kept.recorded, kept.handsOut, kept.leftOver⟩

theorem matching_empty (log : List Event) (head : Nat) {query : Query}
    (empty : queryIsEmpty query = true) : readUpTo log query 0 head = [] := by
  unfold queryIsEmpty at empty
  split at empty
  · rw [readUpTo, List.eq_nil_iff_forall_not_mem]
    intro entry member
    obtain ⟨_, _, _, kept⟩ := mem_window.mp member
    exact absurd kept (by simp [Query.matches])
  · exact absurd empty Bool.false_ne_true

theorem new_leftOver {log : List Event} {transactions after : Transactions}
    {query : EventQuery} {snapshot : Except String Nat} {key : Nat}
    (made : transactionNew rules log transactions query snapshot = .ok (after, key)) :
    ∃ item, after = transactions ++ [some item] ∧ key = transactions.length ∧
      LeftOver (Created.matching rules ⟨query, log, snapshot⟩) [] item := by
  obtain ⟨item, grown, last, converted, unread, pinned⟩ := transactionNew_ok made
  refine ⟨item, grown, last, ?_, ?_, ?_⟩
  · intro none
    simp only [Created.matching, converted]
    cases snapshot with
    | error err => rfl
    | ok head => exact matching_empty log head (unread none)
  · intro read found _
    obtain ⟨same, events⟩ := pinned read found
    simp only [Created.matching, converted, same, events]
  · exact fun _ _ nonempty => absurd rfl nonempty

theorem batchesOf_new (kept : Kept codec rules inst) :
    batchesOf inst inst.created.length = [] := by
  simp only [batchesOf, List.map_eq_nil_iff, List.filter_eq_nil_iff, beq_iff_eq]
  intro entry member
  have below := kept.recorded entry member
  omega

theorem leaked_kept (kept : Kept codec rules inst) {query : EventQuery}
    {snapshot : Except String Nat} {transactions : Transactions} {key : Nat}
    (made : transactionNew rules inst.log inst.transactions query snapshot =
      .ok (transactions, key)) :
    key = inst.created.length ∧ Kept codec rules { inst with
      transactions := transactions
      created := inst.created ++ [⟨query, inst.log, snapshot⟩] } := by
  obtain ⟨item, rfl, rfl, left⟩ := new_leftOver made
  have grown : (inst.created ++ [Created.mk query inst.log snapshot]).length =
      inst.created.length + 1 := List.length_append
  have old : ∀ n, n < inst.created.length →
      Transactions.find (inst.transactions ++ [some item]) n = inst.transactions.find n := by
    intro n below
    exact find_append_left (by rw [kept.slots]; exact below)
  have last : Transactions.find (inst.transactions ++ [some item]) inst.created.length =
      some item := by
    rw [← kept.slots]
    exact find_append_new
  have bound : ∀ n found, Transactions.find (inst.transactions ++ [some item]) n = some found →
      n < inst.created.length ∨ n = inst.created.length := by
    intro n found here
    have below := find_lt here
    rw [List.length_append, kept.slots, List.length_singleton] at below
    omega
  refine ⟨kept.slots, ?_⟩
  constructor
  · rw [List.length_append, grown, kept.slots]
    rfl
  · intro n found here
    rcases bound n found here with below | rfl
    · exact kept.found n found ((old n below).symm.trans here)
    · constructor
      · exact fun member => absurd (kept.attempted _ member) (Nat.lt_irrefl _)
      · exact fun member => absurd (kept.dropped _ member) (Nat.lt_irrefl _)
  · intro n below unattempted undropped
    rw [grown] at below
    rcases Nat.lt_succ_iff_lt_or_eq.mp below with before | rfl
    · obtain ⟨found, here⟩ := kept.live n before unattempted undropped
      exact ⟨found, (old n before).trans here⟩
    · exact ⟨item, last⟩
  · intro n member
    rw [grown]
    exact Nat.lt_succ_of_lt (kept.attempted n member)
  · exact kept.once
  · intro n member
    rw [grown]
    exact Nat.lt_succ_of_lt (kept.dropped n member)
  · intro handle n held
    obtain ⟨below, undropped⟩ := kept.handles handle n held
    rw [grown]
    exact ⟨Nat.lt_succ_of_lt below, undropped⟩
  · exact kept.apart
  · intro entry member
    rw [grown]
    exact Nat.lt_succ_of_lt (kept.recorded entry member)
  · intro n created here
    rcases entry_snoc.mp here with before | ⟨rfl, rfl⟩
    · exact kept.handsOut n created before
    · show HandsOut codec _ (batchesOf inst inst.created.length)
      rw [batchesOf_new kept]
      exact HandsOut.untaken
  · intro n created found here there
    rcases entry_snoc.mp here with before | ⟨rfl, rfl⟩
    · exact kept.leftOver n created found before
        ((old n (entry_lt before)).symm.trans there)
    · obtain rfl := Option.some.inj (last.symm.trans there)
      show LeftOver _ (batchesOf inst inst.created.length) item
      rw [batchesOf_new kept]
      exact left

theorem held_kept (kept : Kept codec rules inst) {handle key : Nat}
    (free : inst.resources.lookup handle = none) (below : key < inst.created.length)
    (undropped : key ∉ inst.dropped)
    (alone : ∀ other, inst.resources.lookup other ≠ some key) :
    Kept codec rules { inst with resources := inst.resources.insert handle key } := by
  refine ⟨kept.slots, kept.found, kept.live, kept.attempted, kept.once, kept.dropped, ?_, ?_,
    kept.recorded, kept.handsOut, kept.leftOver⟩
  · intro other n held
    rcases lookup_insert_some.mp held with ⟨rfl, rfl⟩ | ⟨_, old⟩
    · exact ⟨below, undropped⟩
    · exact kept.handles other n old
  · intro one other n first second
    rcases lookup_insert_some.mp first with ⟨rfl, rfl⟩ | ⟨_, old⟩
    · rcases lookup_insert_some.mp second with ⟨rfl, _⟩ | ⟨_, also⟩
      · rfl
      · exact absurd also (alone other)
    · rcases lookup_insert_some.mp second with ⟨rfl, rfl⟩ | ⟨_, also⟩
      · exact absurd old (alone one)
      · exact kept.apart one other n old also

theorem batched_kept (kept : Kept codec rules inst) {key : Nat} {item item' : TransactionItem}
    {result : Batch} (found : inst.transactions.find key = some item)
    (stays : ∀ created : Created, LeftOver (created.matching rules) (batchesOf inst key) item →
      HandsOut codec (created.matching rules) (batchesOf inst key) →
      HandsOut codec (created.matching rules) (batchesOf inst key ++ [result]) ∧
        LeftOver (created.matching rules) (batchesOf inst key ++ [result]) item') :
    Kept codec rules { inst with
      transactions := inst.transactions.set key (some item')
      batches := inst.batches ++ [(key, result)] } := by
  have below := find_lt found
  have here : Transactions.find (inst.transactions.set key (some item')) key = some item' :=
    find_set_self below
  have other : ∀ n, n ≠ key → Transactions.find (inst.transactions.set key (some item')) n =
      inst.transactions.find n := fun n different => find_set_other (Ne.symm different)
  have grown : ∀ n, batchesOf { inst with
      transactions := inst.transactions.set key (some item')
      batches := inst.batches ++ [(key, result)] } n =
        batchesOf inst n ++ if key = n then [result] else [] := by
    intro n
    exact batchesOf_snoc inst.batches key result n
  constructor
  · rw [List.length_set]
    exact kept.slots
  · intro n held there
    by_cases same : n = key
    · subst same
      exact kept.found n item found
    · exact kept.found n held ((other n same).symm.trans there)
  · intro n inside unattempted undropped
    by_cases same : n = key
    · subst same
      exact ⟨item', here⟩
    · obtain ⟨held, there⟩ := kept.live n inside unattempted undropped
      exact ⟨held, (other n same).trans there⟩
  · exact kept.attempted
  · exact kept.once
  · exact kept.dropped
  · exact kept.handles
  · exact kept.apart
  · intro entry member
    rcases List.mem_append.mp member with old | new
    · exact kept.recorded entry old
    · rw [List.mem_singleton.mp new, ← kept.slots]
      exact below
  · intro n created made
    rw [grown]
    by_cases same : key = n
    · subst same
      rw [if_pos rfl]
      exact (stays created (kept.leftOver key created item made found)
        (kept.handsOut key created made)).1
    · rw [if_neg same, List.append_nil]
      exact kept.handsOut n created made
  · intro n created held made there
    rw [grown]
    by_cases same : key = n
    · subst same
      obtain rfl := Option.some.inj (here.symm.trans there)
      rw [if_pos rfl]
      exact (stays created (kept.leftOver key created item made found)
        (kept.handsOut key created made)).2
    · rw [if_neg same, List.append_nil]
      exact kept.leftOver n created held made ((other n (Ne.symm same)).symm.trans there)

theorem handsOut_snoc {read : List (Nat × Event)} {results : List Batch}
    (handsOut : HandsOut codec read results)
    (getKey : Nat → Uuid → Except String (Option CryptoKey)) {rest : List (Nat × Event)}
    (untaken : results = [] → rest = read) (taken : results ≠ [] → rest = []) :
    HandsOut codec read (results ++ [decoded codec getKey rest]) := by
  cases handsOut with
  | untaken =>
    rw [untaken rfl]
    exact HandsOut.taken getKey [] nofun
  | taken first others empty =>
    rw [taken (List.cons_ne_nil _ _), List.cons_append]
    apply HandsOut.taken
    intro result member
    rcases List.mem_append.mp member with old | new
    · exact empty result old
    · rw [List.mem_singleton.mp new]
      rfl

theorem readNothing_kept (kept : Kept codec rules inst) {key : Nat} {item : TransactionItem}
    (found : inst.transactions.find key = some item) (unread : item.read = none) :
    Kept codec rules { inst with batches := inst.batches ++ [(key, .ok [])] } := by
  have below := find_lt found
  have same : inst.transactions.set key (some item) = inst.transactions := by
    apply List.ext_getElem?
    intro n
    by_cases here : key = n
    · subst here
      rw [List.getElem?_set_self below]
      have slot := found
      rw [Transactions.find, List.getElem?_eq_getElem below, Option.join_some] at slot
      rw [List.getElem?_eq_getElem below, slot]
    · rw [List.getElem?_set_ne here]
  have batched : Kept codec rules { inst with
      transactions := inst.transactions.set key (some item)
      batches := inst.batches ++ [(key, .ok [])] } := by
    apply batched_kept kept found
    intro created left handsOut
    constructor
    · have empty := left.unread unread
      exact handsOut_snoc handsOut (fun _ _ => .ok none) (fun _ => empty.symm) (fun _ => rfl)
    · constructor
      · exact left.unread
      · intro pinned read
        exact absurd (unread.symm.trans read) (by simp)
      · intro pinned read
        exact absurd (unread.symm.trans read) (by simp)
  rw [same] at batched
  exact batched

theorem handedOut_kept (kept : Kept codec rules inst) {key : Nat} {item : TransactionItem}
    {pinned : CommandRead} (getKey : Nat → Uuid → Except String (Option CryptoKey))
    (found : inst.transactions.find key = some item) (read : item.read = some pinned) :
    Kept codec rules { inst with
      transactions := inst.transactions.set key
        (some { item with read := some { pinned with events := [] } })
      batches := inst.batches ++ [(key, decoded codec getKey pinned.events)] } := by
  apply batched_kept kept found
  intro created left handsOut
  constructor
  · exact handsOut_snoc handsOut getKey (left.untaken pinned read) (left.taken pinned read)
  · constructor
    · exact fun none => nomatch none
    · exact fun _ _ empty => absurd empty (by simp)
    · intro after same _
      rw [← Option.some.inj same]

theorem removed_find {key n : Nat} {item : TransactionItem} :
    Transactions.find (transactionDrop inst.transactions key) n = some item ↔
      key ≠ n ∧ inst.transactions.find n = some item := by
  constructor
  · exact find_drop
  · intro h
    obtain ⟨different, found⟩ := h
    rw [transactionDrop, find_set_other different]
    exact found

theorem not_mem_snoc {keys : List Nat} {key n : Nat} :
    n ∉ keys ++ [key] ↔ n ∉ keys ∧ key ≠ n := by
  rw [List.mem_append, List.mem_singleton, not_or]
  exact and_congr_right fun _ => ne_comm

theorem attempted_kept (kept : Kept codec rules inst) {key : Nat} {item : TransactionItem}
    (found : inst.transactions.find key = some item) :
    Kept codec rules { inst with
      transactions := transactionDrop inst.transactions key
      attempted := inst.attempted ++ [key] } := by
  have below : key < inst.created.length := by
    rw [← kept.slots]
    exact find_lt found
  constructor
  · rw [transactionDrop, List.length_set]
    exact kept.slots
  · intro n held there
    obtain ⟨different, old⟩ := removed_find.mp there
    obtain ⟨unattempted, undropped⟩ := kept.found n held old
    exact ⟨not_mem_snoc.mpr ⟨unattempted, different⟩, undropped⟩
  · intro n inside unattempted undropped
    obtain ⟨before, different⟩ := not_mem_snoc.mp unattempted
    obtain ⟨held, there⟩ := kept.live n inside before undropped
    exact ⟨held, removed_find.mpr ⟨different, there⟩⟩
  · exact List.forall_mem_append.mpr ⟨kept.attempted, List.forall_mem_singleton.mpr below⟩
  · apply List.nodup_append.mpr
    refine ⟨kept.once, List.nodup_singleton _, ?_⟩
    intro n before other new
    rintro rfl
    rw [List.mem_singleton.mp new] at before
    exact (kept.found key item found).1 before
  · exact kept.dropped
  · exact kept.handles
  · exact kept.apart
  · exact kept.recorded
  · exact kept.handsOut
  · intro n created held made there
    exact kept.leftOver n created held made (removed_find.mp there).2

theorem dropped_kept (kept : Kept codec rules inst) {handle key : Nat}
    (held : inst.resources.lookup handle = some key) :
    Kept codec rules { inst with
      resources := inst.resources.erase handle
      transactions := transactionDrop inst.transactions key
      dropped := inst.dropped ++ [key] } := by
  obtain ⟨below, _⟩ := kept.handles handle key held
  constructor
  · rw [transactionDrop, List.length_set]
    exact kept.slots
  · intro n item there
    obtain ⟨different, old⟩ := removed_find.mp there
    obtain ⟨unattempted, undropped⟩ := kept.found n item old
    exact ⟨unattempted, not_mem_snoc.mpr ⟨undropped, different⟩⟩
  · intro n inside unattempted undropped
    obtain ⟨before, different⟩ := not_mem_snoc.mp undropped
    obtain ⟨item, there⟩ := kept.live n inside unattempted before
    exact ⟨item, removed_find.mpr ⟨different, there⟩⟩
  · exact kept.attempted
  · exact kept.once
  · exact List.forall_mem_append.mpr ⟨kept.dropped, List.forall_mem_singleton.mpr below⟩
  · intro other n there
    obtain ⟨different, old⟩ := lookup_erase_some.mp there
    obtain ⟨inside, undropped⟩ := kept.handles other n old
    refine ⟨inside, not_mem_snoc.mpr ⟨undropped, ?_⟩⟩
    rintro rfl
    exact different (kept.apart other handle key old held)
  · intro one other n first second
    exact kept.apart one other n (lookup_erase_some.mp first).2 (lookup_erase_some.mp second).2
  · exact kept.recorded
  · exact kept.handsOut
  · intro n created item made there
    exact kept.leftOver n created item made (removed_find.mp there).2

theorem moved_kept (kept : Kept codec rules inst) (moved : Moved codec rules inst next) :
    Kept codec rules next := by
  cases moved with
  | kept log emitted => exact kept_log kept log emitted
  | leaked made => exact (leaked_kept kept made).2
  | created made free =>
    obtain ⟨rfl, filled⟩ := leaked_kept kept made
    apply held_kept filled free
    · simp
    · exact fun member => absurd (kept.dropped _ member) (Nat.lt_irrefl _)
    · intro other held
      exact absurd (kept.handles other _ held).1 (Nat.lt_irrefl _)
  | readNothing found unread => exact readNothing_kept kept found unread
  | handedOut getKey found read => exact handedOut_kept kept getKey found read
  | attempted log emitted found => exact kept_log (attempted_kept kept found) log emitted
  | dropped held => exact dropped_kept kept held

def returned (results : List Batch) : List WitStoredEvent :=
  results.flatMap fun result => (result.toOption).getD []

theorem returned_handsOut {read : List (Nat × Event)} {results : List Batch}
    (handsOut : HandsOut codec read results) (some : results ≠ [])
    (fine : ∀ result ∈ results, ∃ events, result = .ok events) :
    ∃ getKey, decoded codec getKey read = .ok (returned results) := by
  cases handsOut with
  | untaken => exact absurd rfl some
  | taken getKey rest empty =>
    obtain ⟨events, first⟩ := fine _ List.mem_cons_self
    refine ⟨getKey, ?_⟩
    have nothing : returned rest = [] := by
      simp only [returned, List.flatMap_eq_nil_iff]
      intro result member
      rw [empty result member]
      rfl
    have all : returned (decoded codec getKey read :: rest) = events ++ returned rest := by
      simp only [returned, List.flatMap_cons, first]
      rfl
    rw [all, nothing, List.append_nil]
    exact first

theorem matching_ascending (created : Created) :
    (created.matching rules).Pairwise fun a b => a.1 < b.1 := by
  unfold Created.matching
  split
  · exact window_ascending _ _ _ _
  · exact List.Pairwise.nil

/-- The life of the transactions of an instance. An attempt to commit is a call that finds
    its transaction; `drained` is about transactions no batch of which failed. -/
structure Lifecycle (codec : Codec V) (rules : NameRules) (inst : Instance) : Prop where
  drained : ∀ (n : Nat) created, inst.created[n]? = some created →
    (∀ result ∈ batchesOf inst n, ∃ events, result = .ok events) →
    .ok [] ∈ batchesOf inst n →
    (created.matching rules).Pairwise (fun a b => a.1 < b.1) ∧
      ∃ getKey, decoded codec getKey (created.matching rules) =
        .ok (returned (batchesOf inst n))
  once : inst.attempted.Nodup
  appends : ∀ handle guest context events createKey next response,
    commit codec rules inst handle guest context events createKey = (next, response) →
    next ≠ inst → ∃ n, inst.resources.lookup handle = some n ∧ n ∉ inst.attempted ∧
      next.attempted = inst.attempted ++ [n] ∧
      ∀ other, other ≠ n → next.transactions.find other = inst.transactions.find other
  afterAttempt : ∀ handle n, inst.resources.lookup handle = some n → n ∈ inst.attempted →
    (∀ getKey, ∃ err, nextBatch codec inst handle getKey = (inst, .failed err)) ∧
      ∀ guest context events createKey, ∃ err,
        commit codec rules inst handle guest context events createKey = (inst, .failed err)
  afterDrop : ∀ n ∈ inst.dropped, ∀ handle, inst.resources.lookup handle ≠ some n
  noHandle : ∀ handle, inst.resources.lookup handle = none →
    (∀ getKey, ∃ err, nextBatch codec inst handle getKey = (inst, .failed err)) ∧
      (∀ guest context events createKey, ∃ err,
        commit codec rules inst handle guest context events createKey = (inst, .failed err)) ∧
      ∃ err, drop inst handle = (inst, .failed err)
  exactly : ∀ n, (∃ item, inst.transactions.find n = some item) ↔
    n < inst.created.length ∧ n ∉ inst.attempted ∧ n ∉ inst.dropped

theorem kept_lifecycle (kept : Kept codec rules inst) : Lifecycle codec rules inst := by
  constructor
  · intro n created made fine empty
    constructor
    · exact matching_ascending created
    · apply returned_handsOut (kept.handsOut n created made) _ fine
      intro none
      rw [none] at empty
      exact absurd empty List.not_mem_nil
  · exact kept.once
  · intro handle guest context events createKey next response called changed
    rcases commit_moved called with same | ⟨n, item, log, emitted, held, found, rfl⟩
    · exact absurd same changed
    · refine ⟨n, held, (kept.found n item found).1, rfl, ?_⟩
      exact fun other different => find_set_other (Ne.symm different)
  · intro handle n held gone
    have dead : ∀ key, inst.resources.lookup handle = some key →
        inst.transactions.find key = none := by
      intro key also
      obtain rfl := Option.some.inj (held.symm.trans also)
      rw [Option.eq_none_iff_forall_ne_some]
      intro item found
      exact (kept.found n item found).1 gone
    exact ⟨fun getKey => nextBatch_dead dead, fun _ _ _ _ => commit_dead dead⟩
  · intro n gone handle held
    exact (kept.handles handle n held).2 gone
  · intro handle free
    have dead : ∀ key, inst.resources.lookup handle = some key →
        inst.transactions.find key = none := by
      intro key held
      rw [free] at held
      exact nomatch held
    refine ⟨fun getKey => nextBatch_dead dead, fun _ _ _ _ => commit_dead dead, ?_⟩
    exact ⟨notPresent, by simp [drop, free]⟩
  · intro n
    constructor
    · intro h
      obtain ⟨item, found⟩ := h
      have below := find_lt found
      rw [kept.slots] at below
      exact ⟨below, kept.found n item found⟩
    · intro h
      obtain ⟨below, unattempted, undropped⟩ := h
      exact kept.live n below unattempted undropped

/-- Whatever calls come, and whatever the store, the key store and the resource table
    answer. -/
theorem transaction_lifecycle (log : List Event) (calls : List Call) (inst : Instance)
    (ran : exec (step codec rules) (initial log) calls = some inst) :
    Lifecycle codec rules inst := by
  have kept : Kept codec rules inst :=
    invariant (fun kept taken => moved_kept kept (step_moved taken)) (initial_kept log) ran
  exact kept_lifecycle kept

end lifecycle

section sample

abbrev sampleCodec : Codec String := textCodec [] [1]

def goodContext : CommandContext :=
  ⟨sampleCodec.uuidToString 1, sampleCodec.uuidToString 1, none, none⟩

def malformedContext : CommandContext := ⟨"not a uuid", sampleCodec.uuidToString 1, none, none⟩

def commitCall (context : CommandContext) : Call :=
  .commit 0 (.command 0) context [] fun _ => .error "no key"

def brokenEvent : Event := ⟨"task.created", [], [1]⟩

def openAll (head : Nat) : Call := .new .all (.ok head) (.ok 0)

def readKeyless : Call := .nextBatch 0 fun _ _ => .ok none

/-- A commit whose context cannot be read fails and leaves its transaction, which still
    hands out its events and can be committed. An event that cannot be decoded fails its
    batch, and the next batch is empty although nothing was returned. -/
theorem failed_calls_go_on :
    (∃ inst, exec (step sampleCodec plainNames) (initial [])
        [openAll 0, commitCall malformedContext] = some inst ∧
      commit sampleCodec plainNames inst 0 (.command 0) malformedContext []
        (fun _ => .error "no key") =
          (inst, .failed (.transaction (.message "invalid correlation id"))) ∧
      (nextBatch sampleCodec inst 0 fun _ _ => .ok none).2 = .batch [] ∧
      (inst.transactions.find 0).isSome = true ∧
      (commit sampleCodec plainNames inst 0 (.command 0) goodContext []
        fun _ => .error "no key").2 = .position (some 0)) ∧
    ∃ inst, exec (step sampleCodec plainNames) (initial [brokenEvent])
        [openAll 1, readKeyless, readKeyless] = some inst ∧
      batchesOf inst 0 = [.error (.deserializeEvent "expected value"), .ok []] ∧
      inst.created.map (Created.matching plainNames) = [[(1, brokenEvent)]] := by
  constructor
  · refine ⟨_, rfl, ?_, ?_, ?_, ?_⟩
    · rfl
    · decide +kernel
    · decide +kernel
    · decide +kernel
  · refine ⟨_, rfl, ?_, ?_⟩
    · decide +kernel
    · decide +kernel

def taskRecord (id : Uuid) : StoredEventData String := ⟨id, 0, 1, 1, none, none, none, none, "1"⟩

def taskCodec : Codec String := textCodec [taskRecord 4, taskRecord 5, taskRecord 6] [1, 6]

def taskEvent (id : Uuid) (task : String) : Event :=
  ⟨"task.created", [task], recordBytes (taskRecord id)⟩

def createTask (handle : Nat) : Call :=
  .commit handle (.command 0) goodContext
    [⟨taskCodec.uuidToString 6, "task.created", "1", [⟨"task", "1"⟩], none⟩]
    fun _ => .error "no key"

def readFrom (handle : Nat) : Call := .nextBatch handle fun _ _ => .ok none

/-- Two transactions read a log of two tasks, one of them the first task alone. The commit
    of the other makes its own fail. The handle it leaves is used for a third. -/
def twoTasks : List Call :=
  [.new (.items [⟨[], ["task:1"]⟩]) (.ok 2) (.ok 0), .new .all (.ok 2) (.ok 1),
    readFrom 0, readFrom 1, readFrom 1, createTask 1, createTask 0, readFrom 0, .drop 0,
    .new .all (.ok 3) (.ok 0), readFrom 0]

def positionsOf (batch : Batch) : Option (List Int) :=
  batch.toOption.map (List.map WitStoredEvent.position)

theorem drained_and_committed : ∃ inst,
    exec (step taskCodec plainNames) (initial [taskEvent 4 "task:1", taskEvent 5 "task:2"])
        twoTasks = some inst ∧
      inst.attempted = [1, 0] ∧ inst.dropped = [0] ∧
      inst.log = [taskEvent 4 "task:1", taskEvent 5 "task:2", taskEvent 6 "task:1"] ∧
      (batchesOf inst 0).map positionsOf = [some [1]] ∧
      (batchesOf inst 1).map positionsOf = [some [1, 2], some []] ∧
      (batchesOf inst 2).map positionsOf = [some [1, 2, 3]] ∧
      Lifecycle taskCodec plainNames inst := by
  have outcome : (exec (step taskCodec plainNames)
      (initial [taskEvent 4 "task:1", taskEvent 5 "task:2"]) twoTasks).map
        (fun inst => ((inst.attempted, inst.dropped), inst.log)) =
      some (([1, 0], [0]),
        [taskEvent 4 "task:1", taskEvent 5 "task:2", taskEvent 6 "task:1"]) := by
    decide +kernel
  have batches : (exec (step taskCodec plainNames)
      (initial [taskEvent 4 "task:1", taskEvent 5 "task:2"]) twoTasks).map
        (fun inst => (List.range 3).map fun n => (batchesOf inst n).map positionsOf) =
      some [[some [1]], [some [1, 2], some []], [some [1, 2, 3]]] := by
    decide +kernel
  obtain ⟨inst, ran, ended⟩ := Option.map_eq_some_iff.mp outcome
  obtain ⟨called, logged⟩ := Prod.mk.inj ended
  obtain ⟨attempts, drops⟩ := Prod.mk.inj called
  rw [ran] at batches
  obtain ⟨first, rest⟩ := List.cons.inj (Option.some.inj batches)
  obtain ⟨second, rest⟩ := List.cons.inj rest
  exact ⟨inst, ran, attempts, drops, logged, first, second, (List.cons.inj rest).1,
    transaction_lifecycle _ twoTasks inst ran⟩

end sample
end UmariTransactionHandles
