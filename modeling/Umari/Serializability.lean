import Umari.GuardedRuns
import Umari.Transactions
import Umari.FallibleFolds

/-!
Any number of guests interleave transactions over one log. `history` lists the
commits that appended, in log order. `Serial` is the purpose of the fence: the
same commits executed one after another, each reading the whole log when its
turn comes. Guests that never drain their transaction are in the run as well;
nothing is claimed about what they were handed.
-/
namespace UmariSerializability
open PositionedLogs GuardedRuns UmariEventStore UmariStoredEvents UmariTransactions
variable {V : Type}

structure Session where
  handed : List (Nat × Event)
  returned : List WitStoredEvent

structure Commit where
  query : Query
  head : Option Nat
  drained : Bool
  returned : List WitStoredEvent
  first : Nat
  batch : List Event

structure System where
  log : List Event
  transactions : Transactions
  sessions : Nat → Session
  history : List Commit

inductive Action (V : Type) where
  | new (query : EventQuery) (snapshot : Except String Nat)
  | nextBatch (tx : Nat) (getKey : Nat → Uuid → Except String (Option CryptoKey))
  | commit (tx : Nat) (guest : Guest) (context : CommandContext) (events : List EmitEvent)
      (createKey : String → Except String (Uuid × CryptoKey))
  | drop (tx : Nat)

def initial (log : List Event) : System := ⟨log, [], fun _ => ⟨[], []⟩, []⟩

/-- A watermark never lies past the end of the log it is read from. -/
def validSnapshot (log : List Event) : Except String Nat → Bool
  | .ok head => decide (head ≤ log.length)
  | .error _ => true

def newStep (rules : NameRules) (s : System) (query : EventQuery)
    (snapshot : Except String Nat) : System :=
  match transactionNew rules s.log s.transactions query snapshot with
  | .ok (transactions, _) => { s with transactions := transactions }
  | .error _ => s

/-- A failed `next_batch` traps the guest, which can then no longer use the transaction. -/
def nextBatchStep (codec : Codec V) (s : System) (tx : Nat)
    (getKey : Nat → Uuid → Except String (Option CryptoKey)) : System :=
  let taken := ((s.transactions.find tx).bind (·.read)).elim [] (·.events)
  match transactionNextBatch codec getKey s.transactions tx with
  | (transactions, .ok events) =>
    { s with
      transactions := transactions
      sessions := Function.update s.sessions tx
        ⟨(s.sessions tx).handed ++ taken, (s.sessions tx).returned ++ events⟩ }
  | (transactions, .error _) => { s with transactions := transactionDrop transactions tx }

def commitOf (item : TransactionItem) (session : Session) (log log' : List Event) : Commit where
  query := item.query
  head := item.read.map (·.head)
  drained := (item.read.elim [] (·.events)).isEmpty
  returned := session.returned
  first := log.length + 1
  batch := log'.drop log.length

def commitStep (rules : NameRules) (codec : Codec V) (s : System) (tx : Nat) (guest : Guest)
    (context : CommandContext) (events : List EmitEvent)
    (createKey : String → Except String (Uuid × CryptoKey)) : System :=
  match envelopeOf codec guest context with
  | .error _ => { s with transactions := transactionDrop s.transactions tx }
  | .ok envelope =>
    match transactionCommit codec rules createKey s.log s.transactions tx events envelope with
    | (transactions, .error _) => { s with transactions := transactions }
    | (transactions, .ok committed) =>
      { s with
        log := committed.log
        transactions := transactions
        history :=
          if committed.log.length = s.log.length then s.history
          else s.history ++ ((s.transactions.find tx).map fun item =>
            commitOf item (s.sessions tx) s.log committed.log).toList }

def step (rules : NameRules) (codec : Codec V) (s : System) : Action V → Option System
  | .new query snapshot =>
    if validSnapshot s.log snapshot then some (newStep rules s query snapshot) else none
  | .nextBatch tx getKey => some (nextBatchStep codec s tx getKey)
  | .commit tx guest context events createKey =>
    some (commitStep rules codec s tx guest context events createKey)
  | .drop tx => some { s with transactions := transactionDrop s.transactions tx }

/-- The guest saw this log entry, decoded with some answer of the key store. -/
def Decodes (codec : Codec V) (entry : Nat × Event) (event : WitStoredEvent) : Prop :=
  ∃ getKey, batchEntry codec getKey entry = .ok event

/-- A drained commit whose query selects anything was handed exactly what
    matches in `log`, in order. -/
def ReadsAll (codec : Codec V) (c : Commit) (log : List Event) : Prop :=
  queryIsEmpty c.query = false → c.drained = true →
    List.Forall₂ (Decodes codec) (readUpTo log c.query 0 log.length) c.returned

inductive Serial (codec : Codec V) : List Event → List Commit → List Event → Prop
  | done {log : List Event} : Serial codec log [] log
  | next {log final : List Event} {c : Commit} {rest : List Commit} :
      c.first = log.length + 1 → c.batch ≠ [] → ReadsAll codec c log →
      Serial codec (log ++ c.batch) rest final → Serial codec log (c :: rest) final

theorem serial_snoc {codec : Codec V} {start log : List Event} {history : List Commit}
    {c : Commit} (serial : Serial codec start history log) (first : c.first = log.length + 1)
    (appends : c.batch ≠ []) (reads : ReadsAll codec c log) :
    Serial codec start (history ++ [c]) (log ++ c.batch) := by
  induction serial with
  | done => exact Serial.next first appends reads Serial.done
  | next firstHere appendsHere readsHere _ ih =>
    exact Serial.next firstHere appendsHere readsHere (ih first reads)

theorem serial_appends {codec : Codec V} {start log : List Event} {history : List Commit}
    (serial : Serial codec start history log) {c : Commit} (member : c ∈ history) :
    c.batch ≠ [] := by
  induction serial with
  | done => exact absurd member List.not_mem_nil
  | next _ appends _ _ ih =>
    rcases List.mem_cons.mp member with here | later
    · exact here ▸ appends
    · exact ih later

/-- No event matching the commit's query lies between its snapshot and its batch. -/
def Fenced (c : Commit) (log : List Event) : Prop :=
  queryIsEmpty c.query = false → ∃ head, c.head = some head ∧
    ∀ p e, (p, e) ∈ entries log → head < p → p < c.first → c.query.matches e = false

/-- The events before the commit's own batch that match are those it was handed. -/
def Handed (codec : Codec V) (c : Commit) (log : List Event) : Prop :=
  queryIsEmpty c.query = false → c.drained = true →
    List.Forall₂ (Decodes codec) (readUpTo log c.query 0 (c.first - 1)) c.returned

structure LiveItem (codec : Codec V) (log : List Event) (item : TransactionItem)
    (session : Session) : Prop where
  reads : item.read = none → queryIsEmpty item.query = true
  snapshot : ∀ pinned, item.read = some pinned → pinned.head ≤ log.length ∧
    session.handed ++ pinned.events = readUpTo log item.query 0 pinned.head
  decoded : List.Forall₂ (Decodes codec) session.handed session.returned

structure Inv (codec : Codec V) (start : List Event) (s : System) : Prop where
  live : ∀ tx item, s.transactions.find tx = some item →
    LiveItem codec s.log item (s.sessions tx)
  fresh : ∀ tx, s.transactions.length ≤ tx → s.sessions tx = ⟨[], []⟩
  placed : ∀ c, c ∈ s.history → 0 < c.first ∧ c.first ≤ s.log.length + 1
  fenced : ∀ c, c ∈ s.history → Fenced c s.log
  handed : ∀ c, c ∈ s.history → Handed codec c s.log
  serial : Serial codec start s.history s.log

theorem live_append {codec : Codec V} {log more : List Event} {item : TransactionItem}
    {session : Session} (live : LiveItem codec log item session) :
    LiveItem codec (log ++ more) item session := by
  refine ⟨live.reads, ?_, live.decoded⟩
  intro pinned found
  obtain ⟨bound, handed⟩ := live.snapshot pinned found
  constructor
  · rw [List.length_append]
    omega
  · rw [handed, readUpTo, readUpTo, window_append bound]

theorem fenced_append {c : Commit} {log more : List Event} (placed : c.first ≤ log.length + 1)
    (fenced : Fenced c log) : Fenced c (log ++ more) := by
  intro selects
  obtain ⟨head, pinned, quiet⟩ := fenced selects
  refine ⟨head, pinned, ?_⟩
  intro p e member above before
  have old : (p, e) ∈ entries log := mem_entries_of_le member (by omega)
  exact quiet p e old above before

theorem handed_append {codec : Codec V} {c : Commit} {log more : List Event}
    (placed : c.first ≤ log.length + 1) (handed : Handed codec c log) :
    Handed codec c (log ++ more) := by
  intro selects drained
  have stable : readUpTo (log ++ more) c.query 0 (c.first - 1) =
      readUpTo log c.query 0 (c.first - 1) := window_append (by omega)
  rw [stable]
  exact handed selects drained

theorem handed_of_fenced {codec : Codec V} {log : List Event} {item : TransactionItem}
    {session : Session} {pinned : CommandRead} (live : LiveItem codec log item session)
    (found : item.read = some pinned) (drained : pinned.events = [])
    (quiet : ∀ p e, (p, e) ∈ entries log → pinned.head < p → item.query.matches e = false) :
    List.Forall₂ (Decodes codec) (readUpTo log item.query 0 log.length) session.returned := by
  obtain ⟨bound, handed⟩ := live.snapshot pinned found
  rw [drained, List.append_nil] at handed
  have whole : readUpTo log item.query 0 pinned.head = readUpTo log item.query 0 log.length :=
    readUpTo_extend bound (fun p e member above _ => quiet p e member above)
  rw [← whole, ← handed]
  exact live.decoded

theorem inv_drop {codec : Codec V} {start : List Event} {s : System} (inv : Inv codec start s)
    (tx : Nat) :
    Inv codec start { s with transactions := transactionDrop s.transactions tx } where
  live := fun other item found => inv.live other item (find_drop found).2
  fresh := by
    intro other outside
    rw [transactionDrop, List.length_set] at outside
    exact inv.fresh other outside
  placed := inv.placed
  fenced := inv.fenced
  handed := inv.handed
  serial := inv.serial

theorem inv_new {rules : NameRules} {codec : Codec V} {start : List Event} {s : System}
    {query : EventQuery} {snapshot : Except String Nat} (inv : Inv codec start s)
    (valid : validSnapshot s.log snapshot = true) :
    Inv codec start (newStep rules s query snapshot) := by
  unfold newStep
  cases created : transactionNew rules s.log s.transactions query snapshot with
  | error err => exact inv
  | ok result =>
    obtain ⟨transactions, tx⟩ := result
    obtain ⟨item, rfl, _, _, unread, pinnedRead⟩ := transactionNew_ok created
    refine ⟨?_, ?_, inv.placed, inv.fenced, inv.handed, inv.serial⟩
    · intro other found present
      by_cases old : other < s.transactions.length
      · rw [find_append_left old] at present
        exact inv.live other found present
      · have inside := find_lt present
        have here : other = s.transactions.length := by
          simp only [List.length_append, List.length_cons, List.length_nil] at inside
          omega
        subst here
        rw [find_append_new] at present
        obtain rfl := Option.some.inj present
        simp only [inv.fresh s.transactions.length (Nat.le_refl _)]
        refine ⟨unread, ?_, List.Forall₂.nil⟩
        intro pinned same
        obtain ⟨seen, events⟩ := pinnedRead pinned same
        rw [seen, validSnapshot, decide_eq_true_iff] at valid
        exact ⟨valid, by rw [List.nil_append, events]⟩
    · intro other outside
      rw [List.length_append] at outside
      exact inv.fresh other (by omega)

theorem inv_nextBatch {codec : Codec V} {start : List Event} {s : System} {tx : Nat}
    {getKey : Nat → Uuid → Except String (Option CryptoKey)} (inv : Inv codec start s) :
    Inv codec start (nextBatchStep codec s tx getKey) := by
  unfold nextBatchStep transactionNextBatch
  cases found : s.transactions.find tx with
  | none => exact inv_drop inv tx
  | some item =>
    have inside := find_lt found
    have live := inv.live tx item found
    have freshKept : ∀ session other, s.transactions.length ≤ other →
        Function.update s.sessions tx session other = ⟨[], []⟩ := by
      intro session other outside
      rw [Function.update_of_ne (by omega)]
      exact inv.fresh other outside
    cases pinnedRead : item.read with
    | none =>
      simp only [pinnedRead, Option.bind_some, Option.elim_none, List.append_nil,
        Function.update_eq_self]
      exact ⟨inv.live, inv.fresh, inv.placed, inv.fenced, inv.handed, inv.serial⟩
    | some pinned =>
      simp only [pinnedRead, Option.bind_some, Option.elim_some]
      cases decoded : pinned.events.mapM fun entry => batchEntry codec (getKey entry.1) entry with
      | error err =>
        have cleared : transactionDrop (s.transactions.set tx
            (some { item with read := some { pinned with events := [] } })) tx =
            transactionDrop s.transactions tx := by
          simp only [transactionDrop, List.set_set]
        simp only [cleared]
        exact inv_drop inv tx
      | ok events =>
        dsimp only
        refine ⟨?_, ?_, inv.placed, inv.fenced, inv.handed, inv.serial⟩
        · intro other present held
          by_cases same : tx = other
          · subst same
            rw [find_set_self inside] at held
            obtain rfl := Option.some.inj held
            simp only [Function.update_self]
            refine ⟨by simp, ?_, ?_⟩
            · intro kept equal
              obtain rfl := Option.some.inj equal
              obtain ⟨bound, whole⟩ := live.snapshot pinned pinnedRead
              exact ⟨bound, by rw [List.append_nil]; exact whole⟩
            · refine List.rel_append live.decoded ?_
              refine List.Forall₂.imp ?_ (FallibleFolds.mapM_ok.mp decoded)
              intro entry event ok
              exact ⟨getKey entry.1, ok⟩
          · rw [find_set_other same] at held
            simp only [Function.update_of_ne (Ne.symm same)]
            exact inv.live other present held
        · intro other outside
          rw [List.length_set] at outside
          exact freshKept _ other outside

theorem inv_transactions {codec : Codec V} {start : List Event} {s : System}
    {transactions : Transactions} {tx : Nat} (inv : Inv codec start s)
    (shrunk : transactions = s.transactions ∨ transactions = transactionDrop s.transactions tx) :
    Inv codec start { s with transactions := transactions } := by
  cases shrunk with
  | inl same =>
    subst same
    exact inv
  | inr dropped =>
    subst dropped
    exact inv_drop inv tx

theorem inv_appended {codec : Codec V} {start batch : List Event} {s : System} {tx : Nat}
    {item : TransactionItem} (inv : Inv codec start s) (found : s.transactions.find tx = some item)
    (appends : batch ≠ [])
    (quiet : ∀ pinned, item.read = some pinned → ∀ p e, (p, e) ∈ entries (s.log ++ batch) →
      pinned.head < p → p < s.log.length + 1 → item.query.matches e = false) :
    Inv codec start { s with
      log := s.log ++ batch
      transactions := transactionDrop s.transactions tx
      history := s.history ++ [commitOf item (s.sessions tx) s.log (s.log ++ batch)] } := by
  have live := inv.live tx item found
  have tail : (s.log ++ batch).drop s.log.length = batch := by simp
  have quietBefore : ∀ pinned, item.read = some pinned → ∀ p e, (p, e) ∈ entries s.log →
      pinned.head < p → item.query.matches e = false := by
    intro pinned same p e member above
    have bounds := entries_bounds member
    exact quiet pinned same p e (mem_entries_append_left member) above (by omega)
  have readsAll : ReadsAll codec (commitOf item (s.sessions tx) s.log (s.log ++ batch)) s.log := by
    intro selects drained
    cases pinnedRead : item.read with
    | none => exact absurd (live.reads pinnedRead) (by simpa [commitOf] using selects)
    | some pinned =>
      have empty : pinned.events = [] := by
        simpa [commitOf, pinnedRead, List.isEmpty_iff] using drained
      exact handed_of_fenced live pinnedRead empty (quietBefore pinned pinnedRead)
  refine ⟨?_, ?_, ?_, ?_, ?_, ?_⟩
  · intro other present held
    exact live_append (inv.live other present (find_drop held).2)
  · intro other outside
    simp only [transactionDrop, List.length_set] at outside
    exact inv.fresh other outside
  · intro c member
    simp only [List.length_append]
    rcases List.mem_append.mp member with old | new
    · have bounds := inv.placed c old
      omega
    · obtain rfl := List.mem_singleton.mp new
      simp only [commitOf]
      omega
  · intro c member
    rcases List.mem_append.mp member with old | new
    · exact fenced_append (inv.placed c old).2 (inv.fenced c old)
    · obtain rfl := List.mem_singleton.mp new
      intro selects
      cases pinnedRead : item.read with
      | none => exact absurd (live.reads pinnedRead) (by simpa [commitOf] using selects)
      | some pinned =>
        exact ⟨pinned.head, by simp [commitOf, pinnedRead], quiet pinned pinnedRead⟩
  · intro c member
    rcases List.mem_append.mp member with old | new
    · exact handed_append (inv.placed c old).2 (inv.handed c old)
    · obtain rfl := List.mem_singleton.mp new
      refine handed_append (Nat.le_refl _) ?_
      exact readsAll
  · have snoc := serial_snoc inv.serial rfl (by simpa [commitOf, tail] using appends) readsAll
    simpa [commitOf, tail] using snoc

theorem inv_commit {rules : NameRules} {codec : Codec V} {start : List Event} {s : System}
    {tx : Nat} {guest : Guest} {context : CommandContext} {events : List EmitEvent}
    {createKey : String → Except String (Uuid × CryptoKey)} (inv : Inv codec start s) :
    Inv codec start (commitStep rules codec s tx guest context events createKey) := by
  unfold commitStep
  cases envelopeOf codec guest context with
  | error err => exact inv_drop inv tx
  | ok envelope =>
    dsimp only
    cases committed : transactionCommit codec rules createKey s.log s.transactions tx events
        envelope with
    | mk transactions result =>
      cases result with
      | error err => exact inv_transactions inv (transactionCommit_transactions committed)
      | ok done =>
        obtain ⟨item, batch, found, removed, grown, quiet⟩ := transactionCommit_ok committed
        subst removed
        simp only [grown, List.length_append, found, Option.map_some, Option.toList_some]
        cases batch with
        | nil =>
          simp only [List.append_nil, List.length_nil, Nat.add_zero, ↓reduceIte]
          exact inv_drop inv tx
        | cons e rest =>
          have longer : ¬ s.log.length + (e :: rest).length = s.log.length := by simp
          simp only [longer, ↓reduceIte]
          exact inv_appended inv found (by simp) (quiet (by simp))

theorem inv_step {rules : NameRules} {codec : Codec V} {start : List Event} {s t : System}
    {a : Action V} (inv : Inv codec start s) (taken : step rules codec s a = some t) :
    Inv codec start t := by
  cases a with
  | new query snapshot =>
    simp only [step] at taken
    split at taken
    · rename_i valid
      cases taken
      exact inv_new inv valid
    · exact absurd taken (by simp)
  | nextBatch tx getKey =>
    cases taken
    exact inv_nextBatch inv
  | commit tx guest context events createKey =>
    cases taken
    exact inv_commit inv
  | drop tx =>
    cases taken
    exact inv_drop inv tx

theorem inv_initial (codec : Codec V) (log : List Event) : Inv codec log (initial log) where
  live := by simp [initial, Transactions.find]
  fresh := fun _ _ => rfl
  placed := by simp [initial]
  fenced := by simp [initial]
  handed := by simp [initial]
  serial := Serial.done

/-- Every interleaving of transactions is serializable: each commit's fence covers
    exactly what it read, a drained commit was handed all matching events that
    precede its batch, and the history is a serial execution in log order. -/
theorem transactions_serializable (rules : NameRules) (codec : Codec V) (log : List Event)
    (actions : List (Action V)) {final : System}
    (run : exec (step rules codec) (initial log) actions = some final) :
    (∀ c, c ∈ final.history → c.batch ≠ [] ∧ Fenced c final.log ∧ Handed codec c final.log) ∧
      Serial codec log final.history final.log := by
  have inv : Inv codec log final :=
    invariant (fun held taken => inv_step held taken) (inv_initial codec log) run
  refine ⟨?_, inv.serial⟩
  intro c member
  exact ⟨serial_appends inv.serial member, inv.fenced c member, inv.handed c member⟩

def counterQuery : EventQuery := .items [⟨["Incremented"], ["counter:1"]⟩]

def incrementId : String := "00000000-0000-0000-0000-000000000001"

def increment : EmitEvent :=
  ⟨incrementId, "Incremented", "\x7b\x7d", [⟨"counter", "1"⟩], none⟩

def incrementContext : CommandContext := ⟨incrementId, incrementId, none, none⟩

/-- One command increments the counter; a second one reads that event and does so too. -/
def twoIncrements : List (Action String) := [
  .new counterQuery (.ok 0),
  .nextBatch 0 (fun _ _ => .ok none),
  .commit 0 (.command 0) incrementContext [increment] (fun _ => .error "unused"),
  .new counterQuery (.ok 1),
  .nextBatch 1 (fun _ _ => .ok none),
  .commit 1 (.command 0) incrementContext [increment] (fun _ => .error "unused")]

def incrementCodec : Codec String :=
  textCodec [⟨1, 0, 1, 1, none, none, none, none, "\x7b\x7d"⟩] [1]

theorem two_increments_serializable : ∃ final,
    exec (step plainNames incrementCodec) (initial []) twoIncrements = some final ∧
      final.history.map (·.returned.length) = [0, 1] ∧
      (∀ c, c ∈ final.history →
        c.batch ≠ [] ∧ Fenced c final.log ∧ Handed incrementCodec c final.log) ∧
      Serial incrementCodec [] final.history final.log := by
  have seen : (exec (step plainNames incrementCodec) (initial []) twoIncrements).map
      (fun final => final.history.map (·.returned.length)) = some [0, 1] := by decide +kernel
  obtain ⟨final, run, lengths⟩ := Option.map_eq_some_iff.mp seen
  exact ⟨final, run, lengths, transactions_serializable _ _ _ _ run⟩

end UmariSerializability
