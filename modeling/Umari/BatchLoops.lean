import Umari.FallibleFolds
import Umari.Transactions

/-!
The loop of every guest that reads a transaction: batches are taken until an empty one,
unless one of them ends the loop early. A transaction hands everything it read out with
its first batch, so two turns are all a loop makes.
-/
namespace UmariBatchLoops
open FallibleFolds UmariEventStore UmariStoredEvents UmariTransactions
universe u v w
variable {V : Type} {E : Type u} {S : Type v} {R : Type w} (codec : Codec V)

/-- Each turn takes one unit of fuel. `take` goes through one batch and goes on with a
    state, or ends with a result. -/
def takeBatches (host : TransactionError → E) (outOfFuel : E)
    (take : S → List WitStoredEvent → Except E (S ⊕ R))
    (getKey : Nat → Uuid → Except String (Option CryptoKey)) (tx : Nat) :
    Nat → Transactions → S → Except E (Transactions × (S ⊕ R))
  | 0, _, _ => .error outOfFuel
  | fuel + 1, transactions, state =>
    match transactionNextBatch codec getKey transactions tx with
    | (_, .error err) => .error (host err)
    | (transactions, .ok []) => .ok (transactions, .inl state)
    | (transactions, .ok (first :: rest)) =>
      (take state (first :: rest)).bind fun ended =>
        match ended with
        | .inl state => takeBatches host outOfFuel take getKey tx fuel transactions state
        | .inr result => .ok (transactions, .inr result)

theorem readUpTo_empty {log : List Event} {query : Query} (empty : queryIsEmpty query = true)
    (after head : Nat) : readUpTo log query after head = [] := by
  unfold queryIsEmpty at empty
  split at empty
  · apply List.eq_nil_iff_forall_not_mem.mpr
    rintro ⟨p, e⟩ member
    exact absurd (PositionedLogs.mem_window.mp member).2.2.2 (by simp [Query.matches])
  · exact absurd empty (by simp)

variable {codec} {host : TransactionError → E} {outOfFuel : E}
  {take : S → List WitStoredEvent → Except E (S ⊕ R)}
  {getKey : Nat → Uuid → Except String (Option CryptoKey)} {tx : Nat}

/-- A loop over a new transaction takes all matching events of its snapshot as one batch,
    and leaves the transaction with its query and its watermark. -/
theorem takeBatches_reads (nothing : ∀ state, take state [] = .ok (.inl state))
    {rules : NameRules} {fuel : Nat} {log : List Event} {transactions opened after : Transactions}
    {query : EventQuery} {snapshot : Except String Nat} {state : S} {ended : S ⊕ R}
    (new : transactionNew rules log transactions query snapshot = .ok (opened, tx))
    (looped : takeBatches codec host outOfFuel take getKey tx (fuel + 2) opened state =
      .ok (after, ended)) :
    ∃ item wits, tx = transactions.length ∧ query.toQuery rules = .ok item.query ∧
      after = transactions ++ [some item] ∧
      (item.read = none → queryIsEmpty item.query = true) ∧
      (∀ pinned, item.read = some pinned → snapshot = .ok pinned.head) ∧
      (∀ head, snapshot = .ok head → (readUpTo log item.query 0 head).mapM
        (fun entry => batchEntry codec (getKey entry.1) entry) = .ok wits) ∧
      take state wits = .ok ended := by
  obtain ⟨item, rfl, rfl, passed, unread, pinnedRead⟩ := transactionNew_ok new
  have found : Transactions.find (transactions ++ [some item]) transactions.length = some item :=
    find_append_new
  cases pin : item.read with
  | none =>
    rw [takeBatches, transactionNextBatch_unread found pin] at looped
    obtain ⟨rfl, rfl⟩ := Prod.mk.inj (Except.ok.inj looped)
    refine ⟨item, [], rfl, passed, rfl, unread, ?_, ?_, nothing state⟩
    · simp [pin]
    · intro head _
      rw [readUpTo_empty (unread pin)]
      rfl
  | some pinned =>
    obtain ⟨sameHead, reads⟩ := pinnedRead pinned pin
    let drained : TransactionItem := { item with read := some { pinned with events := [] } }
    have stored : (transactions ++ [some item]).set transactions.length (some drained) =
        transactions ++ [some drained] := by simp
    have emptied : Transactions.find (transactions ++ [some drained]) transactions.length =
        some drained := find_append_new
    have kept : ∀ left, drained.read = some left → snapshot = .ok left.head := by
      intro left equal
      obtain rfl := Option.some.inj equal
      exact sameHead
    have handed : ∀ wits, (pinned.events.mapM fun entry =>
        batchEntry codec (getKey entry.1) entry) = .ok wits → ∀ head, snapshot = .ok head →
        (readUpTo log item.query 0 head).mapM
          (fun entry => batchEntry codec (getKey entry.1) entry) = .ok wits := by
      intro wits decoded head known
      obtain rfl := Except.ok.inj (sameHead.symm.trans known)
      rw [← reads]
      exact decoded
    rw [takeBatches, transactionNextBatch_pinned found pin, stored] at looped
    cases decoded : pinned.events.mapM fun entry => batchEntry codec (getKey entry.1) entry with
    | error err => rw [decoded] at looped; exact absurd looped (by simp)
    | ok wits =>
      rw [decoded] at looped
      cases wits with
      | nil =>
        obtain ⟨rfl, rfl⟩ := Prod.mk.inj (Except.ok.inj looped)
        exact ⟨drained, [], rfl, passed, rfl, by simp [drained], kept, handed [] decoded,
          nothing state⟩
      | cons first rest =>
        obtain ⟨result, taken, later⟩ := bind_ok.mp looped
        have same : transactions ++ [some drained] = after ∧ result = ended := by
          cases result with
          | inr result => exact Prod.mk.inj (Except.ok.inj later)
          | inl next =>
            -- the second turn finds the batch already taken
            have second : takeBatches codec host outOfFuel take getKey transactions.length
              (fuel + 1) (transactions ++ [some drained]) next = .ok (after, ended) := later
            rw [takeBatches, transactionNextBatch_pinned emptied rfl] at second
            simpa [drained, pure, Except.pure] using second
        obtain ⟨rfl, rfl⟩ := same
        exact ⟨drained, first :: rest, rfl, passed, rfl, by simp [drained], kept,
          handed _ decoded, taken⟩

theorem transactionNew_accepts {rules : NameRules} {log : List Event} {query : EventQuery}
    {stored : Query} {head : Nat} (transactions : Transactions)
    (passed : query.toQuery rules = .ok stored) :
    ∃ opened, transactionNew rules log transactions query (.ok head) =
      .ok (opened, transactions.length) := by
  rw [transactionNew, passed]
  by_cases empty : queryIsEmpty stored = true
  · exact ⟨transactions ++ [some ⟨stored, none⟩], by
      simp [empty, Except.mapError, bind, Except.bind, pure, Except.pure]⟩
  · exact ⟨transactions ++ [some ⟨stored, some ⟨readUpTo log stored 0 head, head⟩⟩], by
      simp [empty, readMatching, Except.mapError, bind, Except.bind, pure, Except.pure,
        Functor.map, Except.map]⟩

section splits
variable (take : S → List WitStoredEvent → Except E (S ⊕ R))

def goOn (next : S → Except E (S ⊕ R)) : S ⊕ R → Except E (S ⊕ R)
  | .inl state => next state
  | .inr result => .ok (.inr result)

/-- The loop over the answers of `next_batch`, however they are split. -/
def overBatches : List (List WitStoredEvent) → S → Except E (S ⊕ R)
  | [], state => .ok (.inl state)
  | [] :: _, state => .ok (.inl state)
  | (first :: rest) :: more, state =>
    (take state (first :: rest)).bind (goOn (overBatches more))

/-- The events before the first empty batch. -/
def seen : List (List WitStoredEvent) → List WitStoredEvent
  | [] => []
  | [] :: _ => []
  | (first :: rest) :: more => first :: rest ++ seen more

inductive HandsOut (codec : Codec V) (getKey : Nat → Uuid → Except String (Option CryptoKey))
    (tx : Nat) : Transactions → List (List WitStoredEvent) → Prop where
  | done {transactions left : Transactions} :
      transactionNextBatch codec getKey transactions tx = (left, .ok []) →
      HandsOut codec getKey tx transactions []
  | batch {transactions left : Transactions} {first : WitStoredEvent}
      {rest : List WitStoredEvent} {more : List (List WitStoredEvent)} :
      transactionNextBatch codec getKey transactions tx = (left, .ok (first :: rest)) →
      HandsOut codec getKey tx left more →
      HandsOut codec getKey tx transactions ((first :: rest) :: more)

variable {take}

theorem takeBatches_handsOut {transactions : Transactions} {batches : List (List WitStoredEvent)}
    (hands : HandsOut codec getKey tx transactions batches) {fuel : Nat}
    (enough : batches.length < fuel) (state : S) :
    (takeBatches codec host outOfFuel take getKey tx fuel transactions state).map Prod.snd =
      overBatches take batches state := by
  induction hands generalizing fuel state with
  | done last =>
    cases fuel with
    | zero => omega
    | succ fuel =>
      rw [takeBatches, last]
      rfl
  | batch handed _ ih =>
    cases fuel with
    | zero => omega
    | succ fuel =>
      have fewer : _ < fuel := Nat.lt_of_succ_lt_succ enough
      rw [takeBatches, handed, overBatches]
      dsimp only
      cases take state _ with
      | error err => rfl
      | ok ended =>
        cases ended with
        | inl next => exact ih fewer next
        | inr result => rfl

theorem overBatches_seen (nothing : ∀ state, take state [] = .ok (.inl state))
    (append : ∀ state left right, take state (left ++ right) =
      (take state left).bind (goOn fun state => take state right))
    (batches : List (List WitStoredEvent)) (state : S) :
    overBatches take batches state = take state (seen batches) := by
  induction batches generalizing state with
  | nil => exact (nothing state).symm
  | cons batch more ih =>
    cases batch with
    | nil => exact (nothing state).symm
    | cons first rest =>
      rw [overBatches, seen, append]
      congr 2
      funext next
      exact ih next

theorem handsOut_new {rules : NameRules} {head : Nat} {log : List Event}
    {transactions opened : Transactions} {query : EventQuery} {stored : Query}
    {wits : List WitStoredEvent}
    (new : transactionNew rules log transactions query (.ok head) = .ok (opened, tx))
    (passed : query.toQuery rules = .ok stored)
    (decoded : (readUpTo log stored 0 head).mapM
      (fun entry => batchEntry codec (getKey entry.1) entry) = .ok wits) :
    (wits = [] ∧ HandsOut codec getKey tx opened []) ∨ HandsOut codec getKey tx opened [wits] := by
  obtain ⟨item, rfl, rfl, same, unread, pinnedRead⟩ := transactionNew_ok new
  obtain rfl : stored = item.query := Except.ok.inj (passed.symm.trans same)
  have found : Transactions.find (transactions ++ [some item]) transactions.length = some item :=
    find_append_new
  cases pin : item.read with
  | none =>
    rw [readUpTo_empty (unread pin)] at decoded
    obtain rfl := Except.ok.inj decoded
    exact Or.inl ⟨rfl, HandsOut.done (transactionNextBatch_unread found pin)⟩
  | some pinned =>
    obtain ⟨sameHead, reads⟩ := pinnedRead pinned pin
    rw [Except.ok.inj sameHead, ← reads] at decoded
    let drained : TransactionItem := { item with read := some { pinned with events := [] } }
    have stored : (transactions ++ [some item]).set transactions.length (some drained) =
        transactions ++ [some drained] := by simp
    have emptied : Transactions.find (transactions ++ [some drained]) transactions.length =
        some drained := find_append_new
    have first : transactionNextBatch codec getKey _ _ = _ := transactionNextBatch_pinned found pin
    rw [stored, decoded] at first
    cases wits with
    | nil => exact Or.inl ⟨rfl, HandsOut.done first⟩
    | cons raw rest =>
      -- the second turn finds the batch already taken
      have second : transactionNextBatch codec getKey _ _ = _ :=
        transactionNextBatch_pinned emptied rfl
      exact Or.inr (HandsOut.batch first (HandsOut.done second))

theorem takeBatches_returns (nothing : ∀ state, take state [] = .ok (.inl state))
    {rules : NameRules} {fuel head : Nat} {log : List Event} {transactions opened : Transactions}
    {query : EventQuery} {stored : Query} {state : S} {ended : S ⊕ R} {wits : List WitStoredEvent}
    (new : transactionNew rules log transactions query (.ok head) = .ok (opened, tx))
    (passed : query.toQuery rules = .ok stored)
    (decoded : (readUpTo log stored 0 head).mapM
      (fun entry => batchEntry codec (getKey entry.1) entry) = .ok wits)
    (taken : take state wits = .ok ended) :
    ∃ after, takeBatches codec host outOfFuel take getKey tx (fuel + 2) opened state =
      .ok (after, ended) := by
  have looped : (takeBatches codec host outOfFuel take getKey tx (fuel + 2) opened state).map
      Prod.snd = .ok ended := by
    rcases handsOut_new new passed decoded with ⟨rfl, hands⟩ | hands
    · rw [takeBatches_handsOut hands (by simp)]
      exact (nothing state).symm.trans taken
    · rw [takeBatches_handsOut hands (by simp)]
      cases wits with
      | nil => exact (nothing state).symm.trans taken
      | cons first rest =>
        rw [overBatches, taken]
        cases ended <;> rfl
  obtain ⟨⟨after, _⟩, reached, rfl⟩ := mapped_ok.mp looped
  exact ⟨after, reached⟩

end splits

end UmariBatchLoops
