import Mathlib.Data.List.Perm.Basic
import Umari.FoldQueries
import Umari.NumberedLists

/-!
The fold query as it is kept while it runs: the folds of all types in one slot map, their
states as boxes of any type, and a handle for each registration that takes its states out
again by key. The slot map hands out its keys in order; the hash maps it is turned into
may be gone through in any order.
-/
namespace UmariFoldHandles
open FallibleFolds NumberedLists PositionedLogs
open UmariEventStore UmariStoredEvents UmariTransactions UmariBatchLoops UmariDcbQueries
open UmariFolds hiding boxApply FoldQuery
open UmariQueryCoverage
variable {V : Type}

/-- The fold types of a guest. A type of states is known at run time by its id. -/
structure FoldTypes (V : Type) where
  Name : Type
  TypeId : Type
  sameType : DecidableEq TypeId
  State : TypeId → Type
  stateType : Name → TypeId
  Self : Name → Type
  Item : Name → Type
  eventDomainIds : Name → List EventDomainId
  domainIdFields : Name → List String
  domainIds : ∀ name, Self name → DomainIdBindings
  fromEvent : ∀ name, String → V → Option (Except String (Item name))
  default : ∀ name, State (stateType name)
  apply : ∀ name, Self name → State (stateType name) → StoredEvent (Item name) →
    State (stateType name)

namespace FoldTypes

instance (T : FoldTypes V) : DecidableEq T.TypeId := T.sameType

abbrev fold (T : FoldTypes V) (name : T.Name) : Fold V where
  Self := T.Self name
  Item := T.Item name
  State := T.State (T.stateType name)
  eventDomainIds := T.eventDomainIds name
  domainIdFields := T.domainIdFields name
  domainIds := T.domainIds name
  fromEvent := T.fromEvent name
  default := T.default name
  apply := T.apply name

end FoldTypes

variable {T : FoldTypes V}

/-- `Box<dyn Any>` -/
abbrev AnyBox (T : FoldTypes V) : Type := Sigma T.State

def downcast (id : T.TypeId) (box : AnyBox T) : Option (T.State id) :=
  if same : box.1 = id then some (same ▸ box.2) else none

@[simp] theorem downcast_box {id : T.TypeId} {state : T.State id} :
    downcast id ⟨id, state⟩ = some state := dif_pos rfl

structure FoldEntry (T : FoldTypes V) where
  name : T.Name
  fold : T.Self name
  binding : DomainIdBindings
  state : AnyBox T

def newEntry (name : T.Name) (fold : T.Self name) : FoldEntry T :=
  ⟨name, fold, T.domainIds name fold, ⟨T.stateType name, T.default name⟩⟩

inductive Handle (T : FoldTypes V) where
  | one (name : T.Name) (key : Nat)
  | many (name : T.Name) (keys : List Nat)

structure FoldQuery (T : FoldTypes V) where
  domainIds : List EventDomainId
  folds : List (FoldEntry T)
  handles : List (Handle T)
  registered : ∀ entry ∈ folds, ∀ listed ∈ T.eventDomainIds entry.name, listed ∈ domainIds

namespace FoldQuery

def new : FoldQuery T := ⟨[], [], [], fun _ member => absurd member List.not_mem_nil⟩

theorem registered_append (fq : FoldQuery T) (name : T.Name) (folds : List (T.Self name)) :
    ∀ entry ∈ fq.folds ++ folds.map (newEntry name), ∀ listed ∈ T.eventDomainIds entry.name,
      listed ∈ fq.domainIds ++ T.eventDomainIds name := by
  intro entry member listed required
  rcases List.mem_append.mp member with old | added
  · exact List.mem_append_left _ (fq.registered entry old listed required)
  · obtain ⟨fold, _, rfl⟩ := List.mem_map.mp added
    exact List.mem_append_right _ required

def fold (fq : FoldQuery T) (name : T.Name) (fold : T.Self name) : FoldQuery T where
  domainIds := fq.domainIds ++ T.eventDomainIds name
  folds := fq.folds ++ [newEntry name fold]
  handles := fq.handles ++ [.one name fq.folds.length]
  registered := fq.registered_append name [fold]

def foldIter (fq : FoldQuery T) (name : T.Name) (folds : List (T.Self name)) : FoldQuery T where
  domainIds := fq.domainIds ++ T.eventDomainIds name
  folds := fq.folds ++ folds.map (newEntry name)
  handles := fq.handles ++ [.many name (List.range' fq.folds.length folds.length)]
  registered := fq.registered_append name folds

def query (fq : FoldQuery T) (rules : NameRules) : Except String Query :=
  buildDcbQuery rules fq.domainIds (fq.folds.map FoldEntry.binding)

end FoldQuery

inductive Registration (T : FoldTypes V) where
  | fold (name : T.Name) (fold : T.Self name)
  | foldIter (name : T.Name) (folds : List (T.Self name))

def Registration.add (fq : FoldQuery T) : Registration T → FoldQuery T
  | .fold name value => fq.fold name value
  | .foldIter name values => fq.foldIter name values

def build (registrations : List (Registration T)) : FoldQuery T :=
  registrations.foldl Registration.add FoldQuery.new

inductive Extracted (T : FoldTypes V) where
  | one (name : T.Name) (state : T.State (T.stateType name))
  | many (name : T.Name) (states : List (T.State (T.stateType name)))

/-- The order in which the entries of a new hash map are gone through. -/
structure HashOrder where
  arrange : ∀ {α : Type}, List (Nat × α) → List (Nat × α)
  perm : ∀ {α : Type} (entries : List (Nat × α)), (arrange entries).Perm entries

section run
variable [DecidableEq V] (codec : Codec V)

def boxApply (entry : FoldEntry T) (event : StoredEvent V) : Except RunError (FoldEntry T) :=
  if shredded codec event then .ok entry
  else if matchesFoldQuery (T.fold entry.name) event.eventType event.tags entry.binding then
    match T.fromEvent entry.name event.eventType event.data with
    | none => .ok entry
    | some (.error err) => .error (.fold err)
    | some (.ok data) =>
      match downcast (T.stateType entry.name) entry.state with
      | none => .error (.panic "called `Option::unwrap()` on a `None` value")
      | some state => .ok { entry with
          state := ⟨T.stateType entry.name,
            T.apply entry.name entry.fold state { event with data := data }⟩ }
  else .ok entry

def applyKeyed (entry : Nat × FoldEntry T) (event : StoredEvent V) :
    Except RunError (Nat × FoldEntry T) :=
  (boxApply codec entry.2 event).map fun after => (entry.1, after)

def runBatch (folds : List (Nat × FoldEntry T)) :
    List WitStoredEvent → Except RunError (List (Nat × FoldEntry T))
  | [] => .ok folds
  | first :: rest =>
    (guestEvent codec first).bind fun event =>
      (folds.mapM fun entry => applyKeyed codec entry event).bind fun folds =>
        runBatch folds rest

/-- Batches are taken until an empty one; each turn of the loop takes one unit of fuel. -/
def runLoop (getKey : Nat → Uuid → Except String (Option CryptoKey)) (tx : Nat) :
    Nat → Transactions → List (Nat × FoldEntry T) →
      Except RunError (Transactions × List (Nat × FoldEntry T))
  | 0, _, _ => .error .outOfFuel
  | fuel + 1, transactions, folds =>
    match transactionNextBatch codec getKey transactions tx with
    | (_, .error err) => .error (.host err)
    | (transactions, .ok []) => .ok (transactions, folds)
    | (transactions, .ok (first :: rest)) =>
      (runBatch codec folds (first :: rest)).bind fun folds =>
        runLoop getKey tx fuel transactions folds

/-- `*states.remove(&key).unwrap().downcast().unwrap()` -/
def take (name : T.Name) (key : Nat) (states : List (Nat × AnyBox T)) :
    Except RunError (T.State (T.stateType name) × List (Nat × AnyBox T)) :=
  match states.lookup key with
  | none => .error (.panic "called `Option::unwrap()` on a `None` value")
  | some box =>
    match downcast (T.stateType name) box with
    | none => .error (.panic "called `Result::unwrap()` on an `Err` value")
    | some state => .ok (state, states.filter fun entry => entry.1 ≠ key)

def takeAll (name : T.Name) : List Nat → List (Nat × AnyBox T) →
    Except RunError (List (T.State (T.stateType name)) × List (Nat × AnyBox T))
  | [], states => .ok ([], states)
  | key :: rest, states =>
    (take name key states).bind fun (state, states) =>
      (takeAll name rest states).map fun (taken, states) => (state :: taken, states)

def extract : List (Handle T) → List (Nat × AnyBox T) → Except RunError (List (Extracted T))
  | [], _ => .ok []
  | .one name key :: rest, states =>
    (take name key states).bind fun (state, states) =>
      (extract rest states).map (Extracted.one name state :: ·)
  | .many name keys :: rest, states =>
    (takeAll name keys states).bind fun (taken, states) =>
      (extract rest states).map (Extracted.many name taken :: ·)

def run (order : HashOrder) (fq : FoldQuery T) (rules : NameRules)
    (getKey : Nat → Uuid → Except String (Option CryptoKey)) (fuel : Nat) (log : List Event)
    (transactions : Transactions) (snapshot : Except String Nat) :
    Except RunError (Transactions × List (Extracted T)) :=
  ((fq.query rules).mapError RunError.panic).bind fun query =>
  ((transactionNew rules log transactions (eventQueryOf query) snapshot).mapError
    RunError.host).bind fun (transactions, tx) =>
  (runLoop codec getKey tx fuel transactions (order.arrange (numbered 0 fq.folds))).bind
    fun (transactions, folds) =>
  (extract fq.handles (order.arrange (folds.map fun entry => (entry.1, entry.2.state)))).map
    fun results => (transactionDrop transactions tx, results)

end run

section building

def entriesOf : Registration T → List (FoldEntry T)
  | .fold name value => [newEntry name value]
  | .foldIter name values => values.map (newEntry name)

def Registration.listed : Registration T → List EventDomainId
  | .fold name _ => T.eventDomainIds name
  | .foldIter name _ => T.eventDomainIds name

def handlesFrom : Nat → List (Registration T) → List (Handle T)
  | _, [] => []
  | n, .fold name _ :: rest => .one name n :: handlesFrom (n + 1) rest
  | n, .foldIter name values :: rest =>
    .many name (List.range' n values.length) :: handlesFrom (n + values.length) rest

theorem foldl_add (registrations : List (Registration T)) (fq : FoldQuery T) :
    (registrations.foldl Registration.add fq).domainIds =
        fq.domainIds ++ registrations.flatMap Registration.listed ∧
      (registrations.foldl Registration.add fq).folds =
        fq.folds ++ registrations.flatMap entriesOf ∧
      (registrations.foldl Registration.add fq).handles =
        fq.handles ++ handlesFrom fq.folds.length registrations := by
  induction registrations generalizing fq with
  | nil => simp [handlesFrom]
  | cons first rest ih =>
    obtain ⟨ids, folds, handles⟩ := ih (Registration.add fq first)
    rw [List.foldl_cons, ids, folds, handles]
    cases first with
    | fold name value =>
      simp [Registration.add, FoldQuery.fold, Registration.listed, entriesOf, handlesFrom]
    | foldIter name values =>
      simp [Registration.add, FoldQuery.foldIter, Registration.listed, entriesOf, handlesFrom]

theorem build_folds (registrations : List (Registration T)) :
    (build registrations).folds = registrations.flatMap entriesOf := by
  rw [build, (foldl_add registrations FoldQuery.new).2.1]
  rfl

theorem build_handles (registrations : List (Registration T)) :
    (build registrations).handles = handlesFrom 0 registrations := by
  rw [build, (foldl_add registrations FoldQuery.new).2.2]
  rfl

end building

section applying
variable [DecidableEq V] {codec : Codec V}

def variantOf (F : Fold V) (event : StoredEvent V) :
    Except RunError (Option (StoredEvent F.Item)) :=
  match F.fromEvent event.eventType event.data with
  | none => .ok none
  | some (.error err) => .error (.fold err)
  | some (.ok data) => .ok (some { event with data := data })

def itemsOf (codec : Codec V) (F : Fold V) (events : List (StoredEvent V)) :
    Except RunError (List (StoredEvent F.Item)) :=
  ((events.filter fun event => !shredded codec event).mapM (variantOf F)).map List.reduceOption

theorem itemsOf_shredded {F : Fold V} {event : StoredEvent V} {rest : List (StoredEvent V)}
    (gone : shredded codec event = true) :
    itemsOf codec F (event :: rest) = itemsOf codec F rest := by
  rw [itemsOf, List.filter_cons_of_neg (by simp [gone]), itemsOf]

theorem itemsOf_readable {F : Fold V} {event : StoredEvent V} {rest : List (StoredEvent V)}
    {items : List (StoredEvent F.Item)} (readable : shredded codec event = false) :
    itemsOf codec F (event :: rest) = .ok items ↔
      ∃ variant tail, variantOf F event = .ok variant ∧ itemsOf codec F rest = .ok tail ∧
        items = variant.toList ++ tail := by
  rw [itemsOf, List.filter_cons_of_pos (by simp [readable]), List.mapM_cons]
  simp only [mapped_ok, do_ok, pure, Except.pure, Except.ok.injEq, itemsOf]
  constructor
  · rintro ⟨_, ⟨variant, here, others, later, rfl⟩, rfl⟩
    refine ⟨variant, _, here, ⟨others, later, rfl⟩, ?_⟩
    cases variant <;> rfl
  · rintro ⟨variant, _, here, ⟨others, later, rfl⟩, rfl⟩
    refine ⟨_, ⟨variant, here, others, later, rfl⟩, ?_⟩
    cases variant <;> rfl

def entryAt (name : T.Name) (fold : T.Self name) (binding : DomainIdBindings)
    (state : T.State (T.stateType name)) : FoldEntry T :=
  ⟨name, fold, binding, ⟨T.stateType name, state⟩⟩

variable {name : T.Name} {fold : T.Self name} {binding : DomainIdBindings}
  {state : T.State (T.stateType name)} {event : StoredEvent V}

theorem boxApply_shredded (gone : shredded codec event = true) (entry : FoldEntry T) :
    boxApply codec entry event = .ok entry := if_pos gone

theorem boxApply_refused
    (refused : matchesFoldQuery (T.fold name) event.eventType event.tags binding = false) :
    boxApply codec (entryAt name fold binding state) event =
      .ok (entryAt name fold binding state) := by
  unfold boxApply
  by_cases gone : shredded codec event = true
  · exact if_pos gone
  · rw [if_neg gone]
    exact if_neg (by rw [entryAt, refused]; exact Bool.false_ne_true)

theorem boxApply_accepted (readable : shredded codec event = false)
    (accepted : matchesFoldQuery (T.fold name) event.eventType event.tags binding = true) :
    boxApply codec (entryAt name fold binding state) event =
      (variantOf (T.fold name) event).map fun variant =>
        entryAt name fold binding (variant.toList.foldl (T.apply name fold) state) := by
  unfold boxApply variantOf
  rw [if_neg (by rw [readable]; exact Bool.false_ne_true), if_pos (by exact accepted)]
  dsimp only [FoldTypes.fold, entryAt]
  cases T.fromEvent name event.eventType event.data with
  | none => rfl
  | some data =>
    cases data with
    | error err => rfl
    | ok data =>
      dsimp only
      rw [downcast_box]
      rfl

def accepted (T : FoldTypes V) (name : T.Name) (binding : DomainIdBindings)
    (event : StoredEvent V) : Bool :=
  matchesFoldQuery (T.fold name) event.eventType event.tags binding

theorem foldlM_entry {events : List (StoredEvent V)} {final : FoldEntry T} :
    events.foldlM (boxApply codec) (entryAt name fold binding state) = .ok final ↔
      ∃ items, itemsOf codec (T.fold name) (events.filter (accepted T name binding)) =
          .ok items ∧
        final = entryAt name fold binding (items.foldl (T.apply name fold) state) := by
  induction events generalizing state with
  | nil =>
    constructor
    · intro ended
      exact ⟨[], rfl, (Except.ok.inj ended).symm⟩
    · rintro ⟨items, none, rfl⟩
      obtain rfl := Except.ok.inj none
      rfl
  | cons event rest ih =>
    rw [foldlM_cons_ok]
    cases taken : accepted T name binding event with
    | false =>
      rw [boxApply_refused taken, List.filter_cons_of_neg (by simp [taken]), ← ih]
      simp
    | true =>
      rw [List.filter_cons_of_pos taken]
      cases gone : shredded codec event with
      | true =>
        rw [boxApply_shredded gone, itemsOf_shredded gone, ← ih]
        simp
      | false =>
        rw [boxApply_accepted gone taken]
        simp only [mapped_ok, itemsOf_readable gone]
        constructor
        · rintro ⟨_, ⟨variant, here, rfl⟩, later⟩
          obtain ⟨items, others, rfl⟩ := ih.mp later
          refine ⟨variant.toList ++ items, ⟨variant, items, here, others, rfl⟩, ?_⟩
          rw [List.foldl_append]
        · rintro ⟨_, ⟨variant, items, here, others, rfl⟩, rfl⟩
          refine ⟨_, ⟨variant, here, rfl⟩, ih.mpr ⟨items, others, ?_⟩⟩
          rw [List.foldl_append]

end applying

section loop
variable [DecidableEq V] {codec : Codec V}
  {getKey : Nat → Uuid → Except String (Option CryptoKey)}

abbrev Shown (codec : Codec V) (events : List (StoredEvent V)) :
    Nat × FoldEntry T → Nat × FoldEntry T → Prop :=
  AtSameNumber fun entry final => events.foldlM (boxApply codec) entry = .ok final

theorem foldlM_applyKeyed {events : List (StoredEvent V)} {entry final : Nat × FoldEntry T} :
    events.foldlM (applyKeyed codec) entry = .ok final ↔ Shown codec events entry final := by
  obtain ⟨key, entry⟩ := entry
  obtain ⟨key', final⟩ := final
  have within : events.foldlM (applyKeyed codec) (key, entry) =
      (events.foldlM (boxApply codec) entry).map fun entry => (key, entry) :=
    foldlM_within _ _ _ (fun _ _ _ => rfl) entry
  rw [within, mapped_ok, Shown, AtSameNumber]
  simp only [Prod.mk.injEq]
  constructor
  · rintro ⟨after, ended, rfl, rfl⟩
    exact ⟨rfl, ended⟩
  · rintro ⟨rfl, ended⟩
    exact ⟨final, ended, rfl, rfl⟩

theorem runBatch_ok {wits : List WitStoredEvent} {folds finals : List (Nat × FoldEntry T)} :
    runBatch codec folds wits = .ok finals ↔
      ∃ events, wits.mapM (guestEvent codec) = .ok events ∧
        List.Forall₂ (Shown codec events) folds finals := by
  have together : runBatch codec folds wits = .ok finals ↔
      ∃ events, wits.mapM (guestEvent codec) = .ok events ∧
        events.foldlM (fun (all : List (Nat × FoldEntry T)) event =>
          all.mapM fun entry => applyKeyed codec entry event) folds = .ok finals := by
    induction wits generalizing folds with
    | nil => simp [runBatch, pure, Except.pure]
    | cons first rest ih =>
      rw [runBatch, List.mapM_cons]
      simp only [bind_ok, do_ok, pure, Except.pure, Except.ok.injEq, ih]
      constructor
      · rintro ⟨event, typed, mid, here, events, others, later⟩
        exact ⟨event :: events, ⟨event, typed, events, others, rfl⟩,
          foldlM_cons_ok.mpr ⟨mid, here, later⟩⟩
      · rintro ⟨_, ⟨event, typed, events, others, rfl⟩, folded⟩
        obtain ⟨mid, here, later⟩ := foldlM_cons_ok.mp folded
        exact ⟨event, typed, mid, here, events, others, later⟩
  rw [together]
  apply exists_congr
  intro events
  apply and_congr_right
  intro _
  constructor
  · intro folded
    exact (foldlM_mapM folded).imp fun _ _ alone => foldlM_applyKeyed.mp alone
  · intro shown
    exact foldlM_together (shown.imp fun _ _ alone => foldlM_applyKeyed.mpr alone)

/-- How the fold query takes a batch, for the common loop, which it never ends early. -/
def takeBatch (codec : Codec V) (folds : List (Nat × FoldEntry T)) (wits : List WitStoredEvent) :
    Except RunError (List (Nat × FoldEntry T) ⊕ Empty) :=
  (runBatch codec folds wits).map Sum.inl

theorem runLoop_takes {tx : Nat} (fuel : Nat) (transactions : Transactions)
    (folds : List (Nat × FoldEntry T)) :
    runLoop codec getKey tx fuel transactions folds =
      (takeBatches codec RunError.host .outOfFuel (takeBatch codec) getKey tx fuel
        transactions folds).map fun ended => (ended.1, ended.2.elim id Empty.elim) := by
  induction fuel generalizing transactions folds with
  | zero => rfl
  | succ fuel ih =>
    rw [runLoop, takeBatches]
    obtain ⟨left, handed⟩ := transactionNextBatch codec getKey transactions tx
    cases handed with
    | error err => rfl
    | ok wits =>
      cases wits with
      | nil => rfl
      | cons first rest =>
        dsimp only
        rw [takeBatch]
        cases runBatch codec folds (first :: rest) with
        | error err => rfl
        | ok mid => exact ih left mid

def Taken (rules : NameRules) (fq : FoldQuery T) (stored : Query) : Prop :=
  ∃ query, fq.query rules = .ok query ∧ (eventQueryOf query).toQuery rules = .ok stored

omit [DecidableEq V] in
theorem taken_covers {rules : NameRules} {fq : FoldQuery T} {stored : Query}
    (keeps : KeepsNames rules) (taken : Taken rules fq stored) {name : T.Name}
    {value : T.Self name} (member : newEntry name value ∈ fq.folds) {event : Event}
    (accepts : matchesFoldQuery (T.fold name) event.eventType event.tags
      (T.domainIds name value) = true) : stored.matches event = true := by
  obtain ⟨query, built, passed⟩ := taken
  obtain ⟨required, found, tagged⟩ := matchesFoldQuery_iff.mp accepts
  obtain ⟨listed, ty⟩ := required_mem found
  rw [toQuery_matches keeps passed]
  apply (buildDcbQuery_matches keeps built event).mpr
  refine ⟨T.domainIds name value, List.mem_map.mpr ⟨_, member, rfl⟩, required, ?_, ty, tagged⟩
  exact fq.registered _ member required listed

theorem run_ok {order : HashOrder} {fq : FoldQuery T} {rules : NameRules} {fuel head : Nat}
    {log : List Event} {transactions : Transactions} {results : List (Extracted T)} :
    (∃ after, run codec order fq rules getKey (fuel + 2) log transactions (.ok head) =
      .ok (after, results)) ↔
    ∃ stored events finals, Taken rules fq stored ∧
      (readUpTo log stored 0 head).mapM (decodeEntry codec getKey) = .ok events ∧
      List.Forall₂ (Shown codec events) (order.arrange (numbered 0 fq.folds)) finals ∧
      extract fq.handles
        (order.arrange (finals.map fun entry => (entry.1, entry.2.state))) = .ok results := by
  constructor
  · rintro ⟨after, ran⟩
    obtain ⟨query, built, rest⟩ := bind_ok.mp ran
    obtain ⟨⟨opened, tx⟩, new, rest⟩ := bind_ok.mp rest
    obtain ⟨⟨left, finals⟩, looped, rest⟩ := bind_ok.mp rest
    obtain ⟨_, extracted, same⟩ := mapped_ok.mp rest
    obtain ⟨_, rfl⟩ := Prod.mk.inj same
    rw [runLoop_takes] at looped
    obtain ⟨⟨_, finished⟩, taken, ends⟩ := mapped_ok.mp looped
    obtain ⟨_, rfl⟩ := Prod.mk.inj ends
    obtain ⟨item, wits, _, passed, _, _, _, handed, batch⟩ :=
      takeBatches_reads (fun _ => rfl) (mapError_ok.mp new) taken
    obtain ⟨finals, shown, rfl⟩ := mapped_ok.mp batch
    obtain ⟨events, typed, ended⟩ := runBatch_ok.mp shown
    exact ⟨item.query, events, finals, ⟨query, mapError_ok.mp built, passed⟩,
      decode_batch (handed head rfl) typed, ended, extracted⟩
  · rintro ⟨stored, events, finals, ⟨query, built, passed⟩, decoded, shown, extracted⟩
    obtain ⟨opened, new⟩ : ∃ opened, transactionNew rules log transactions (eventQueryOf query)
        (.ok head) = .ok (opened, transactions.length) :=
      transactionNew_accepts transactions passed
    obtain ⟨wits, handed, typed⟩ := decode_apart decoded
    have batch : takeBatch codec (order.arrange (numbered 0 fq.folds)) wits =
        .ok (.inl finals) := mapped_ok.mpr ⟨finals, runBatch_ok.mpr ⟨events, typed, shown⟩, rfl⟩
    obtain ⟨left, taken⟩ : ∃ left, takeBatches codec RunError.host .outOfFuel (takeBatch codec)
        getKey transactions.length (fuel + 2) opened (order.arrange (numbered 0 fq.folds)) =
          .ok (left, .inl finals) :=
      takeBatches_returns (fun _ => rfl) new passed handed batch
    have looped : runLoop codec getKey transactions.length (fuel + 2) opened
        (order.arrange (numbered 0 fq.folds)) = .ok (left, finals) := by
      rw [runLoop_takes, taken]
      rfl
    refine ⟨transactionDrop left transactions.length, ?_⟩
    apply bind_ok.mpr
    refine ⟨query, mapError_ok.mpr built, bind_ok.mpr ⟨_, mapError_ok.mpr new, ?_⟩⟩
    exact bind_ok.mpr ⟨_, looped, mapped_ok.mpr ⟨results, extracted, rfl⟩⟩

end loop

section extraction

def boxesOf : Extracted T → List (AnyBox T)
  | .one name state => [⟨T.stateType name, state⟩]
  | .many name states => states.map fun state => ⟨T.stateType name, state⟩

/-- Each registration has a result of its kind, whose states are related to its folds one
    by one. -/
inductive Placed (R : ∀ name, T.Self name → T.State (T.stateType name) → Prop) :
    Registration T → Extracted T → Prop
  | one {name value state} : R name value state → Placed R (.fold name value) (.one name state)
  | many {name values states} : List.Forall₂ (R name) values states →
      Placed R (.foldIter name values) (.many name states)

variable {R : ∀ name, T.Self name → T.State (T.stateType name) → Prop}

theorem placed_imp {S : ∀ name, T.Self name → T.State (T.stateType name) → Prop}
    {registration : Registration T} {result : Extracted T}
    (implies : ∀ name value state, newEntry name value ∈ entriesOf registration →
      R name value state → S name value state)
    (placed : Placed R registration result) : Placed S registration result := by
  cases placed with
  | one here => exact Placed.one (implies _ _ _ List.mem_cons_self here)
  | many related =>
    apply Placed.many
    have among :=
      (List.forall₂_and_left _ _).mpr ⟨fun value (member : value ∈ _) => member, related⟩
    apply among.imp
    rintro value state ⟨member, here⟩
    exact implies _ _ _ (List.mem_map.mpr ⟨value, member, rfl⟩) here

theorem placed_all_imp {S : ∀ name, T.Self name → T.State (T.stateType name) → Prop}
    {registrations : List (Registration T)} {results : List (Extracted T)}
    (implies : ∀ name value state, newEntry name value ∈ registrations.flatMap entriesOf →
      R name value state → S name value state)
    (placed : List.Forall₂ (Placed R) registrations results) :
    List.Forall₂ (Placed S) registrations results := by
  have among := (List.forall₂_and_left _ _).mpr
    ⟨fun registration (member : registration ∈ registrations) => member, placed⟩
  apply among.imp
  rintro registration result ⟨member, here⟩
  apply placed_imp _ here
  intro name value state inside
  exact implies name value state (List.mem_flatMap.mpr ⟨registration, member, inside⟩)

theorem take_numbered {name : T.Name} {state : T.State (T.stateType name)} {n : Nat}
    {boxes : List (AnyBox T)} {states : List (Nat × AnyBox T)}
    (perm : states.Perm (numbered n (⟨T.stateType name, state⟩ :: boxes))) :
    ∃ rest, take name n states = .ok (state, rest) ∧ rest.Perm (numbered (n + 1) boxes) := by
  have distinct : (states.map Prod.fst).Nodup :=
    (perm.map Prod.fst).nodup_iff.mpr (numbered_keys n _)
  have found : states.lookup n = some ⟨T.stateType name, state⟩ :=
    lookup_of_mem distinct (perm.mem_iff.mpr List.mem_cons_self)
  refine ⟨states.filter fun entry => entry.1 ≠ n, ?_, ?_⟩
  · rw [take, found]
    dsimp only
    rw [downcast_box]
  · rw [← numbered_rest]
    exact perm.filter _

theorem takeAll_numbered {name : T.Name} {taken : List (T.State (T.stateType name))} {n : Nat}
    {boxes : List (AnyBox T)} {states : List (Nat × AnyBox T)}
    (perm : states.Perm (numbered n (boxesOf (.many name taken) ++ boxes))) :
    ∃ rest, takeAll name (List.range' n taken.length) states = .ok (taken, rest) ∧
      rest.Perm (numbered (n + taken.length) boxes) := by
  induction taken generalizing n states with
  | nil => exact ⟨states, rfl, perm⟩
  | cons state more ih =>
    obtain ⟨mid, first, left⟩ := take_numbered perm
    obtain ⟨rest, later, remains⟩ := ih left
    refine ⟨rest, ?_, ?_⟩
    · rw [List.length_cons, List.range'_succ, takeAll, first]
      exact mapped_ok.mpr ⟨_, later, rfl⟩
    · rw [List.length_cons, Nat.add_comm more.length 1, ← Nat.add_assoc]
      exact remains

theorem extract_numbered {registrations : List (Registration T)} {results : List (Extracted T)}
    (placed : List.Forall₂ (Placed R) registrations results) {n : Nat}
    {states : List (Nat × AnyBox T)} (perm : states.Perm (numbered n (results.flatMap boxesOf))) :
    extract (handlesFrom n registrations) states = .ok results := by
  induction placed generalizing n states with
  | nil => rfl
  | cons here _ ih =>
    rw [List.flatMap_cons] at perm
    cases here with
    | one _ =>
      obtain ⟨rest, taken, left⟩ := take_numbered perm
      rw [handlesFrom, extract, taken]
      exact mapped_ok.mpr ⟨_, ih left, rfl⟩
    | many related =>
      obtain ⟨rest, taken, left⟩ := takeAll_numbered perm
      rw [handlesFrom, extract, related.length_eq, taken]
      exact mapped_ok.mpr ⟨_, ih left, rfl⟩

end extraction

section results
variable [DecidableEq V] {codec : Codec V}
  {getKey : Nat → Uuid → Except String (Option CryptoKey)}

/-- The state a fold reaches over the items among some events that it accepts. -/
def ReachedFrom (codec : Codec V) (events : List (StoredEvent V)) (name : T.Name)
    (value : T.Self name) (state : T.State (T.stateType name)) : Prop :=
  ∃ items, itemsOf codec (T.fold name)
      (events.filter (accepted T name (T.domainIds name value))) = .ok items ∧
    state = items.foldl (T.apply name value) (T.default name)

/-- The state a fold reaches over exactly those events of the log, in their order, that its
    own domain ids let through, that are not shredded and that are of its event set. -/
def Reached (codec : Codec V) (getKey : Nat → Uuid → Except String (Option CryptoKey))
    (log : List Event) (head : Nat) (name : T.Name) (value : T.Self name)
    (state : T.State (T.stateType name)) : Prop :=
  ∃ shown items, (window (fun event : Event => matchesFoldQuery (T.fold name) event.eventType
        event.tags (T.domainIds name value)) log 0 head).mapM (decodeEntry codec getKey) =
      .ok shown ∧
    itemsOf codec (T.fold name) shown = .ok items ∧
    state = items.foldl (T.apply name value) (T.default name)

def EndsIn (codec : Codec V) (events : List (StoredEvent V)) (entry : FoldEntry T)
    (box : AnyBox T) : Prop :=
  ∃ final, events.foldlM (boxApply codec) entry = .ok final ∧ final.state = box

theorem endsIn_newEntry {events : List (StoredEvent V)} {name : T.Name} {value : T.Self name}
    {box : AnyBox T} :
    EndsIn codec events (newEntry name value) box ↔
      ∃ state, ReachedFrom codec events name value state ∧ ⟨T.stateType name, state⟩ = box := by
  constructor
  · rintro ⟨final, ended, rfl⟩
    obtain ⟨items, found, rfl⟩ := foldlM_entry.mp ended
    exact ⟨_, ⟨items, found, rfl⟩, rfl⟩
  · rintro ⟨_, ⟨items, found, rfl⟩, rfl⟩
    exact ⟨_, foldlM_entry.mpr ⟨items, found, rfl⟩, rfl⟩

theorem endsIn_registration {events : List (StoredEvent V)} {registration : Registration T}
    {boxes : List (AnyBox T)} :
    List.Forall₂ (EndsIn codec events) (entriesOf registration) boxes ↔
      ∃ result, Placed (ReachedFrom codec events) registration result ∧
        boxes = boxesOf result := by
  cases registration with
  | fold name value =>
    rw [entriesOf]
    constructor
    · intro ended
      obtain ⟨box, rest, here, none, rfl⟩ := List.forall₂_cons_left_iff.mp ended
      obtain rfl := List.forall₂_nil_left_iff.mp none
      obtain ⟨state, reached, rfl⟩ := endsIn_newEntry.mp here
      exact ⟨.one name state, Placed.one reached, rfl⟩
    · rintro ⟨_, placed, rfl⟩
      cases placed with
      | one reached =>
        exact List.Forall₂.cons (endsIn_newEntry.mpr ⟨_, reached, rfl⟩) List.Forall₂.nil
  | foldIter name values =>
    rw [entriesOf, List.forall₂_map_left_iff]
    simp only [endsIn_newEntry]
    rw [← forall₂_exists_map]
    constructor
    · rintro ⟨states, reached, rfl⟩
      exact ⟨.many name states, Placed.many reached, rfl⟩
    · rintro ⟨_, placed, rfl⟩
      cases placed with
      | many reached => exact ⟨_, reached, rfl⟩

theorem endsIn_registrations {events : List (StoredEvent V)}
    {registrations : List (Registration T)} {boxes : List (AnyBox T)} :
    List.Forall₂ (EndsIn codec events) (registrations.flatMap entriesOf) boxes ↔
      ∃ results, List.Forall₂ (Placed (ReachedFrom codec events)) registrations results ∧
        boxes = results.flatMap boxesOf := by
  induction registrations generalizing boxes with
  | nil => simp
  | cons first rest ih =>
    rw [List.flatMap_cons, forall₂_append_left]
    constructor
    · rintro ⟨us, vs, here, later, rfl⟩
      obtain ⟨result, placed, rfl⟩ := endsIn_registration.mp here
      obtain ⟨results, others, rfl⟩ := ih.mp later
      exact ⟨result :: results, List.Forall₂.cons placed others, rfl⟩
    · rintro ⟨_, placed, rfl⟩
      obtain ⟨result, results, here, later, rfl⟩ := List.forall₂_cons_left_iff.mp placed
      exact ⟨_, _, endsIn_registration.mpr ⟨result, here, rfl⟩, ih.mpr ⟨results, later, rfl⟩, rfl⟩

theorem shown_arranged {order : HashOrder} {folds : List (FoldEntry T)}
    {events : List (StoredEvent V)} {finals : List (Nat × FoldEntry T)}
    (shown : List.Forall₂ (Shown codec events) (order.arrange (numbered 0 folds)) finals) :
    ∃ boxes, List.Forall₂ (EndsIn codec events) folds boxes ∧
      (order.arrange (finals.map fun entry => (entry.1, entry.2.state))).Perm
        (numbered 0 boxes) := by
  obtain ⟨sorted, inOrder, perm⟩ := List.perm_comp_forall₂ (order.perm _).symm shown
  obtain ⟨ends, rfl, ended⟩ := forall₂_numbered.mp inOrder
  refine ⟨ends.map FoldEntry.state, forall₂_exists_map.mp ⟨ends, ended, rfl⟩, ?_⟩
  rw [numbered_map]
  exact (order.perm _).trans (perm.symm.map _)

theorem arranged_shown (order : HashOrder) {folds : List (FoldEntry T)}
    {events : List (StoredEvent V)} {boxes : List (AnyBox T)}
    (ended : List.Forall₂ (EndsIn codec events) folds boxes) :
    ∃ finals, List.Forall₂ (Shown codec events) (order.arrange (numbered 0 folds)) finals ∧
      (order.arrange (finals.map fun entry => (entry.1, entry.2.state))).Perm
        (numbered 0 boxes) := by
  obtain ⟨ends, alone, rfl⟩ := forall₂_exists_map.mpr ended
  obtain ⟨finals, shown, perm⟩ := List.perm_comp_forall₂ (order.perm (numbered 0 folds))
    (forall₂_numbered.mpr ⟨ends, rfl, alone⟩)
  refine ⟨finals, shown, ?_⟩
  rw [numbered_map]
  exact (order.perm _).trans (perm.map _)

omit [DecidableEq V] in
theorem accepted_read {rules : NameRules} {fq : FoldQuery T} {stored : Query} {log : List Event}
    {head : Nat} {events : List (StoredEvent V)} (keeps : KeepsNames rules)
    (taken : Taken rules fq stored)
    (decoded : (readUpTo log stored 0 head).mapM (decodeEntry codec getKey) = .ok events)
    {name : T.Name} {value : T.Self name} (member : newEntry name value ∈ fq.folds) :
    (window (fun event : Event => matchesFoldQuery (T.fold name) event.eventType event.tags
      (T.domainIds name value)) log 0 head).mapM (decodeEntry codec getKey) =
        .ok (events.filter (accepted T name (T.domainIds name value))) := by
  have narrowed := mapM_filter (p := fun entry : Nat × Event =>
      matchesFoldQuery (T.fold name) entry.2.eventType entry.2.tags (T.domainIds name value))
    (q := accepted T name (T.domainIds name value)) (by
      intro entry event typed
      obtain ⟨sameType, sameTags⟩ := decodeEntry_labels typed
      simp only [accepted, sameType, sameTags]) decoded
  rw [readUpTo, window_filter stored.matches fun event : Event =>
    matchesFoldQuery (T.fold name) event.eventType event.tags (T.domainIds name value)] at narrowed
  rw [← narrowed]
  congr 2
  funext event
  cases accepts : matchesFoldQuery (T.fold name) event.eventType event.tags
      (T.domainIds name value) with
  | false => rw [Bool.and_false]
  | true => rw [taken_covers keeps taken member accepts, Bool.and_self]

theorem reached_iff {rules : NameRules} {fq : FoldQuery T} {stored : Query} {log : List Event}
    {head : Nat} {events : List (StoredEvent V)} (keeps : KeepsNames rules)
    (taken : Taken rules fq stored)
    (decoded : (readUpTo log stored 0 head).mapM (decodeEntry codec getKey) = .ok events)
    {name : T.Name} {value : T.Self name} (member : newEntry name value ∈ fq.folds)
    {state : T.State (T.stateType name)} :
    ReachedFrom codec events name value state ↔
      Reached codec getKey log head name value state := by
  have read := accepted_read keeps taken decoded member
  constructor
  · rintro ⟨items, found, reached⟩
    exact ⟨_, items, read, found, reached⟩
  · rintro ⟨shown, items, again, found, reached⟩
    obtain rfl := Except.ok.inj (read.symm.trans again)
    exact ⟨items, found, reached⟩

/-- The query is taken, and everything that it reads can be read. -/
def Readable (codec : Codec V) (rules : NameRules)
    (getKey : Nat → Uuid → Except String (Option CryptoKey)) (log : List Event) (head : Nat)
    (fq : FoldQuery T) : Prop :=
  ∃ stored events, Taken rules fq stored ∧
    (readUpTo log stored 0 head).mapM (decodeEntry codec getKey) = .ok events

theorem run_placed {rules : NameRules} {order : HashOrder}
    {registrations : List (Registration T)} {fuel head : Nat} {log : List Event}
    {transactions after : Transactions} {results : List (Extracted T)}
    (ran : run codec order (build registrations) rules getKey (fuel + 2) log transactions
      (.ok head) = .ok (after, results)) :
    ∃ stored events, Taken rules (build registrations) stored ∧
      (readUpTo log stored 0 head).mapM (decodeEntry codec getKey) = .ok events ∧
      List.Forall₂ (Placed (ReachedFrom codec events)) registrations results := by
  obtain ⟨stored, events, finals, taken, decoded, shown, extracted⟩ := run_ok.mp ⟨after, ran⟩
  obtain ⟨boxes, ended, perm⟩ := shown_arranged shown
  rw [build_folds] at ended
  obtain ⟨placed, reached, rfl⟩ := endsIn_registrations.mp ended
  rw [build_handles] at extracted
  obtain rfl := Except.ok.inj ((extract_numbered reached perm).symm.trans extracted)
  exact ⟨stored, events, taken, decoded, reached⟩

/-- A fold query returns exactly when it can read its events and each fold reaches a state
    over its own; what it returns is those states, each where its fold was registered. -/
theorem run_returns_iff {rules : NameRules} (keeps : KeepsNames rules) {order : HashOrder}
    {registrations : List (Registration T)} {fuel head : Nat} {log : List Event}
    {transactions : Transactions} {results : List (Extracted T)} :
    (∃ after, run codec order (build registrations) rules getKey (fuel + 2) log transactions
      (.ok head) = .ok (after, results)) ↔
    Readable codec rules getKey log head (build registrations) ∧
      List.Forall₂ (Placed (Reached codec getKey log head)) registrations results := by
  constructor
  · rintro ⟨after, ran⟩
    obtain ⟨stored, events, taken, decoded, reached⟩ := run_placed ran
    refine ⟨⟨stored, events, taken, decoded⟩, placed_all_imp ?_ reached⟩
    intro name value state member
    rw [← build_folds] at member
    exact (reached_iff keeps taken decoded member).mp
  · rintro ⟨⟨stored, events, taken, decoded⟩, reached⟩
    rw [run_ok, build_handles]
    have placed : List.Forall₂ (Placed (ReachedFrom codec events)) registrations results := by
      apply placed_all_imp _ reached
      intro name value state member
      rw [← build_folds] at member
      exact (reached_iff keeps taken decoded member).mpr
    have ended := endsIn_registrations.mpr ⟨results, placed, rfl⟩
    rw [← build_folds] at ended
    obtain ⟨finals, shown, perm⟩ := arranged_shown order ended
    exact ⟨stored, events, finals, taken, decoded, shown, extract_numbered placed perm⟩

end results

section sample
open UmariFoldQueries (countBound countCodec project taskLog)

def countTypes : FoldTypes String where
  Name := Unit
  TypeId := Unit
  sameType := inferInstance
  State := fun _ => Nat
  stateType := fun _ => ()
  Self := fun _ => DomainIdBindings
  Item := fun _ => String
  eventDomainIds := fun _ => [taskInProject]
  domainIdFields := fun _ => ["project_id"]
  domainIds := fun _ binding => binding
  fromEvent := fun _ => (countBound taskInProject ["project_id"]).fromEvent
  default := fun _ => (0 : Nat)
  apply := fun _ _ (count : Nat) _ => count + 1

def lastFirst : HashOrder := ⟨List.reverse, List.reverse_perm⟩

def threeCounts : List (Registration countTypes) :=
  [.fold () (project "p1"), .fold () (project "p2"), .fold () (project "p3")]

def counted (id : String) : Except RunError Nat :=
  ((window (fun event : Event => matchesFoldQuery (countTypes.fold ()) event.eventType event.tags
      (project id)) taskLog 0 3).mapM (decodeEntry countCodec fun _ _ => .ok none)).bind
    fun shown => (itemsOf countCodec (countTypes.fold ()) shown).map List.length

theorem reached_counted (id : String) (count : Nat) (found : counted id = .ok count) :
    Reached countCodec (fun _ _ => .ok none) taskLog 3 (T := countTypes) () (project id)
      count := by
  obtain ⟨shown, read, rest⟩ := bind_ok.mp found
  obtain ⟨items, made, rfl⟩ := mapped_ok.mp rest
  refine ⟨shown, items, read, made, ?_⟩
  have counts : items.foldl (fun count _ => count + 1) 0 = 0 + 1 * items.length :=
    List.foldl_add_const
  rw [Nat.one_mul, Nat.zero_add] at counts
  exact counts.symm

def threeProjects : Query :=
  .items [⟨["task.created"], ["project_id:p1"]⟩, ⟨["task.created"], ["project_id:p2"]⟩,
    ⟨["task.created"], ["project_id:p3"]⟩]

theorem three_counts_readable :
    Readable countCodec plainNames (fun _ _ => .ok none) taskLog 3 (build threeCounts) := by
  have read : ((readUpTo taskLog threeProjects 0 3).mapM
      (decodeEntry countCodec fun _ _ => .ok none)).toOption.isSome = true := by decide +kernel
  obtain ⟨events, decoded⟩ := Option.isSome_iff_exists.mp read
  refine ⟨threeProjects, events, ⟨threeProjects, ?_, ?_⟩, toOption_ok.mp decoded⟩
  · decide +kernel
  · decide +kernel

/-- Two tasks of the first project, one of the second, none of the third: each count in its
    place. -/
theorem three_counts_returned :
    ∃ after, run countCodec lastFirst (build threeCounts) plainNames (fun _ _ => .ok none) 2
      taskLog [] (.ok 3) = .ok (after, [.one () (2 : Nat), .one () (1 : Nat),
        .one () (0 : Nat)]) := by
  apply (run_returns_iff plainNames_keep).mpr
  have one := reached_counted "p1" 2 (by decide +kernel)
  have two := reached_counted "p2" 1 (by decide +kernel)
  have three := reached_counted "p3" 0 (by decide +kernel)
  constructor
  · exact three_counts_readable
  · exact List.Forall₂.cons (Placed.one one) (List.Forall₂.cons (Placed.one two)
      (List.Forall₂.cons (Placed.one three) List.Forall₂.nil))

end sample

end UmariFoldHandles
