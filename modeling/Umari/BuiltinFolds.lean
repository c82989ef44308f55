import Mathlib.Algebra.Group.Nat.Defs
import Mathlib.Data.List.ReduceOption
import Umari.CommandHandles

/-!
The folds that the library brings: `EventFold`, `LatestEvent`, `EventCounter` and
`EventToggle`, each for the events of a guest, next to whatever folds the guest has of its
own. In a run they are boxes among others; what they hold at its end is compared.
-/
namespace UmariBuiltinFolds
open FallibleFolds NumberedLists PositionedLogs
open UmariEventStore UmariStoredEvents UmariTransactions UmariDcbQueries
open UmariFolds hiding boxApply FoldQuery FoldSpec Command
open UmariDcbQueries.DomainIdBindings
open UmariFoldHandles UmariCommandHandles
variable {V : Type}

/-- The `Event` trait; `fromValue` is the type's own deserialization. -/
structure EventType (V : Type) where
  Data : Type
  eventType : String
  domainIdFields : List String
  fromValue : V → Except String Data

def singleDomainIds (E : EventType V) : List EventDomainId :=
  [⟨E.eventType, E.domainIdFields, []⟩]

def singleFromEvent (E : EventType V) (eventType : String) (data : V) :
    Option (Except String E.Data) :=
  if eventType = E.eventType then some (E.fromValue data) else none

def fromDomainIds (fields : List String) (bindings : DomainIdBindings) : DomainIdBindings :=
  bindings.restrict fields

def eventFold (E : EventType V) : Fold V where
  Self := DomainIdBindings
  Item := E.Data
  State := List (StoredEvent E.Data)
  eventDomainIds := singleDomainIds E
  domainIdFields := E.domainIdFields
  domainIds := fun bindings => bindings
  fromEvent := singleFromEvent E
  default := []
  apply := fun _ events event => events ++ [event]

def latestEvent (E : EventType V) : Fold V where
  Self := DomainIdBindings
  Item := E.Data
  State := Option (StoredEvent E.Data)
  eventDomainIds := singleDomainIds E
  domainIdFields := E.domainIdFields
  domainIds := fun bindings => bindings
  fromEvent := singleFromEvent E
  default := none
  apply := fun _ _ event => some event

def eventCounter (E : EventType V) : Fold V where
  Self := DomainIdBindings
  Item := E.Data
  State := BitVec 64
  eventDomainIds := singleDomainIds E
  domainIdFields := E.domainIdFields
  domainIds := fun bindings => bindings
  fromEvent := singleFromEvent E
  default := 0
  apply := fun _ count _ => count + 1

inductive EitherEvent (A B : Type) where
  | a (data : A)
  | b (data : B)

inductive ToggleSide (A B : Type) where
  | a (event : StoredEvent A)
  | b (event : StoredEvent B)

def pairDomainIds (A B : EventType V) : List EventDomainId :=
  [⟨A.eventType, A.domainIdFields, []⟩, ⟨B.eventType, B.domainIdFields, []⟩]

def pairFromEvent (A B : EventType V) (eventType : String) (data : V) :
    Option (Except String (EitherEvent A.Data B.Data)) :=
  if eventType = A.eventType then some ((A.fromValue data).map .a)
  else if eventType = B.eventType then some ((B.fromValue data).map .b)
  else none

def toggleSide {A B : Type} (event : StoredEvent (EitherEvent A B)) : ToggleSide A B :=
  match event.data with
  | .a data => .a { event with data := data }
  | .b data => .b { event with data := data }

def eventToggle (A B : EventType V) : Fold V where
  Self := DomainIdBindings
  Item := EitherEvent A.Data B.Data
  State := Option (ToggleSide A.Data B.Data)
  eventDomainIds := pairDomainIds A B
  domainIdFields := A.domainIdFields
  domainIds := fun bindings => bindings
  fromEvent := pairFromEvent A B
  default := none
  apply := fun _ _ event => some (toggleSide event)

structure Events (V : Type) where
  Name : Type
  decEq : DecidableEq Name
  event : Name → EventType V

instance (events : Events V) : DecidableEq events.Name := events.decEq

inductive BuiltIn (Name : Type) where
  | eventFold (event : Name)
  | latestEvent (event : Name)
  | eventCounter (event : Name)
  | eventToggle (a b : Name)

inductive StateType (Name : Type) where
  | events (event : Name)
  | latest (event : Name)
  | count
  | toggle (a b : Name)
deriving DecidableEq

section types
variable (events : Events V)

def StateType.State : StateType events.Name → Type
  | .events event => (eventFold (events.event event)).State
  | .latest event => (latestEvent (events.event event)).State
  | .count => BitVec 64
  | .toggle a b => (eventToggle (events.event a) (events.event b)).State

def BuiltIn.stateType : BuiltIn events.Name → StateType events.Name
  | .eventFold event => .events event
  | .latestEvent event => .latest event
  | .eventCounter _ => .count
  | .eventToggle a b => .toggle a b

def BuiltIn.fold : BuiltIn events.Name → Fold V
  | .eventFold event => UmariBuiltinFolds.eventFold (events.event event)
  | .latestEvent event => UmariBuiltinFolds.latestEvent (events.event event)
  | .eventCounter event => UmariBuiltinFolds.eventCounter (events.event event)
  | .eventToggle a b => UmariBuiltinFolds.eventToggle (events.event a) (events.event b)

def foldTypes (others : FoldTypes V) : FoldTypes V where
  Name := BuiltIn events.Name ⊕ others.Name
  TypeId := StateType events.Name ⊕ others.TypeId
  sameType := inferInstance
  State := Sum.elim (StateType.State events) others.State
  stateType := Sum.map (BuiltIn.stateType events) others.stateType
  Self := Sum.elim (fun _ => DomainIdBindings) others.Self
  Item := Sum.elim (fun name => (name.fold events).Item) others.Item
  eventDomainIds := Sum.elim (fun name => (name.fold events).eventDomainIds) others.eventDomainIds
  domainIdFields := Sum.elim (fun name => (name.fold events).domainIdFields) others.domainIdFields
  domainIds
    | .inl _ => fun bindings => bindings
    | .inr name => others.domainIds name
  fromEvent
    | .inl name => (name.fold events).fromEvent
    | .inr name => others.fromEvent name
  default
    | .inl (.eventFold event) => (UmariBuiltinFolds.eventFold (events.event event)).default
    | .inl (.latestEvent event) => (UmariBuiltinFolds.latestEvent (events.event event)).default
    | .inl (.eventCounter event) => (UmariBuiltinFolds.eventCounter (events.event event)).default
    | .inl (.eventToggle a b) =>
      (UmariBuiltinFolds.eventToggle (events.event a) (events.event b)).default
    | .inr name => others.default name
  apply
    | .inl (.eventFold event) => (UmariBuiltinFolds.eventFold (events.event event)).apply
    | .inl (.latestEvent event) => (UmariBuiltinFolds.latestEvent (events.event event)).apply
    | .inl (.eventCounter event) => (UmariBuiltinFolds.eventCounter (events.event event)).apply
    | .inl (.eventToggle a b) =>
      (UmariBuiltinFolds.eventToggle (events.event a) (events.event b)).apply
    | .inr name => others.apply name

end types

section filters

def tagged (fields : List String) (bindings : DomainIdBindings) (tags : List String) : Bool :=
  fields.all fun field =>
    match bindings.get field with
    | none => true
    | some value => hasTag tags field value

def occurs (E : EventType V) (bindings : DomainIdBindings) (eventType : String)
    (tags : List String) : Bool :=
  decide (eventType = E.eventType) && tagged E.domainIdFields bindings tags

theorem tagged_congr {fields others : List String} {bindings binding : DomainIdBindings}
    (same : ∀ field, field ∈ fields ↔ field ∈ others)
    (bound : ∀ field ∈ fields, binding.get field = bindings.get field) (tags : List String) :
    tagged others binding tags = tagged fields bindings tags := by
  rw [Bool.eq_iff_iff, tagged, tagged, List.all_eq_true, List.all_eq_true]
  constructor
  · intro all field listed
    rw [← bound field listed]
    exact all field ((same field).mp listed)
  · intro all field listed
    rw [bound field ((same field).mpr listed)]
    exact all field ((same field).mpr listed)

theorem matches_single {F : Fold V} {E : EventType V}
    (single : F.eventDomainIds = singleDomainIds E) (eventType : String) (tags : List String)
    (bindings : DomainIdBindings) :
    matchesFoldQuery F eventType tags bindings = occurs E bindings eventType tags := by
  unfold matchesFoldQuery occurs Fold.required
  rw [single, singleDomainIds]
  by_cases same : eventType = E.eventType
  · simp only [List.find?, same, beq_self_eq_true, List.all_nil, Bool.and_true, decide_true,
      Bool.true_and]
    rfl
  · have other : (E.eventType == eventType) = false := beq_eq_false_iff_ne.mpr (Ne.symm same)
    simp [List.find?, same, other]

theorem matches_toggle {A B : EventType V} (different : A.eventType ≠ B.eventType)
    (eventType : String) (tags : List String) (bindings : DomainIdBindings) :
    matchesFoldQuery (eventToggle A B) eventType tags bindings =
      (occurs A bindings eventType tags || occurs B bindings eventType tags) := by
  unfold matchesFoldQuery occurs Fold.required
  rw [eventToggle, pairDomainIds]
  by_cases first : eventType = A.eventType
  · subst first
    simp only [List.find?, beq_self_eq_true, List.all_nil, Bool.and_true, decide_true,
      Bool.true_and, different, decide_false, Bool.false_and, Bool.or_false]
    rfl
  · have other : (A.eventType == eventType) = false := beq_eq_false_iff_ne.mpr (Ne.symm first)
    by_cases second : eventType = B.eventType
    · subst second
      simp only [List.find?, other, beq_self_eq_true, List.all_nil, Bool.and_true, decide_true,
        Bool.true_and, first, decide_false, Bool.false_and, Bool.false_or]
      rfl
    · have neither : (B.eventType == eventType) = false :=
        beq_eq_false_iff_ne.mpr (Ne.symm second)
      simp [List.find?, first, second, other, neither]

end filters

section items
variable [DecidableEq V] {codec : Codec V} {F : Fold V} {event : StoredEvent V}
  {rest : List (StoredEvent V)} {keep : StoredEvent V → Bool}

theorem items_skipped (skipped : shredded codec event = true ∨ keep event = false) :
    itemsOf codec F ((event :: rest).filter keep) = itemsOf codec F (rest.filter keep) := by
  cases kept : keep event with
  | false => rw [List.filter_cons_of_neg (by simp [kept])]
  | true =>
    rw [List.filter_cons_of_pos kept]
    exact itemsOf_shredded (skipped.resolve_right (by simp [kept]))

theorem items_taken {items : List (StoredEvent F.Item)} (readable : shredded codec event = false)
    (kept : keep event = true) :
    itemsOf codec F ((event :: rest).filter keep) = .ok items ↔
      ∃ variant tail, variantOf F event = .ok variant ∧
        itemsOf codec F (rest.filter keep) = .ok tail ∧ items = variant.toList ++ tail := by
  rw [List.filter_cons_of_pos kept, itemsOf_readable readable]

theorem items_readable {events : List (StoredEvent V)} :
    itemsOf codec F ((events.filter fun event => !shredded codec event).filter keep) =
      itemsOf codec F (events.filter keep) := by
  rw [List.filter_comm, itemsOf, itemsOf, List.filter_filter]
  simp

omit [DecidableEq V] in
theorem variant_read {result : Except String F.Item} {variant : Option (StoredEvent F.Item)}
    (own : F.fromEvent event.eventType event.data = some result)
    (read : variantOf F event = .ok variant) :
    ∃ data, result = .ok data ∧ variant = some { event with data := data } := by
  rw [variantOf, own] at read
  cases result with
  | error err => exact absurd read (by simp)
  | ok data => exact ⟨data, rfl, (Except.ok.inj read).symm⟩

omit [DecidableEq V] in
theorem fromEvent_first {A B : EventType V} {eventType : String} (own : eventType = A.eventType)
    (data : V) : pairFromEvent A B eventType data = some ((A.fromValue data).map .a) :=
  if_pos own

omit [DecidableEq V] in
theorem fromEvent_second {A B : EventType V} (different : A.eventType ≠ B.eventType)
    {eventType : String} (own : eventType = B.eventType) (data : V) :
    pairFromEvent A B eventType data = some ((B.fromValue data).map .b) := by
  rw [pairFromEvent, if_neg (fun other => different (other.symm.trans own)), if_pos own]

end items

section relations

inductive Later {A B : Type} :
    Option (StoredEvent A) → Option (StoredEvent B) → Option (ToggleSide A B) → Prop
  | none : Later none none none
  | a {x : StoredEvent A} {b : Option (StoredEvent B)}
      (later : ∀ y, b = some y → y.position < x.position) : Later (some x) b (some (.a x))
  | b {y : StoredEvent B} {a : Option (StoredEvent A)}
      (later : ∀ x, a = some x → x.position < y.position) : Later a (some y) (some (.b y))

variable [DecidableEq V] {codec : Codec V} {A B : EventType V}

theorem toggle_later (different : A.eventType ≠ B.eventType) {keepA keepB : StoredEvent V → Bool}
    (ownA : ∀ event, keepA event = true → event.eventType = A.eventType)
    (ownB : ∀ event, keepB event = true → event.eventType = B.eventType)
    {events : List (StoredEvent V)}
    (ascending : events.Pairwise fun x y => x.position < y.position)
    {as : List (StoredEvent A.Data)} {bs : List (StoredEvent B.Data)}
    {sides : List (StoredEvent (EitherEvent A.Data B.Data))}
    (readA : itemsOf codec (latestEvent A) (events.filter keepA) = .ok as)
    (readB : itemsOf codec (latestEvent B) (events.filter keepB) = .ok bs)
    (readBoth : itemsOf codec (eventToggle A B)
      (events.filter fun event => keepA event || keepB event) = .ok sides)
    {a : Option (StoredEvent A.Data)} {b : Option (StoredEvent B.Data)}
    {last : Option (ToggleSide A.Data B.Data)} (start : Later a b last)
    (belowA : ∀ x, a = some x → ∀ event ∈ events, x.position < event.position)
    (belowB : ∀ y, b = some y → ∀ event ∈ events, y.position < event.position) :
    Later (as.foldl (fun _ event => some event) a) (bs.foldl (fun _ event => some event) b)
      (sides.foldl (fun _ event => some (toggleSide event)) last) := by
  induction events generalizing as bs sides a b last with
  | nil =>
    obtain rfl := Except.ok.inj readA
    obtain rfl := Except.ok.inj readB
    obtain rfl := Except.ok.inj readBoth
    exact start
  | cons event rest ih =>
    obtain ⟨above, tail⟩ := List.pairwise_cons.mp ascending
    have restA := fun x held later member => belowA x held later (List.mem_cons_of_mem event member)
    have restB := fun y held later member => belowB y held later (List.mem_cons_of_mem event member)
    have hereA := fun x held => belowA x held event List.mem_cons_self
    have hereB := fun y held => belowB y held event List.mem_cons_self
    cases gone : shredded codec event with
    | true =>
      rw [items_skipped (Or.inl gone)] at readA readB readBoth
      exact ih tail readA readB readBoth start restA restB
    | false =>
      cases keptA : keepA event with
      | true =>
        have own := ownA event keptA
        have notB : keepB event = false := by
          by_contra kept
          exact different (own.symm.trans (ownB event (by simpa using kept)))
        rw [items_skipped (Or.inr notB)] at readB
        obtain ⟨_, moreA, single, laterA, rfl⟩ := (items_taken gone keptA).mp readA
        obtain ⟨_, more, side, laterBoth, rfl⟩ :=
          (items_taken gone (by rw [keptA, Bool.true_or])).mp readBoth
        obtain ⟨data, parsed, rfl⟩ := variant_read (if_pos own) single
        obtain ⟨_, made, rfl⟩ := variant_read (fromEvent_first own _) side
        rw [parsed] at made
        obtain rfl := Except.ok.inj made
        apply ih tail laterA readB laterBoth (Later.a hereB) _ restB
        rintro x ⟨⟩
        exact above
      | false =>
        rw [items_skipped (Or.inr keptA)] at readA
        cases keptB : keepB event with
        | true =>
          have own := ownB event keptB
          obtain ⟨_, moreB, single, laterB, rfl⟩ := (items_taken gone keptB).mp readB
          obtain ⟨_, more, side, laterBoth, rfl⟩ :=
            (items_taken gone (by rw [keptB, Bool.or_true])).mp readBoth
          obtain ⟨data, parsed, rfl⟩ := variant_read (if_pos own) single
          obtain ⟨_, made, rfl⟩ := variant_read (fromEvent_second different own _) side
          rw [parsed] at made
          obtain rfl := Except.ok.inj made
          apply ih tail readA laterB laterBoth (Later.b hereA) restA
          rintro y ⟨⟩
          exact above
        | false =>
          rw [items_skipped (Or.inr keptB)] at readB
          rw [items_skipped (Or.inr (by rw [keptA, keptB, Bool.or_false]))] at readBoth
          exact ih tail readA readB readBoth start restA restB

theorem foldl_collect {α : Type} (items : List α) :
    items.foldl (fun all item => all ++ [item]) [] = items := by
  rw [List.foldl_append_eq_append, ← List.flatMap_def, List.flatMap_singleton', List.nil_append]

theorem foldl_latest {α : Type} (items : List α) :
    items.foldl (fun _ item => some item) none = items.getLast? := by
  rcases List.eq_nil_or_concat' items with rfl | ⟨earlier, last, rfl⟩
  · rfl
  · rw [List.foldl_concat, List.getLast?_concat]

theorem foldl_count {α : Type} (items : List α) :
    items.foldl (fun count _ => count + 1) (0 : BitVec 64) = BitVec.ofNat 64 items.length := by
  have counted : items.foldl (fun count _ => count + 1) (BitVec.ofNat 64 0) =
      BitVec.ofNat 64 (items.foldl (fun count _ => count + 1) 0) :=
    List.foldl_hom (BitVec.ofNat 64) fun count _ => (BitVec.ofNat_add count 1).symm
  rw [List.foldl_add_const, Nat.one_mul, Nat.zero_add] at counted
  exact counted

end relations

section positions
variable {codec : Codec V} {getKey : Nat → Uuid → Except String (Option CryptoKey)}

theorem decodeEntry_position {entry : Nat × Event} {event : StoredEvent V}
    (small : entry.1 < 2 ^ 64) (decoded : decodeEntry codec getKey entry = .ok event) :
    event.position = entry.1 := by
  obtain ⟨wit, handed, typed⟩ := do_ok.mp decoded
  have sent : wit.position = asI64 entry.1 := by
    have made := mapError_ok.mp handed
    simp only [batchEntry, do_ok, pure, Except.pure, Except.ok.injEq] at made
    obtain ⟨_, _, _, _, rfl⟩ := made
    rfl
  simp only [guestEvent, do_ok, pure, Except.pure, Except.ok.injEq] at typed
  obtain ⟨_, _, position, parsed, _, _, _, _, _, _, _, _, _, _, _, _, rfl⟩ := typed
  unfold parsePosition at parsed
  split at parsed
  · rename_i nonneg
    obtain rfl := Except.ok.inj parsed
    dsimp only
    rw [sent, asI64] at nonneg ⊢
    have value := BitVec.toInt_eq_toNat_cond (BitVec.ofNat 64 entry.1)
    rw [BitVec.toNat_ofNat, Nat.mod_eq_of_lt small] at value
    omega
  · exact absurd parsed (by simp)

theorem read_positions {query : Query} {log : List Event} {head : Nat}
    {events : List (StoredEvent V)} (small : head < 2 ^ 64)
    (decoded : (readUpTo log query 0 head).mapM (decodeEntry codec getKey) = .ok events) :
    (events.Pairwise fun x y => x.position < y.position) ∧ events.length ≤ head := by
  have related := mapM_ok.mp decoded
  have within : ∀ entry ∈ readUpTo log query 0 head, entry.1 < 2 ^ 64 := by
    rintro ⟨p, e⟩ member
    exact Nat.lt_of_le_of_lt (mem_window.mp member).2.2.1 small
  constructor
  · have ascending := window_ascending query.matches log 0 head
    rw [← readUpTo] at ascending
    have aligned : List.Forall₂ Eq ((readUpTo log query 0 head).map (·.1))
        (events.map (·.position)) := by
      rw [List.forall₂_map_left_iff, List.forall₂_map_right_iff]
      apply ((List.forall₂_and_left _ _).mpr ⟨within, related⟩).imp
      rintro entry event ⟨low, here⟩
      exact (decodeEntry_position low here).symm
    rw [List.forall₂_eq_eq_eq] at aligned
    apply List.pairwise_map.mp
    rw [← aligned]
    exact List.pairwise_map.mpr ascending
  · rw [← related.length_eq]
    exact window_length query.matches log 0 head

end positions

section agreement
variable [DecidableEq V] {codec : Codec V} {events : Events V} {others : FoldTypes V}

abbrev BuiltInState (events : Events V) (others : FoldTypes V) (name : BuiltIn events.Name) :
    Type :=
  (foldTypes events others).State ((foldTypes events others).stateType (.inl name))

/-- How the states that folds of the same bindings ended with in one run are related. -/
structure Agree (given : ∀ name, BuiltInState events others name → Prop) : Prop where
  counted : ∀ event (count : BitVec 64) (all : List (StoredEvent (events.event event).Data)),
    given (.eventCounter event) count → given (.eventFold event) all → count.toNat = all.length
  latest : ∀ event (last : Option (StoredEvent (events.event event).Data))
    (all : List (StoredEvent (events.event event).Data)),
    given (.latestEvent event) last → given (.eventFold event) all →
      last = all.getLast? ∧ (last = none ↔ all = [])
  toggled : ∀ a b (lastA : Option (StoredEvent (events.event a).Data))
    (lastB : Option (StoredEvent (events.event b).Data))
    (last : Option (ToggleSide (events.event a).Data (events.event b).Data)),
    (events.event a).eventType ≠ (events.event b).eventType →
    (∀ field, field ∈ (events.event a).domainIdFields ↔
      field ∈ (events.event b).domainIdFields) →
    given (.latestEvent a) lastA → given (.latestEvent b) lastB →
    given (.eventToggle a b) last → Later lastA lastB last

/-- The state is reached over events that the fold accepts under bindings which have the
    given values in the fold's fields. -/
def ReachedBy (codec : Codec V) (read : List (StoredEvent V)) (bindings : DomainIdBindings)
    (name : BuiltIn events.Name) (state : BuiltInState events others name) : Prop :=
  ∃ binding value,
    (∀ field ∈ (name.fold events).domainIdFields, binding.get field = bindings.get field) ∧
    ReachedUnder (T := foldTypes events others) codec read (.inl name) binding value state

variable {read : List (StoredEvent V)} {bindings binding : DomainIdBindings}

omit [DecidableEq V] in
theorem accepted_single {name : BuiltIn events.Name} {E : EventType V}
    (single : (name.fold events).eventDomainIds = singleDomainIds E)
    (bound : ∀ field ∈ E.domainIdFields, binding.get field = bindings.get field) :
    accepted (foldTypes events others) (.inl name) binding =
      fun event => occurs E bindings event.eventType event.tags := by
  funext event
  refine (matches_single single _ _ _).trans ?_
  rw [occurs, tagged_congr (fun _ => Iff.rfl) bound, occurs]

omit [DecidableEq V] in
theorem variant_shared {E : EventType V} (event : StoredEvent V) :
    variantOf (eventFold E) event = variantOf (latestEvent E) event ∧
      variantOf (eventCounter E) event = variantOf (latestEvent E) event := by
  unfold variantOf
  dsimp only [eventFold, latestEvent, eventCounter]
  cases singleFromEvent E event.eventType event.data with
  | none => exact ⟨rfl, rfl⟩
  | some result => cases result <;> exact ⟨rfl, rfl⟩

theorem itemsOf_shared {E : EventType V} (shown : List (StoredEvent V)) :
    itemsOf codec (eventFold E) shown = itemsOf codec (latestEvent E) shown ∧
      itemsOf codec (eventCounter E) shown = itemsOf codec (latestEvent E) shown := by
  constructor
  · exact congrArg (Except.map List.reduceOption ∘ fun variant => List.mapM variant _)
      (funext fun event => (variant_shared event).1)
  · exact congrArg (Except.map List.reduceOption ∘ fun variant => List.mapM variant _)
      (funext fun event => (variant_shared event).2)

theorem eventFold_reached {event : events.Name}
    {all : List (StoredEvent (events.event event).Data)}
    (reached : @ReachedBy V _ events others codec read bindings (.eventFold event) all) :
    itemsOf codec (latestEvent (events.event event)) (read.filter fun stored =>
      occurs (events.event event) bindings stored.eventType stored.tags) = .ok all := by
  obtain ⟨binding, value, bound, items, found, ended⟩ := reached
  rw [accepted_single rfl bound] at found
  have same : all = items := ended.trans (foldl_collect items)
  rw [same, ← (itemsOf_shared _).1]
  exact found

theorem latestEvent_reached {event : events.Name}
    {last : Option (StoredEvent (events.event event).Data)}
    (reached : @ReachedBy V _ events others codec read bindings (.latestEvent event) last) :
    ∃ items, itemsOf codec (latestEvent (events.event event)) (read.filter fun stored =>
        occurs (events.event event) bindings stored.eventType stored.tags) = .ok items ∧
      last = items.foldl (fun _ item => some item) none := by
  obtain ⟨binding, value, bound, items, found, ended⟩ := reached
  rw [accepted_single rfl bound] at found
  exact ⟨items, found, ended⟩

theorem eventCounter_reached {event : events.Name} {count : BitVec 64}
    (reached : @ReachedBy V _ events others codec read bindings (.eventCounter event) count) :
    ∃ items, itemsOf codec (latestEvent (events.event event)) (read.filter fun stored =>
        occurs (events.event event) bindings stored.eventType stored.tags) = .ok items ∧
      count = BitVec.ofNat 64 items.length := by
  obtain ⟨binding, value, bound, items, found, ended⟩ := reached
  rw [accepted_single rfl bound] at found
  exact ⟨items, (itemsOf_shared _).2.symm.trans found, ended.trans (foldl_count items)⟩

theorem eventToggle_reached {a b : events.Name}
    (different : (events.event a).eventType ≠ (events.event b).eventType)
    (same : ∀ field, field ∈ (events.event a).domainIdFields ↔
      field ∈ (events.event b).domainIdFields)
    {last : Option (ToggleSide (events.event a).Data (events.event b).Data)}
    (reached : @ReachedBy V _ events others codec read bindings (.eventToggle a b) last) :
    ∃ items, itemsOf codec (eventToggle (events.event a) (events.event b))
        (read.filter fun stored =>
          occurs (events.event a) bindings stored.eventType stored.tags ||
            occurs (events.event b) bindings stored.eventType stored.tags) = .ok items ∧
      last = items.foldl (fun _ item => some (toggleSide item)) none := by
  obtain ⟨binding, value, bound, items, found, ended⟩ := reached
  have accepts : accepted (foldTypes events others) (.inl (.eventToggle a b)) binding =
      fun stored => occurs (events.event a) bindings stored.eventType stored.tags ||
        occurs (events.event b) bindings stored.eventType stored.tags := by
    funext stored
    have own : ∀ tags, tagged (events.event a).domainIdFields binding tags =
        tagged (events.event a).domainIdFields bindings tags :=
      tagged_congr (fun _ => Iff.rfl) bound
    have other : ∀ tags, tagged (events.event b).domainIdFields binding tags =
        tagged (events.event b).domainIdFields bindings tags :=
      tagged_congr (fun _ => Iff.rfl) fun field listed => bound field ((same field).mpr listed)
    refine (matches_toggle different _ _ _).trans ?_
    rw [occurs, occurs, own, other, occurs, occurs]
  rw [accepts] at found
  exact ⟨items, found, ended⟩

theorem itemsOf_length {F : Fold V} {keep : StoredEvent V → Bool}
    {items : List (StoredEvent F.Item)} (found : itemsOf codec F (read.filter keep) = .ok items) :
    items.length ≤ read.length := by
  obtain ⟨variants, made, rfl⟩ := mapped_ok.mp found
  calc variants.reduceOption.length
      ≤ variants.length := List.reduceOption_length_le variants
    _ = ((read.filter keep).filter fun event => !shredded codec event).length :=
        (mapM_ok.mp made).length_eq.symm
    _ ≤ (read.filter keep).length := List.length_filter_le _ _
    _ ≤ read.length := List.length_filter_le _ _

theorem agree_of_reached (ascending : read.Pairwise fun x y => x.position < y.position)
    (short : read.length < 2 ^ 64) {given : ∀ name, BuiltInState events others name → Prop}
    (reached : ∀ name state, given name state → ReachedBy codec read bindings name state) :
    Agree given := by
  constructor
  · intro event count all counter fold
    obtain ⟨items, found, rfl⟩ := eventCounter_reached (reached _ _ counter)
    obtain rfl := Except.ok.inj (found.symm.trans (eventFold_reached (reached _ _ fold)))
    have few := itemsOf_length found
    rw [BitVec.toNat_ofNat]
    exact Nat.mod_eq_of_lt (Nat.lt_of_le_of_lt few short)
  · intro event last all latest fold
    obtain ⟨items, found, rfl⟩ := latestEvent_reached (reached _ _ latest)
    obtain rfl := Except.ok.inj (found.symm.trans (eventFold_reached (reached _ _ fold)))
    rw [foldl_latest]
    exact ⟨rfl, List.getLast?_eq_none_iff⟩
  · intro a b lastA lastB last different same first second toggle
    obtain ⟨as, readA, rfl⟩ := latestEvent_reached (reached _ _ first)
    obtain ⟨bs, readB, rfl⟩ := latestEvent_reached (reached _ _ second)
    obtain ⟨sides, readBoth, rfl⟩ := eventToggle_reached different same (reached _ _ toggle)
    have own : ∀ (event : events.Name) (stored : StoredEvent V),
        occurs (events.event event) bindings stored.eventType stored.tags = true →
          stored.eventType = (events.event event).eventType := by
      intro event stored occurred
      simp only [occurs, Bool.and_eq_true, decide_eq_true_eq] at occurred
      exact occurred.1
    exact toggle_later different (own a) (own b) ascending readA readB readBoth Later.none
      nofun nofun

end agreement

section runs
variable [DecidableEq V] {events : Events V} {others : FoldTypes V} {I : Type}

/-- A fold of the library made from some bindings; only `EventFold` can also take them as
    they are. -/
inductive Made (bindings : DomainIdBindings) : BuiltIn events.Name → DomainIdBindings → Prop
  | fromDomainIds (name) :
      Made bindings name (fromDomainIds (name.fold events).domainIdFields bindings)
  | new (event) : Made bindings (.eventFold event) bindings

omit [DecidableEq V] in
theorem made_bound {bindings value : DomainIdBindings} {name : BuiltIn events.Name}
    (made : Made bindings name value) :
    ∀ field ∈ (name.fold events).domainIdFields, value.get field = bindings.get field := by
  intro field listed
  cases made with
  | fromDomainIds => rw [fromDomainIds, get_restrict, if_pos listed]
  | new => rfl

inductive Handed {T : FoldTypes V} (name : T.Name) (value : T.Self name)
    (state : T.State (T.stateType name)) : Registration T → Extracted T → Prop
  | one : Handed name value state (.fold name value) (.one name state)
  | many {values states} (i : Nat) : values[i]? = some value → states[i]? = some state →
      Handed name value state (.foldIter name values) (.many name states)

/-- What a fold query returned for the folds of the library made from some bindings. -/
def Returned (registrations : List (Registration (foldTypes events others)))
    (results : List (Extracted (foldTypes events others))) (bindings : DomainIdBindings)
    (name : BuiltIn events.Name) (state : BuiltInState events others name) : Prop :=
  ∃ value, Made bindings name value ∧ ∃ (n : Nat) (registration : _) (result : _),
    registrations[n]? = some registration ∧ results[n]? = some result ∧
      Handed (T := foldTypes events others) (.inl name) value state registration result

def Given (specs : List (UmariCommandHandles.FoldSpec (foldTypes events others) I))
    (results : List (Extracted (foldTypes events others))) (name : BuiltIn events.Name)
    (state : BuiltInState events others name) : Prop :=
  ∃ (n : Nat) (make : _), specs[n]? = some ⟨.inl name, make⟩ ∧
    results[n]? = some (.one (.inl name) state)

omit [DecidableEq V] in
theorem placed_handed {T : FoldTypes V}
    {R : ∀ name, T.Self name → T.State (T.stateType name) → Prop} {name : T.Name}
    {value : T.Self name} {state : T.State (T.stateType name)} {registration : Registration T}
    {result : Extracted T} (placed : Placed R registration result)
    (handed : Handed name value state registration result) : R name value state := by
  cases handed with
  | one =>
    cases placed with
    | one here => exact here
  | many i left right =>
    cases placed with
    | many related => exact forall₂_entry related left right

/-- What happens to the events that a run read by its own query, less those that were
    shredded. -/
def OverReadable (codec : Codec V) (getKey : Nat → Uuid → Except String (Option CryptoKey))
    (log : List Event) (head : Nat) (own : Query → Prop) (P : List (StoredEvent V) → Prop) :
    Prop :=
  ∃ stored read, own stored ∧
    (readUpTo log stored 0 head).mapM (decodeEntry codec getKey) = .ok read ∧
    P (read.filter fun event => !shredded codec event)

/-- In one run of a fold query or of a command, with any other folds in it, the folds of the
    library agree, and no fold's state depends on shredded events. -/
theorem builtin_folds_agree (codec : Codec V) (rules : NameRules)
    (getKey : Nat → Uuid → Except String (Option CryptoKey)) (order : HashOrder) {head : Nat}
    (small : head < 2 ^ 64) :
    (∀ registrations fuel log transactions after results,
      UmariFoldHandles.run (T := foldTypes events others) codec order (build registrations) rules
        getKey (fuel + 2) log transactions (.ok head) = .ok (after, results) →
      (∀ bindings, Agree (Returned registrations results bindings)) ∧
        OverReadable codec getKey log head (Taken rules (build registrations)) fun read =>
          List.Forall₂ (Placed (ReachedFrom codec read)) registrations results) ∧
    (∀ (input : I) inputDomainIds key specs fuel log transactions after tx results,
      UmariCommandHandles.run (T := foldTypes events others) codec order
        (Command.build input inputDomainIds key specs) rules getKey (fuel + 2) log transactions
        (.ok head) = .ok (after, tx, some results) →
      Agree (Given specs results) ∧
        OverReadable codec getKey log head
          (Asks rules (Command.build input inputDomainIds key specs)) fun read =>
          List.Forall₂ (Ends codec (Command.build input inputDomainIds key specs) read) specs
            results) := by
  constructor
  · intro registrations fuel log transactions after results ran
    obtain ⟨stored, read, taken, decoded, placed⟩ := run_placed ran
    obtain ⟨ascending, few⟩ := read_positions small decoded
    constructor
    · intro bindings
      have reached : ∀ name state, Returned registrations results bindings name state →
          ReachedBy codec read bindings name state := by
        rintro name state ⟨value, made, n, registration, result, left, right, handed⟩
        have here := placed_handed (forall₂_entry placed left right) handed
        exact ⟨value, value, made_bound made, here⟩
      exact agree_of_reached ascending (Nat.lt_of_le_of_lt few small) reached
    · refine ⟨stored, read, taken, decoded, placed.imp fun _ _ here => placed_imp ?_ here⟩
      rintro name value state _ ⟨items, found, rfl⟩
      exact ⟨items, items_readable.trans found, rfl⟩
  · intro input inputDomainIds key specs fuel log transactions after tx results ran
    obtain ⟨stored, read, asks, decoded, ends⟩ := run_ends ran
    obtain ⟨ascending, few⟩ := read_positions small decoded
    constructor
    · have reached : ∀ name state, Given specs results name state →
          ReachedBy codec read (inputDomainIds input) name state := by
        rintro name state ⟨n, make, left, right⟩
        obtain ⟨value, _, _, same, here⟩ := forall₂_entry ends left right
        obtain ⟨_, rfl⟩ := Extracted.one.inj same
        refine ⟨_, value, ?_, here⟩
        intro field listed
        have bindings : (Command.build input inputDomainIds key specs).bindings =
            inputDomainIds input := (foldl_register specs _).1
        exact ((get_restrict _ _ _).trans (if_pos listed)).trans (congrArg (·.get field) bindings)
      exact agree_of_reached ascending (Nat.lt_of_le_of_lt few small) reached
    · refine ⟨stored, read, asks, decoded, ends.imp ?_⟩
      rintro spec result ⟨value, state, made, same, items, found, rfl⟩
      exact ⟨value, _, made, same, items, items_readable.trans found, rfl⟩

end runs

section sample
open UmariFoldQueries (countCodec created project)

def taskEvents : Events String where
  Name := Bool
  decEq := inferInstance
  event closes := ⟨String, if closes then "task.closed" else "task.created", ["project_id"], .ok⟩

def closed (id : String) : Event := { created id with eventType := "task.closed" }

def closingLog : List Event := [created "p1", closed "p1", created "p2", created "p1"]

/-- The built-in folds of one project and, among them, the guest's own of the other one. -/
def builtInFolds : List (Registration (foldTypes taskEvents countTypes)) :=
  [.fold (.inl (.eventFold false)) (project "p1"),
    .fold (.inl (.eventCounter false)) (project "p1"), .fold (.inr ()) (project "p2"),
    .fold (.inl (.latestEvent false)) (project "p1"),
    .fold (.inl (.latestEvent true)) (project "p1"),
    .fold (.inl (.eventToggle true false)) (project "p1")]

def togglePosition {A B : Type} : ToggleSide A B → Nat
  | .a event => event.position
  | .b event => event.position

def inState : Extracted (foldTypes taskEvents countTypes) → List Nat
  | .one (.inl (.eventFold _)) events => List.map StoredEvent.position events
  | .one (.inl (.latestEvent _)) last => (Option.toList last).map StoredEvent.position
  | .one (.inl (.eventCounter _)) count => [BitVec.toNat count]
  | .one (.inl (.eventToggle _ _)) side => (Option.toList side).map togglePosition
  | .one (.inr _) count => [count]
  | .many _ _ => []

/-- The tasks at positions 1 and 4 are the first project's, closed at position 2. -/
theorem closing_log_agrees :
    ∃ after results, UmariFoldHandles.run countCodec lastFirst (build builtInFolds) plainNames
      (fun _ _ => .ok none) 2 closingLog [] (.ok 4) = .ok (after, results) ∧
        results.map inState = [[1, 4], [2], [1], [4], [2], [4]] ∧
        ∀ bindings, Agree (Returned builtInFolds results bindings) := by
  have runs : (UmariFoldHandles.run countCodec lastFirst (build builtInFolds) plainNames
      (fun _ _ => .ok none) 2 closingLog [] (.ok 4)).toOption.map
        (fun returned => returned.2.map inState) = some [[1, 4], [2], [1], [4], [2], [4]] := by
    decide +kernel
  obtain ⟨⟨after, results⟩, returned, states⟩ := Option.map_eq_some_iff.mp runs
  have ran := toOption_ok.mp returned
  have agrees := @builtin_folds_agree _ _ taskEvents countTypes Unit countCodec plainNames
    (fun _ _ => .ok none) lastFirst 4 (by decide)
  exact ⟨after, results, ran, states, (agrees.1 _ _ _ _ _ _ ran).1⟩

end sample
end UmariBuiltinFolds
