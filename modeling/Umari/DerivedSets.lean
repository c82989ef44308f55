import Umari.Groupings
import Umari.JsBindings

/-!
The derived event set. The macro makes one arm of `from_event` for every type of a
variant; an arm tells the variants of its type apart by literals in the JSON data. An event
is stored with the text of its domain id fields; the two ways of telling variants apart
agree where the same variant comes first in both.
-/
namespace UmariDerivedSets
open Groupings UmariDcbQueries

inductive ScopeEntry where
  | dynamic (field : String)
  | static (field value : String)
deriving DecidableEq, Repr

def ScopeEntry.field : ScopeEntry → String
  | .dynamic field => field
  | .static field _ => field

structure QueryEvent where
  ident : String
  ty : String
  scope : Option (List ScopeEntry)
deriving DecidableEq, Repr

/-- What the types that an enum names stand for; two spellings may be one type. -/
structure EventTypes where
  eventType : String → String
  domainIdFields : String → List String

/-- An enum that compiles: a scope names domain ids of its event only. -/
structure DeriveEventSet (types : EventTypes) where
  events : List QueryEvent
  distinct : (events.map QueryEvent.ident).Nodup
  validated : ∀ event ∈ events, ∀ scope, event.scope = some scope → ∀ entry ∈ scope,
    entry.field ∈ types.domainIdFields event.ty

def staticFields (scope : List ScopeEntry) : List (String × String) :=
  scope.filterMap fun entry =>
    match entry with
    | .dynamic _ => none
    | .static field value => some (field, value)

def QueryEvent.statics (event : QueryEvent) : List (String × String) :=
  (event.scope.map staticFields).getD []

inductive Json where
  | null
  | bool (b : Bool)
  | number (text : String)
  | string (text : String)
  | array (values : List Json)
  | object (entries : List (String × Json))

namespace Json

def get : Json → String → Option Json
  | .object entries, field => entries.lookup field
  | _, _ => none

def asStr : Json → Option String
  | .string text => some text
  | _ => none

end Json

/-- `data.get(field).and_then(|v| v.as_str()) == Some(value)` for every literal. -/
def dataPasses (data : Json) (event : QueryEvent) : Bool :=
  event.statics.all fun pair => (data.get pair.1).bind Json.asStr == some pair.2

def hasStatics (event : QueryEvent) : Bool := !event.statics.isEmpty

section dispatch
variable {types : EventTypes}

/-- Variants whose types are written alike share an arm. -/
def matchGroups (set : DeriveEventSet types) : Grouping String (List QueryEvent) :=
  putAll snoc [] QueryEvent.ty id set.events []

/-- The variant that an arm turns the data into. The last variant without literals is the
    fallback of its group. -/
def armVariant (group : List QueryEvent) (data : Json) : Option QueryEvent :=
  let literal := group.filter hasStatics
  let fallback := (group.filter fun event => !hasStatics event).getLast?
  if literal.isEmpty then fallback.or group.head?
  else (literal.find? (dataPasses data)).or fallback

/-- `fromValue` is the deserialisation of each type. Of two arms for one event type the
    first is taken. -/
def fromEvent {Item : Type} (fromValue : String → Json → Except String Item)
    (set : DeriveEventSet types) (eventType : String) (data : Json) :
    Option (Except String (String × Item)) :=
  match (matchGroups set).find? fun group => types.eventType group.1 == eventType with
  | none => none
  | some group => (armVariant group.2 data).map fun event =>
      (fromValue group.1 data).map fun item => (event.ident, item)

end dispatch

/-- A value of an event type: the domain id fields it declares with their text, in the
    order of declaration, and what its type serialises it to. -/
structure EventValue (types : EventTypes) where
  ty : String
  fields : List (String × String)
  declared : fields.map Prod.fst = types.domainIdFields ty
  data : Json

/-- A later field with the same domain id replaces the value of an earlier one. -/
def EventValue.domainIds {types : EventTypes} (value : EventValue types) : DomainIdBindings :=
  value.fields.foldl (fun bindings field => UmariJsBindings.setBinding bindings field.1 field.2)
    ⟨[], List.nodup_nil⟩

section selection
variable {types : EventTypes} (set : DeriveEventSet types) (value : EventValue types)

def tagsPass (event : QueryEvent) : Bool :=
  event.statics.all fun pair => value.domainIds.get pair.1 == some pair.2

def variants : List QueryEvent :=
  set.events.filter fun event => types.eventType event.ty == types.eventType value.ty

def literalVariants : List QueryEvent := (variants set value).filter hasStatics

def fallbacks : List QueryEvent := (variants set value).filter fun event => !hasStatics event

inductive Tagged : Option QueryEvent → Prop
  | literal {event} : (literalVariants set value).find? (tagsPass value) = some event →
      Tagged (some event)
  | fallback {event} : (literalVariants set value).find? (tagsPass value) = none →
      event ∈ fallbacks set value → Tagged (some event)
  | none : (literalVariants set value).find? (tagsPass value) = none →
      fallbacks set value = [] → Tagged none

/-- `from_event` on the serialised event yields the variant that its tags choose. -/
def YieldsTagged {Item : Type} (fromValue : String → Json → Except String Item) (item : Item) :
    Prop :=
  ∃ chosen, Tagged set value chosen ∧
    fromEvent fromValue set (types.eventType value.ty) value.data =
      chosen.map fun event => .ok (event.ident, item)

/-- Written like the first variant of the event's type, hence in the arm that is taken. -/
def inArm (event : QueryEvent) : Bool :=
  (variants set value).head?.map QueryEvent.ty == some event.ty

/-- The arm that is taken tests the data for the variant, and the test passes. -/
def dataChooses (event : QueryEvent) : Bool :=
  inArm set value event && dataPasses value.data event

/-- The first variant that the data or the tags choose is chosen by both, in the arm that
    is taken; where neither chooses one, that arm has a fallback if the type has one. -/
structure TestsAgree : Prop where
  first : ∀ event, (literalVariants set value).find? (fun event =>
      dataChooses set value event || tagsPass value event) = some event →
    dataChooses set value event = true ∧ tagsPass value event = true
  fallback : (literalVariants set value).find? (fun event =>
      dataChooses set value event || tagsPass value event) = none →
    fallbacks set value ≠ [] → ∃ event ∈ fallbacks set value, inArm set value event = true

end selection

section searching
universe u
variable {α : Type u}

theorem find?_eq_iff {p q : α → Bool} {xs : List α} :
    xs.find? p = xs.find? q ↔
      ∀ x, xs.find? (fun x => p x || q x) = some x → p x = true ∧ q x = true := by
  induction xs with
  | nil => simp
  | cons x rest ih =>
    cases hp : p x <;> cases hq : q x
    · simpa [hp, hq] using ih
    · simp only [List.find?_cons, hp, hq, Bool.or_true, Option.some.injEq]
      constructor
      · intro found
        have accepted := List.find?_some found
        exact absurd (hp.symm.trans accepted) Bool.false_ne_true
      · intro both
        exact absurd (hp.symm.trans (both x rfl).1) Bool.false_ne_true
    · simp only [List.find?_cons, hp, hq, Bool.true_or, Option.some.injEq]
      constructor
      · intro found
        have accepted := List.find?_some found.symm
        exact absurd (hq.symm.trans accepted) Bool.false_ne_true
      · intro both
        exact absurd (hq.symm.trans (both x rfl).2) Bool.false_ne_true
    · simp [hp, hq]

end searching

section arms

theorem armVariant_eq (group : List QueryEvent) (data : Json) :
    armVariant group data = ((group.filter hasStatics).find? (dataPasses data)).or
      (group.filter fun event => !hasStatics event).getLast? := by
  unfold armVariant
  by_cases literal : (group.filter hasStatics).isEmpty = true
  · have plain : group.filter (fun event => !hasStatics event) = group := by
      apply List.filter_eq_self.mpr
      intro event listed
      have refused := List.filter_eq_nil_iff.mp (List.isEmpty_iff.mp literal) event listed
      rw [Bool.not_eq_true] at refused
      rw [refused, Bool.not_false]
    rw [if_pos literal, List.isEmpty_iff.mp literal, plain]
    cases group with
    | nil => rfl
    | cons first rest => rw [List.getLast?_cons, Option.some_or]; rfl
  · rw [if_neg literal]

theorem armVariant_mem {group : List QueryEvent} {data : Json} {event : QueryEvent}
    (chosen : armVariant group data = some event) : event ∈ group := by
  rw [armVariant_eq] at chosen
  rcases Option.or_eq_some_iff.mp chosen with found | ⟨_, last⟩
  · exact (List.mem_filter.mp (List.mem_of_find?_eq_some found)).1
  · exact (List.mem_filter.mp (List.mem_of_getLast? last)).1

variable {types : EventTypes} {set : DeriveEventSet types} {value : EventValue types}

theorem fromEvent_arm {Item : Type} {fromValue : String → Json → Except String Item} :
    fromEvent fromValue set (types.eventType value.ty) value.data =
      (armVariant ((variants set value).filter (inArm set value)) value.data).map fun event =>
        (fromValue event.ty value.data).map fun item => (event.ident, item) := by
  unfold fromEvent matchGroups
  rw [find?_groups (p := fun k => types.eventType k == types.eventType value.ty), List.find?_map]
  have first : set.events.find? ((fun k => types.eventType k == types.eventType value.ty) ∘
      QueryEvent.ty) = (variants set value).head? := List.head?_filter.symm
  rw [first]
  cases found : (variants set value).head? with
  | none =>
    have empty := List.head?_eq_none_iff.mp found
    rw [empty]
    rfl
  | some event =>
    have sameType := (List.mem_filter.mp (List.mem_of_head? found)).2
    have arm : (variants set value).filter (inArm set value) =
        set.events.filter fun other => other.ty = event.ty := by
      rw [variants, List.filter_filter]
      apply List.filter_congr
      intro other listed
      rw [inArm, found, Option.map_some]
      by_cases same : other.ty = event.ty
      · simpa [same] using sameType
      · simp [same, Ne.symm same]
    rw [arm]
    simp only [Option.map_some, List.map_id]
    cases chosen : armVariant (set.events.filter fun other => other.ty = event.ty)
        value.data with
    | none => rfl
    | some other =>
      have written := (List.mem_filter.mp (armVariant_mem chosen)).2
      rw [decide_eq_true_eq] at written
      simp only [Option.map_some, written]

end arms

section agreement
variable {types : EventTypes} {set : DeriveEventSet types} {value : EventValue types}

def chosenVariant (set : DeriveEventSet types) (value : EventValue types) : Option QueryEvent :=
  armVariant ((variants set value).filter (inArm set value)) value.data

theorem chosenVariant_eq :
    chosenVariant set value =
      ((literalVariants set value).find? (dataChooses set value)).or
      ((fallbacks set value).filter (inArm set value)).getLast? := by
  have literal : ((variants set value).filter (inArm set value)).filter hasStatics =
      (literalVariants set value).filter (inArm set value) := List.filter_comm _ _ _
  have plain : ((variants set value).filter (inArm set value)).filter
      (fun event => !hasStatics event) = (fallbacks set value).filter (inArm set value) :=
    List.filter_comm _ _ _
  rw [chosenVariant, armVariant_eq, literal, plain, List.find?_filter]
  simp only [Bool.decide_and, Bool.decide_eq_true]
  rfl

theorem tagged_mem {event : QueryEvent} (tagged : Tagged set value (some event)) :
    event ∈ variants set value := by
  cases tagged with
  | literal found => exact (List.mem_filter.mp (List.mem_of_find?_eq_some found)).1
  | fallback _ listed => exact (List.mem_filter.mp listed).1

theorem yields_iff_tagged {Item : Type} {fromValue : String → Json → Except String Item}
    {item : Item} (reads : ∀ event ∈ variants set value, fromValue event.ty value.data = .ok item) :
    YieldsTagged set value fromValue item ↔ Tagged set value (chosenVariant set value) := by
  have yields : fromEvent fromValue set (types.eventType value.ty) value.data =
      (chosenVariant set value).map fun event => .ok (event.ident, item) := by
    rw [fromEvent_arm]
    unfold chosenVariant
    cases chosen : armVariant ((variants set value).filter (inArm set value)) value.data with
    | none => rfl
    | some event =>
      have listed := (List.mem_filter.mp (armVariant_mem chosen)).1
      rw [Option.map_some, Option.map_some, reads event listed]
      rfl
  constructor
  · rintro ⟨chosen, tagged, same⟩
    rw [yields] at same
    cases found : chosenVariant set value with
    | none =>
      rw [found] at same
      cases chosen with
      | none => exact tagged
      | some event => exact absurd same (by simp)
    | some event =>
      rw [found] at same
      cases chosen with
      | none => exact absurd same (by simp)
      | some other =>
        have ident : event.ident = other.ident := by simpa using same
        have listed := (List.mem_filter.mp (tagged_mem tagged)).1
        have among : event ∈ set.events := by
          have member := (List.mem_filter.mp (armVariant_mem found)).1
          exact (List.mem_filter.mp member).1
        obtain rfl := List.inj_on_of_nodup_map set.distinct among listed ident
        exact tagged
  · intro tagged
    exact ⟨_, tagged, yields⟩

theorem not_both {event : QueryEvent} (literal : event ∈ literalVariants set value)
    (plain : event ∈ fallbacks set value) : False := by
  have asks := (List.mem_filter.mp literal).2
  have none := (List.mem_filter.mp plain).2
  rw [asks] at none
  exact Bool.false_ne_true none

theorem testsAgree_of_tagged (tagged : Tagged set value (chosenVariant set value)) :
    TestsAgree set value := by
  rw [chosenVariant_eq] at tagged
  have same : (literalVariants set value).find? (dataChooses set value) =
      (literalVariants set value).find? (tagsPass value) := by
    cases byData : (literalVariants set value).find? (dataChooses set value) with
    | some event =>
      rw [byData, Option.some_or] at tagged
      cases tagged with
      | literal found => exact found.symm
      | fallback _ plain => exact (not_both (List.mem_of_find?_eq_some byData) plain).elim
    | none =>
      rw [byData, Option.none_or] at tagged
      generalize last : ((fallbacks set value).filter (inArm set value)).getLast? = spare at tagged
      cases tagged with
      | literal found =>
        have plain := (List.mem_filter.mp (List.mem_of_getLast? last)).1
        exact (not_both (List.mem_of_find?_eq_some found) plain).elim
      | fallback untagged _ => exact untagged.symm
      | none untagged _ => exact untagged.symm
  constructor
  · exact find?_eq_iff.mp same
  · intro neither some
    have byData : (literalVariants set value).find? (dataChooses set value) = none := by
      apply List.find?_eq_none.mpr
      intro event listed passes
      exact List.find?_eq_none.mp neither event listed (by rw [passes, Bool.true_or])
    have untagged := same.symm.trans byData
    rw [byData, Option.none_or] at tagged
    cases last : ((fallbacks set value).filter (inArm set value)).getLast? with
    | some event => exact ⟨event, List.mem_filter.mp (List.mem_of_getLast? last)⟩
    | none =>
      rw [last] at tagged
      cases tagged with
      | none _ nothing => exact absurd nothing some

theorem tagged_of_testsAgree (agree : TestsAgree set value) :
    Tagged set value (chosenVariant set value) := by
  have same := find?_eq_iff.mpr agree.first
  rw [chosenVariant_eq]
  cases byData : (literalVariants set value).find? (dataChooses set value) with
  | some event =>
    rw [byData] at same
    exact Tagged.literal same.symm
  | none =>
    rw [byData] at same
    rw [Option.none_or]
    cases last : ((fallbacks set value).filter (inArm set value)).getLast? with
    | some event =>
      exact Tagged.fallback same.symm (List.mem_filter.mp (List.mem_of_getLast? last)).1
    | none =>
      apply Tagged.none same.symm
      by_contra some
      have neither : (literalVariants set value).find? (fun event =>
          dataChooses set value event || tagsPass value event) = none := by
        apply List.find?_eq_none.mpr
        intro event listed passes
        rcases (Bool.or_eq_true _ _ ▸ passes : _ ∨ _) with data | tags
        · exact List.find?_eq_none.mp byData event listed data
        · exact List.find?_eq_none.mp same.symm event listed tags
      obtain ⟨event, plain, written⟩ := agree.fallback neither some
      have empty := List.getLast?_eq_none_iff.mp last
      exact List.filter_eq_nil_iff.mp empty event plain written

/-- Data and tags choose the same variant exactly when their tests agree on the first
    variant that passes one of them. -/
theorem yields_tagged_iff {Item : Type} {fromValue : String → Json → Except String Item}
    {item : Item} (reads : ∀ event ∈ variants set value, fromValue event.ty value.data = .ok item) :
    YieldsTagged set value fromValue item ↔ TestsAgree set value := by
  rw [yields_iff_tagged reads]
  constructor
  · exact testsAgree_of_tagged
  · exact tagged_of_testsAgree

/-- Where the variants of a type are written alike, and the fields that they name are
    strings under the names of their domain ids, the tests agree. -/
theorem testsAgree_of_strings
    (alike : ∀ one ∈ variants set value, ∀ other ∈ variants set value, one.ty = other.ty)
    (strings : ∀ event ∈ variants set value, ∀ pair ∈ event.statics,
      (value.data.get pair.1).bind Json.asStr = value.domainIds.get pair.1) :
    TestsAgree set value := by
  have written : ∀ event ∈ variants set value, inArm set value event = true := by
    intro event listed
    rw [inArm]
    cases first : (variants set value).head? with
    | none =>
      rw [List.head?_eq_none_iff.mp first] at listed
      exact absurd listed List.not_mem_nil
    | some other => simp [alike other (List.mem_of_head? first) event listed]
  have passes : ∀ event ∈ variants set value,
      dataPasses value.data event = tagsPass value event := by
    intro event listed
    apply Bool.eq_iff_iff.mpr
    simp only [dataPasses, tagsPass, List.all_eq_true]
    apply forall₂_congr
    intro pair asked
    rw [strings event listed pair asked]
  constructor
  · intro event found
    have listed := (List.mem_filter.mp (List.mem_of_find?_eq_some found)).1
    have accepted := List.find?_some found
    have same : dataChooses set value event = tagsPass value event := by
      rw [dataChooses, written event listed, passes event listed, Bool.true_and]
    rw [same, Bool.or_self] at accepted
    rw [same]
    exact ⟨accepted, accepted⟩
  · intro _ some
    obtain ⟨event, plain⟩ := List.exists_mem_of_ne_nil _ some
    exact ⟨event, plain, written event (List.mem_filter.mp plain).1⟩

end agreement

section sample

def accountTypes : EventTypes := ⟨fun _ => "account.closed", fun _ => ["account_id"]⟩

def accountClosed (account : Nat) : EventValue accountTypes where
  ty := "AccountClosed"
  fields := [("account_id", toString account)]
  declared := rfl
  data := .object [("account_id", .number (toString account))]

def accountSeven : DeriveEventSet accountTypes where
  events := [⟨"Seven", "AccountClosed", some [.static "account_id" "7"]⟩]
  distinct := by decide
  validated := by decide

def readsText (_ : String) (data : Json) : Except String String :=
  match data with
  | .null => .error "null"
  | _ => .ok "closed"

/-- The tags of account 7 choose the variant, its data does not. -/
theorem number_not_chosen :
    ¬ YieldsTagged accountSeven (accountClosed 7) readsText "closed" := by
  intro yields
  have agree := (yields_iff_tagged (by decide +kernel)).mp yields
  have chosen : chosenVariant accountSeven (accountClosed 7) = none := by decide +kernel
  rw [chosen] at agree
  cases agree with
  | none untagged _ => exact absurd untagged (by decide +kernel)

def namedAccount (account : String) : EventValue accountTypes where
  ty := "AccountClosed"
  fields := [("account_id", account)]
  declared := rfl
  data := .object [("account_id", .string account)]

theorem string_chosen : YieldsTagged accountSeven (namedAccount "7") readsText "closed" := by
  apply (yields_tagged_iff (by decide +kernel)).mpr
  apply testsAgree_of_strings
  · decide +kernel
  · decide +kernel

end sample
end UmariDerivedSets
