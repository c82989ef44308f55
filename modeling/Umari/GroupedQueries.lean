import Umari.QueryCoverage

/-!
Grouping entries by their tags keeps what they ask for. An entry under a binding set asks
for its type and for a `field:value` tag of every field it binds; entries with the same
tags share an item, so types of unrelated entries end up side by side. The projections of
the user interface group their entries the same way, with the groups in order of their
tags, and give refused names back as errors.
-/
namespace UmariGroupedQueries
open FallibleFolds OrderedSets UmariEventStore UmariStoredEvents UmariDcbQueries
open UmariDcbQueries.DomainIdBindings
open UmariQueryCoverage (plainNames_keep)

structure Asks (set : DomainIdBindings) (entry : EventDomainId) (event : Event) : Prop where
  eventType : event.eventType = entry.eventType
  dynamicTag : ∀ field ∈ entry.dynamicFields, ∀ value, set.get field = some value →
    fieldTag field value ∈ event.tags
  staticTag : ∀ pair ∈ entry.staticFields, fieldTag pair.1 pair.2 ∈ event.tags

theorem asks_iff {set : DomainIdBindings} {entry : EventDomainId} {event : Event} :
    Asks set entry event ↔ entry.eventType = event.eventType ∧
      ∀ tag ∈ (entryTags entry set).toList, tag ∈ event.tags := by
  simp only [OrderedSet.mem_toList, mem_entryTags]
  constructor
  · intro asks
    constructor
    · exact asks.eventType.symm
    · intro tag made
      cases made with
      | inl bound =>
        obtain ⟨field, listed, value, found, rfl⟩ := bound
        exact asks.dynamicTag field listed value found
      | inr literal =>
        obtain ⟨pair, listed, rfl⟩ := literal
        exact asks.staticTag pair listed
  · intro h
    obtain ⟨ty, tagged⟩ := h
    constructor
    · exact ty.symm
    · exact fun field listed value found => tagged _ (Or.inl ⟨field, listed, value, found, rfl⟩)
    · exact fun pair listed => tagged _ (Or.inr ⟨pair, listed, rfl⟩)

section projections
variable {V : Type}

/-- One entry of a script's `events`; the fields of a scope are in order. -/
inductive EventEntry (V : Type) where
  | type (name : String)
  | scopedType (name : String) (scope : List (String × V))

inductive ProjectionError where
  | script (message : String)
deriving DecidableEq, Repr

def tagValue (codec : Codec V) (value : V) : String :=
  match codec.asStr value with
  | some text => text
  | none => codec.toString value

namespace EventEntry

def eventType : EventEntry V → String
  | .type name => name
  | .scopedType name _ => name

def scope : EventEntry V → List (String × V)
  | .type _ => []
  | .scopedType _ scope => scope

def tags (codec : Codec V) (entry : EventEntry V) : OrderedSet String :=
  OrderedSet.ofList (entry.scope.map fun pair => fieldTag pair.1 (tagValue codec pair.2))

end EventEntry

def tagsBefore (a b : OrderedSet String) : Bool := decide (a.toList < b.toList)

/-- A map ordered by its keys, from tags to the types that have them. -/
def groupScopes (codec : Codec V) (entries : List (EventEntry V)) : GroupedItems :=
  entries.foldl (fun grouped entry => Groupings.putOrdered tagsBefore OrderedSet.insert
    OrderedSet.empty (entry.tags codec) entry.eventType grouped) []

def scopeItem (rules : NameRules) (group : OrderedSet String × OrderedSet String) :
    Except ProjectionError QueryItem := do
  let types ← group.2.toList.mapM fun ty =>
    (rules.eventType ty).mapError fun err => .script err.message
  let tagList ← group.1.toList.mapM fun tag =>
    (rules.tag tag).mapError fun err => .script err.message
  let tags ← (rules.tags tagList).mapError fun err => .script err.message
  pure ⟨types, tags⟩

def buildQuery (codec : Codec V) (rules : NameRules) (entries : List (EventEntry V)) :
    Except ProjectionError Query := do
  let items ← (groupScopes codec entries).mapM (scopeItem rules)
  pure (.items items)

theorem scopeItem_checks (rules : NameRules) (group : OrderedSet String × OrderedSet String) :
    scopeItem rules group = checkItem rules (fun err => .script err.message)
      (fun err => .script err.message) (fun err => .script err.message)
      group.2.toList group.1.toList := rfl

variable {codec : Codec V} {entries : List (EventEntry V)}

theorem holds_groupScopes {tags : OrderedSet String} {ty : String} :
    (groupScopes codec entries).Holds tags ty ↔
      ∃ entry ∈ entries, entry.tags codec = tags ∧ entry.eventType = ty := by
  have held : Groupings.Holds (groupScopes codec entries) tags ty ↔
      Groupings.Holds ([] : GroupedItems) tags ty ∨
        ∃ entry ∈ entries, entry.tags codec = tags ∧ entry.eventType = ty :=
    Groupings.holds_foldl (Groupings.putOrdered_puts insert_adds)
  rw [or_iff_right Groupings.not_holds_nil] at held
  exact held

theorem inhabited_groupScopes : (groupScopes codec entries).Inhabited := by
  have empty : Groupings.Filled String ([] : GroupedItems) := fun group => nofun
  exact Groupings.filled_foldl (Groupings.putOrdered_puts insert_adds) empty

structure ScopeAsks (codec : Codec V) (entry : EventEntry V) (event : Event) : Prop where
  eventType : event.eventType = entry.eventType
  tag : ∀ pair ∈ entry.scope, fieldTag pair.1 (tagValue codec pair.2) ∈ event.tags

theorem scopeAsks_iff {entry : EventEntry V} {event : Event} :
    ScopeAsks codec entry event ↔ entry.eventType = event.eventType ∧
      ∀ tag ∈ (entry.tags codec).toList, tag ∈ event.tags := by
  simp only [OrderedSet.mem_toList, EventEntry.tags, OrderedSet.mem_ofList, List.mem_map]
  constructor
  · intro asks
    constructor
    · exact asks.eventType.symm
    · intro tag made
      obtain ⟨pair, listed, rfl⟩ := made
      exact asks.tag pair listed
  · intro h
    obtain ⟨ty, tagged⟩ := h
    exact ⟨ty.symm, fun pair listed => tagged _ ⟨pair, listed, rfl⟩⟩

variable {rules : NameRules}

theorem buildQuery_matches (keeps : KeepsNames rules) {query : Query}
    (built : buildQuery codec rules entries = .ok query) (event : Event) :
    query.matches event = true ↔ ∃ entry ∈ entries, ScopeAsks codec entry event := by
  simp only [buildQuery, do_ok, pure, Except.pure, Except.ok.injEq] at built
  obtain ⟨items, grouped, rfl⟩ := built
  have checks : ∀ group item, scopeItem rules group = .ok item →
      item.types = group.2.toList ∧ ∀ tag, tag ∈ item.tags ↔ tag ∈ group.1 := by
    intro group item made
    rw [scopeItem_checks] at made
    exact checkItem_ok keeps made
  rw [grouped_select checks inhabited_groupScopes grouped]
  simp only [scopeAsks_iff]
  constructor
  · intro h
    obtain ⟨tags, held, tagged⟩ := h
    obtain ⟨entry, listed, rfl, ty⟩ := holds_groupScopes.mp held
    exact ⟨entry, listed, ty, tagged⟩
  · intro h
    obtain ⟨entry, listed, ty, tagged⟩ := h
    exact ⟨entry.tags codec, holds_groupScopes.mpr ⟨entry, listed, rfl, ty⟩, tagged⟩

theorem buildQuery_succeeds (keeps : KeepsNames rules)
    (distinct : ∀ list : List String, list.Nodup → ∃ checked, rules.tags list = .ok checked) :
    (∃ query, buildQuery codec rules entries = .ok query) ↔
      ∀ entry ∈ entries, InRules rules entry.eventType (entry.tags codec) := by
  have checked : (∃ items, (groupScopes codec entries).mapM (scopeItem rules) = .ok items) ↔
      ∀ group ∈ groupScopes codec entries, ∀ ty ∈ group.2, InRules rules ty group.1 :=
    grouped_checks keeps distinct inhabited_groupScopes
  have groups : (∀ group ∈ groupScopes codec entries, ∀ ty ∈ group.2,
      InRules rules ty group.1) ↔
      ∀ entry ∈ entries, InRules rules entry.eventType (entry.tags codec) := by
    constructor
    · intro each entry listed
      obtain ⟨types, member, inside⟩ := holds_groupScopes.mpr
        ⟨entry, listed, rfl, rfl⟩
      exact each _ member _ inside
    · intro each group member ty inside
      obtain ⟨entry, listed, tags, name⟩ := holds_groupScopes.mp ⟨group.2, member, inside⟩
      rw [← tags, ← name]
      exact each entry listed
  rw [← groups, ← checked]
  simp only [buildQuery, do_ok, pure, Except.pure]
  constructor
  · intro h
    obtain ⟨query, items, built, _⟩ := h
    exact ⟨items, built⟩
  · intro h
    obtain ⟨items, built⟩ := h
    exact ⟨_, items, built, rfl⟩

/-- Both builders take every list of entries with names the store accepts, and select
    what some entry asks for. -/
structure KeepsMeaning (codec : Codec V) (rules : NameRules) : Prop where
  dcb : ∀ (domainIds : List EventDomainId) (bindings : List DomainIdBindings),
    (∀ set ∈ bindings, ∀ entry ∈ domainIds,
      InRules rules entry.eventType (entryTags entry set)) →
    ∃ query, buildDcbQuery rules domainIds bindings = .ok query ∧
      ∀ event, query.matches event = true ↔
        ∃ set ∈ bindings, ∃ entry ∈ domainIds, Asks set entry event
  nothing : ∀ (domainIds : List EventDomainId) (bindings : List DomainIdBindings),
    domainIds = [] ∨ bindings = [] →
    ∃ query, buildDcbQuery rules domainIds bindings = .ok query ∧
      ∀ event, query.matches event = false
  projection : ∀ entries : List (EventEntry V),
    (∀ entry ∈ entries, InRules rules entry.eventType (entry.tags codec)) →
    ∃ query, buildQuery codec rules entries = .ok query ∧
      ∀ event, query.matches event = true ↔ ∃ entry ∈ entries, ScopeAsks codec entry event

theorem grouping_keeps_meaning (codec : Codec V) (keeps : KeepsNames rules)
    (distinct : ∀ list : List String, list.Nodup → ∃ checked, rules.tags list = .ok checked) :
    KeepsMeaning codec rules := by
  constructor
  · intro domainIds bindings named
    obtain ⟨query, built⟩ := (buildDcbQuery_succeeds keeps distinct).mpr named
    refine ⟨query, built, ?_⟩
    intro event
    simp only [asks_iff]
    exact buildDcbQuery_matches keeps built event
  · intro domainIds bindings none
    have named : ∀ set ∈ bindings, ∀ entry ∈ domainIds,
        InRules rules entry.eventType (entryTags entry set) := by
      cases none with
      | inl noEntry => simp [noEntry]
      | inr noSet => simp [noSet]
    obtain ⟨query, built⟩ := (buildDcbQuery_succeeds keeps distinct).mpr named
    refine ⟨query, built, ?_⟩
    intro event
    rw [← Bool.not_eq_true, buildDcbQuery_matches keeps built]
    cases none with
    | inl noEntry => simp [noEntry]
    | inr noSet => simp [noSet]
  · intro entries named
    obtain ⟨query, built⟩ := (buildQuery_succeeds keeps distinct).mpr named
    exact ⟨query, built, buildQuery_matches keeps built⟩

end projections

section sample

theorem plainNames_distinct (list : List String) (unique : list.Nodup) :
    ∃ checked, plainNames.tags list = .ok checked := ⟨list, if_pos unique⟩

theorem plainNames_inRules {eventType : String} {tags : OrderedSet String}
    (named : eventType ≠ "") (tagged : ∀ tag ∈ tags.toList, tag ≠ "") :
    InRules plainNames eventType tags where
  eventType := ⟨eventType, if_neg named⟩
  tag := fun tag listed => ⟨tag, if_neg (tagged tag listed)⟩

def taskEntries : List EventDomainId :=
  [⟨"task.created", ["project_id"], []⟩, ⟨"task.closed", ["project_id", "task_id"], []⟩]

def projectSet : DomainIdBindings := ⟨[("project_id", "p1")], List.nodup_singleton _⟩

/-- Both types come into one item, and both are selected. -/
theorem shared_item_selects :
    ∃ query, buildDcbQuery plainNames taskEntries [projectSet] = .ok query ∧
      ∀ event, query.matches event = true ↔
        ∃ set ∈ [projectSet], ∃ entry ∈ taskEntries, Asks set entry event := by
  have meaning := grouping_keeps_meaning (textCodec [] []) plainNames_keep plainNames_distinct
  apply meaning.dcb
  intro set bound entry listed
  obtain rfl := List.mem_singleton.mp bound
  have named : ∀ entry ∈ taskEntries, entry.eventType ≠ "" ∧
      ∀ tag ∈ (entryTags entry projectSet).toList, tag ≠ "" := by decide +kernel
  exact plainNames_inRules (named entry listed).1 (named entry listed).2

end sample
end UmariGroupedQueries
