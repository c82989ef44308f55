import Umari.EventStore
import Umari.OrderedSets
import Umari.Groupings
import Umari.FallibleFolds
import Mathlib.Data.String.Basic

/-!
The query a command reads and appends under. Each registered event type brings
the domain id fields it is looked up by; a field that is bound, and every static
field, becomes a `field:value` tag, and types with the same tags share an item.
-/
namespace UmariDcbQueries
open OrderedSets FallibleFolds UmariEventStore

structure EventDomainId where
  eventType : String
  dynamicFields : List String
  staticFields : List (String × String)
deriving DecidableEq, Repr

/-- Domain id fields and their values in insertion order, each field once. -/
structure DomainIdBindings where
  entries : List (String × String)
  distinct : (entries.map Prod.fst).Nodup
deriving DecidableEq

namespace DomainIdBindings

def get (bindings : DomainIdBindings) (field : String) : Option String :=
  bindings.entries.lookup field

def restrict (bindings : DomainIdBindings) (fields : List String) : DomainIdBindings where
  entries := bindings.entries.filter fun entry => fields.contains entry.1
  distinct := (List.filter_sublist.map Prod.fst).nodup bindings.distinct

theorem lookup_filter (entries : List (String × String)) (fields : List String)
    (field : String) :
    (entries.filter fun entry => fields.contains entry.1).lookup field =
      if field ∈ fields then entries.lookup field else none := by
  induction entries with
  | nil => simp
  | cons entry rest ih =>
    obtain ⟨name, value⟩ := entry
    by_cases kept : name ∈ fields
    · rw [List.filter_cons_of_pos (by simpa using kept), List.lookup_cons, List.lookup_cons]
      by_cases here : field = name
      · subst here
        simp [kept]
      · have other : (field == name) = false := by simpa using here
        simpa [other] using ih
    · rw [List.filter_cons_of_neg (by simpa using kept), ih, List.lookup_cons]
      by_cases here : field = name
      · subst here
        simp [kept]
      · have other : (field == name) = false := by simpa using here
        simp [other]

theorem get_restrict (bindings : DomainIdBindings) (fields : List String) (field : String) :
    (bindings.restrict fields).get field =
      if field ∈ fields then bindings.get field else none :=
  lookup_filter bindings.entries fields field

end DomainIdBindings

def fieldTag (field value : String) : String := field ++ ":" ++ value

/-- The tags one registered event type is looked up by under one set of bindings. -/
def entryTags (entry : EventDomainId) (bindings : DomainIdBindings) : OrderedSet String :=
  let dynamicTags := entry.dynamicFields.filterMap fun field =>
    (bindings.get field).map (fieldTag field)
  let staticTags := entry.staticFields.map fun pair => fieldTag pair.1 pair.2
  OrderedSet.ofList (dynamicTags ++ staticTags)

abbrev GroupedItems := List (OrderedSet String × OrderedSet String)

/-- `entry(tags).or_default().insert(event_type)` on a map in insertion order. -/
def GroupedItems.insertType (tags : OrderedSet String) (eventType : String) :
    GroupedItems → GroupedItems
  | [] => [(tags, OrderedSet.empty.insert eventType)]
  | (key, types) :: rest =>
    if key = tags then (key, types.insert eventType) :: rest
    else (key, types) :: GroupedItems.insertType tags eventType rest

def groupEntries (bindings : DomainIdBindings) (grouped : GroupedItems)
    (domainIds : List EventDomainId) : GroupedItems :=
  domainIds.foldl
    (fun grouped entry => grouped.insertType (entryTags entry bindings) entry.eventType) grouped

def groupedItems (domainIds : List EventDomainId) (bindings : List DomainIdBindings) :
    GroupedItems :=
  bindings.foldl (fun grouped set => groupEntries set grouped domainIds) []

def groupedItem (rules : NameRules) (group : OrderedSet String × OrderedSet String) :
    Except String QueryItem := do
  let types ← group.2.toList.mapM fun ty =>
    (rules.eventType ty).mapError fun _ => "event type name is valid"
  let tagList ← group.1.toList.mapM fun tag =>
    (rules.tag tag).mapError fun _ => "tag is non-empty"
  let tags ← (rules.tags tagList).mapError fun _ => "tags are unique within a query item"
  pure ⟨types, tags⟩

/-- A name the store's constructors refuse is a panic with the given message. -/
def buildDcbQuery (rules : NameRules) (domainIds : List EventDomainId)
    (bindings : List DomainIdBindings) : Except String Query := do
  let items ← (groupedItems domainIds bindings).mapM (groupedItem rules)
  pure (.items items)

def eventFilterOf (item : QueryItem) : EventFilter := ⟨item.types, item.tags⟩

def eventQueryOf : Query → EventQuery
  | .all => .all
  | .items list => .items (list.map eventFilterOf)

/-- The store's constructors hand back the name they were given, and the tags they
    were given in some order. -/
structure KeepsNames (rules : NameRules) : Prop where
  eventType : ∀ name checked, rules.eventType name = .ok checked → checked = name
  tag : ∀ name checked, rules.tag name = .ok checked → checked = name
  tags : ∀ list checked, rules.tags list = .ok checked → ∀ tag, tag ∈ checked ↔ tag ∈ list

theorem mem_entryTags {entry : EventDomainId} {bindings : DomainIdBindings} {tag : String} :
    tag ∈ entryTags entry bindings ↔
      (∃ field ∈ entry.dynamicFields, ∃ value, bindings.get field = some value ∧
        fieldTag field value = tag) ∨
      ∃ pair ∈ entry.staticFields, fieldTag pair.1 pair.2 = tag := by
  simp [entryTags]

theorem entryTags_congr {entry : EventDomainId} {a b : DomainIdBindings}
    (same : ∀ field ∈ entry.dynamicFields, a.get field = b.get field) {tag : String} :
    tag ∈ entryTags entry a ↔ tag ∈ entryTags entry b := by
  rw [mem_entryTags, mem_entryTags]
  apply or_congr_left
  constructor
  · rintro ⟨field, listed, value, bound, made⟩
    exact ⟨field, listed, value, (same field listed).symm.trans bound, made⟩
  · rintro ⟨field, listed, value, bound, made⟩
    exact ⟨field, listed, value, (same field listed).trans bound, made⟩

def GroupedItems.Holds (grouped : GroupedItems) (tags : OrderedSet String) (ty : String) : Prop :=
  ∃ types, (tags, types) ∈ grouped ∧ ty ∈ types

def GroupedItems.Inhabited (grouped : GroupedItems) : Prop :=
  ∀ group ∈ grouped, ∃ ty, ty ∈ group.2

theorem insertType_put (tags : OrderedSet String) (ty : String) (grouped : GroupedItems) :
    grouped.insertType tags ty =
      Groupings.put OrderedSet.insert OrderedSet.empty tags ty grouped := by
  induction grouped with
  | nil => rfl
  | cons group rest ih => rw [GroupedItems.insertType, Groupings.put, ih]

theorem groupedItems_putProduct (domainIds : List EventDomainId)
    (bindings : List DomainIdBindings) :
    groupedItems domainIds bindings = Groupings.putProduct OrderedSet.insert OrderedSet.empty
      (fun set entry => entryTags entry set) EventDomainId.eventType bindings domainIds := by
  unfold groupedItems groupEntries Groupings.putProduct Groupings.putAll
  simp only [insertType_put]

theorem insert_adds : Groupings.Adds (OrderedSet.insert : String → _ → _) OrderedSet.empty where
  added := fun _ _ _ => OrderedSet.mem_insert
  vacant := OrderedSet.not_mem_empty

theorem holds_groupedItems {domainIds : List EventDomainId} {bindings : List DomainIdBindings}
    {tags : OrderedSet String} {ty : String} :
    (groupedItems domainIds bindings).Holds tags ty ↔
      ∃ set ∈ bindings, ∃ entry ∈ domainIds, entryTags entry set = tags ∧ entry.eventType = ty := by
  rw [groupedItems_putProduct]
  exact Groupings.holds_putProduct insert_adds

theorem inhabited_groupedItems (domainIds : List EventDomainId)
    (bindings : List DomainIdBindings) : (groupedItems domainIds bindings).Inhabited := by
  rw [groupedItems_putProduct]
  exact Groupings.filled_putProduct insert_adds _ _ _ _

section names
variable {rules : NameRules}

section checked
variable {ε : Type} {badType badTag : NameError → ε} {badTags : TagsError → ε}

/-- One item of a query, with every name checked; what becomes of a refusal differs from
    caller to caller. -/
def checkItem (rules : NameRules) (badType badTag : NameError → ε) (badTags : TagsError → ε)
    (types tags : List String) : Except ε QueryItem := do
  let types ← types.mapM fun ty => (rules.eventType ty).mapError badType
  let tagList ← tags.mapM fun tag => (rules.tag tag).mapError badTag
  let tags ← (rules.tags tagList).mapError badTags
  pure ⟨types, tags⟩

theorem checkItem_ok (keeps : KeepsNames rules) {types tags : List String} {item : QueryItem}
    (checked : checkItem rules badType badTag badTags types tags = .ok item) :
    item.types = types ∧ ∀ tag, tag ∈ item.tags ↔ tag ∈ tags := by
  simp only [checkItem, do_ok, mapError_ok, pure, Except.pure, Except.ok.injEq] at checked
  obtain ⟨names, typed, tagList, tagged, collected, distinct, rfl⟩ := checked
  have sameTypes : names = types := by
    apply mapM_check _ typed
    intro name checked accepted
    exact keeps.eventType name checked (mapError_ok.mp accepted)
  have sameTags : tagList = tags := by
    apply mapM_check _ tagged
    intro name checked accepted
    exact keeps.tag name checked (mapError_ok.mp accepted)
  constructor
  · exact sameTypes
  · intro tag
    rw [keeps.tags _ _ distinct, sameTags]

theorem checkItem_succeeds (keeps : KeepsNames rules) {types tags : List String} :
    (∃ item, checkItem rules badType badTag badTags types tags = .ok item) ↔
      (∀ ty ∈ types, ∃ checked, rules.eventType ty = .ok checked) ∧
        (∀ tag ∈ tags, ∃ checked, rules.tag tag = .ok checked) ∧
        ∃ checked, rules.tags tags = .ok checked := by
  have same : ∀ tagList, (tags.mapM fun tag => (rules.tag tag).mapError badTag) = .ok tagList →
      tagList = tags := by
    intro tagList tagged
    apply mapM_check _ tagged
    intro name checked accepted
    exact keeps.tag name checked (mapError_ok.mp accepted)
  have named : (∃ names, (types.mapM fun ty => (rules.eventType ty).mapError badType) =
      .ok names) ↔ ∀ ty ∈ types, ∃ checked, rules.eventType ty = .ok checked := by
    simp only [mapM_succeeds, mapError_ok]
  have tagged : (∃ names, (tags.mapM fun tag => (rules.tag tag).mapError badTag) =
      .ok names) ↔ ∀ tag ∈ tags, ∃ checked, rules.tag tag = .ok checked := by
    simp only [mapM_succeeds, mapError_ok]
  rw [← named, ← tagged]
  simp only [checkItem, do_ok, mapError_ok, pure, Except.pure, Except.ok.injEq]
  constructor
  · intro h
    obtain ⟨item, names, passed, tagList, listed, collected, distinct, _⟩ := h
    exact ⟨⟨names, passed⟩, ⟨tagList, listed⟩, collected, same tagList listed ▸ distinct⟩
  · intro h
    obtain ⟨⟨names, passed⟩, ⟨tagList, listed⟩, collected, distinct⟩ := h
    rw [← same tagList listed] at distinct
    exact ⟨_, names, passed, tagList, listed, collected, distinct, rfl⟩

end checked

theorem groupedItem_checks (group : OrderedSet String × OrderedSet String) :
    groupedItem rules group = checkItem rules (fun _ => "event type name is valid")
      (fun _ => "tag is non-empty") (fun _ => "tags are unique within a query item")
      group.2.toList group.1.toList := rfl

theorem toQueryItem_checks (filter : EventFilter) :
    filter.toQueryItem rules =
      checkItem rules QueryError.name QueryError.name QueryError.tags filter.types filter.tags :=
  rfl

theorem groupedItem_ok (keeps : KeepsNames rules)
    {group : OrderedSet String × OrderedSet String} {item : QueryItem}
    (built : groupedItem rules group = .ok item) :
    item.types = group.2.toList ∧ ∀ tag, tag ∈ item.tags ↔ tag ∈ group.1 := by
  rw [groupedItem_checks] at built
  exact checkItem_ok keeps built

theorem toQueryItem_ok (keeps : KeepsNames rules) {filter : EventFilter} {item : QueryItem}
    (converted : filter.toQueryItem rules = .ok item) :
    item.types = filter.types ∧ ∀ tag, tag ∈ item.tags ↔ tag ∈ filter.tags := by
  rw [toQueryItem_checks] at converted
  exact checkItem_ok keeps converted

theorem item_matches {item : QueryItem} {event : Event} :
    item.matches event = true ↔
      (item.types = [] ∨ event.eventType ∈ item.types) ∧ ∀ tag ∈ item.tags, tag ∈ event.tags := by
  simp [QueryItem.matches]

theorem toQueryItem_matches (keeps : KeepsNames rules) {event : Event} {item stored : QueryItem}
    (converted : (eventFilterOf item).toQueryItem rules = .ok stored) :
    stored.matches event = true ↔ item.matches event = true := by
  obtain ⟨types, tags⟩ := toQueryItem_ok keeps converted
  rw [item_matches, item_matches, types]
  simp only [tags, eventFilterOf]

theorem toQuery_matches (keeps : KeepsNames rules) {query stored : Query}
    (converted : (eventQueryOf query).toQuery rules = .ok stored) (event : Event) :
    stored.matches event = query.matches event := by
  cases query with
  | all =>
    obtain rfl := Except.ok.inj converted
    rfl
  | items list =>
    simp only [eventQueryOf, EventQuery.toQuery, do_ok, pure, Except.pure,
      Except.ok.injEq] at converted
    obtain ⟨storedItems, checked, rfl⟩ := converted
    apply Bool.eq_iff_iff.mpr
    simp only [Query.matches, List.any_eq_true]
    rw [List.mapM_map] at checked
    exact mapM_exists (fun _ _ made => toQueryItem_matches keeps made) checked

theorem grouped_select {ε : Type} {check : OrderedSet String × OrderedSet String →
      Except ε QueryItem}
    (checks : ∀ group item, check group = .ok item →
      item.types = group.2.toList ∧ ∀ tag, tag ∈ item.tags ↔ tag ∈ group.1)
    {grouped : GroupedItems} (filled : grouped.Inhabited) {items : List QueryItem}
    (built : grouped.mapM check = .ok items) (event : Event) :
    (Query.items items).matches event = true ↔
      ∃ tags, grouped.Holds tags event.eventType ∧ ∀ tag ∈ tags.toList, tag ∈ event.tags := by
  have agree : ∀ (group : OrderedSet String × OrderedSet String) (item : QueryItem),
      check group = .ok item → (item.matches event = true ↔
        (group.2.toList = [] ∨ event.eventType ∈ group.2) ∧
          ∀ tag ∈ group.1, tag ∈ event.tags) := by
    intro group item made
    obtain ⟨types, tags⟩ := checks group item made
    rw [item_matches, types]
    simp only [tags, OrderedSet.mem_toList]
  rw [Query.matches, List.any_eq_true, mapM_exists agree built]
  constructor
  · intro h
    obtain ⟨group, member, typed, tagged⟩ := h
    have inside : event.eventType ∈ group.2 := by
      rcases typed with none | inside
      · obtain ⟨ty, present⟩ := filled group member
        rw [← OrderedSet.mem_toList, none] at present
        exact absurd present List.not_mem_nil
      · exact inside
    exact ⟨group.1, ⟨group.2, member, inside⟩, tagged⟩
  · intro h
    obtain ⟨tags, ⟨types, member, inside⟩, tagged⟩ := h
    exact ⟨(tags, types), member, Or.inr inside, tagged⟩

theorem buildDcbQuery_matches (keeps : KeepsNames rules) {domainIds : List EventDomainId}
    {bindings : List DomainIdBindings} {query : Query}
    (built : buildDcbQuery rules domainIds bindings = .ok query) (event : Event) :
    query.matches event = true ↔
      ∃ set ∈ bindings, ∃ entry ∈ domainIds, entry.eventType = event.eventType ∧
        ∀ tag ∈ (entryTags entry set).toList, tag ∈ event.tags := by
  simp only [buildDcbQuery, do_ok, pure, Except.pure, Except.ok.injEq] at built
  obtain ⟨items, grouped, rfl⟩ := built
  rw [grouped_select (fun _ _ => groupedItem_ok keeps)
    (inhabited_groupedItems domainIds bindings) grouped]
  constructor
  · intro h
    obtain ⟨tags, held, tagged⟩ := h
    obtain ⟨set, bound, entry, registered, rfl, ty⟩ := holds_groupedItems.mp held
    exact ⟨set, bound, entry, registered, ty, tagged⟩
  · intro h
    obtain ⟨set, bound, entry, registered, ty, tagged⟩ := h
    exact ⟨entryTags entry set,
      holds_groupedItems.mpr ⟨set, bound, entry, registered, rfl, ty⟩, tagged⟩

structure InRules (rules : NameRules) (eventType : String) (tags : OrderedSet String) : Prop where
  eventType : ∃ checked, rules.eventType eventType = .ok checked
  tag : ∀ tag ∈ tags, ∃ checked, rules.tag tag = .ok checked

theorem grouped_checks {ε : Type} {badType badTag : NameError → ε} {badTags : TagsError → ε}
    (keeps : KeepsNames rules)
    (distinct : ∀ list : List String, list.Nodup → ∃ checked, rules.tags list = .ok checked)
    {grouped : GroupedItems} (filled : grouped.Inhabited) :
    (∃ items, grouped.mapM (fun group =>
        checkItem rules badType badTag badTags group.2.toList group.1.toList) = .ok items) ↔
      ∀ group ∈ grouped, ∀ ty ∈ group.2, InRules rules ty group.1 := by
  rw [mapM_succeeds]
  apply forall₂_congr
  intro group member
  rw [checkItem_succeeds keeps]
  constructor
  · intro h ty listed
    obtain ⟨named, tagged, _⟩ := h
    exact ⟨named ty listed, tagged⟩
  · intro each
    obtain ⟨ty, present⟩ := filled group member
    have unique : group.1.toList.Nodup := group.1.ascending.imp fun less => ne_of_lt less
    exact ⟨fun ty listed => (each ty listed).eventType, (each ty present).tag,
      distinct _ unique⟩

theorem buildDcbQuery_succeeds (keeps : KeepsNames rules)
    (distinct : ∀ list : List String, list.Nodup → ∃ checked, rules.tags list = .ok checked)
    {domainIds : List EventDomainId} {bindings : List DomainIdBindings} :
    (∃ query, buildDcbQuery rules domainIds bindings = .ok query) ↔
      ∀ set ∈ bindings, ∀ entry ∈ domainIds,
        InRules rules entry.eventType (entryTags entry set) := by
  have checked : (∃ items, (groupedItems domainIds bindings).mapM (groupedItem rules) =
      .ok items) ↔ ∀ group ∈ groupedItems domainIds bindings, ∀ ty ∈ group.2,
        InRules rules ty group.1 :=
    grouped_checks keeps distinct (inhabited_groupedItems domainIds bindings)
  have pairs := Groupings.forall_putProduct insert_adds (fun set entry => entryTags entry set)
    EventDomainId.eventType bindings domainIds fun tags ty => InRules rules ty tags
  rw [← groupedItems_putProduct] at pairs
  rw [← pairs, ← checked]
  simp only [buildDcbQuery, do_ok, pure, Except.pure]
  constructor
  · intro h
    obtain ⟨query, items, built, _⟩ := h
    exact ⟨items, built⟩
  · intro h
    obtain ⟨items, built⟩ := h
    exact ⟨_, items, built, rfl⟩

end names

end UmariDcbQueries
