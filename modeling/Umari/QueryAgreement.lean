import Umari.JsBindings
import Umari.QueryCoverage

/-!
The JavaScript query builder against the Rust one. Both make the same tags of an entry
and a binding set. The Rust builder collects them in a set; the JavaScript builder joins
them into one string and splits it again, so a tag that was made twice comes back twice,
and a tag with the separator in it comes back in pieces.
-/
namespace UmariQueryAgreement
open FallibleFolds Groupings OrderedSets UmariEventStore UmariJsBindings
open UmariDcbQueries hiding buildDcbQuery
open UmariQueryCoverage (taskCreated taskInput plainNames_keep)

/-- The store's constructors for tags refuse an empty tag and a repeated one. -/
structure ChecksTags (rules : NameRules) : Prop where
  tag : ∀ name, (∃ checked, rules.tag name = .ok checked) ↔ name ≠ ""
  tags : ∀ list, (∃ checked, rules.tags list = .ok checked) ↔ list.Nodup

/-- The Rust query is built and the host takes it. -/
def RustQuery (rules : NameRules) (entries : List EventDomainId)
    (bindingSets : List DomainIdBindings) (stored : Query) : Prop :=
  ∃ query, UmariDcbQueries.buildDcbQuery rules entries bindingSets = .ok query ∧
    (eventQueryOf query).toQuery rules = .ok stored

/-- The host takes the JavaScript query where it takes the Rust one, and both select the
    same events. -/
structure JsAgrees (rules : NameRules) (entries : List EventDomainId)
    (bindingSets : List DomainIdBindings) : Prop where
  accepted : ∀ stored, RustQuery rules entries bindingSets stored →
    ∃ other, (buildDcbQuery entries bindingSets).toQuery rules = .ok other
  selected : ∀ stored other, RustQuery rules entries bindingSets stored →
    (buildDcbQuery entries bindingSets).toQuery rules = .ok other →
    ∀ event, other.matches event = stored.matches event

def pieces (tag : String) : List String :=
  (tag.toList.splitOn unitSeparator).map String.ofList

def boundPieces (entry : EventDomainId) (bindings : DomainIdBindings) : List String :=
  (boundTags entry bindings).flatMap pieces

/-- Cut at the separator, the tags of an entry under a binding set are all there, each
    once, and ask for no more and no less than some entry of the same type does uncut. -/
structure CutsHarmless (entries : List EventDomainId) (bindingSets : List DomainIdBindings) :
    Prop where
  filled : ∀ set ∈ bindingSets, ∀ entry ∈ entries, "" ∉ boundPieces entry set
  distinct : ∀ set ∈ bindingSets, ∀ entry ∈ entries, (boundPieces entry set).Nodup
  noMore : ∀ set ∈ bindingSets, ∀ entry ∈ entries, ∃ set' ∈ bindingSets, ∃ entry' ∈ entries,
    entry'.eventType = entry.eventType ∧ boundPieces entry' set' ⊆ boundTags entry set
  noLess : ∀ set ∈ bindingSets, ∀ entry ∈ entries, ∃ set' ∈ bindingSets, ∃ entry' ∈ entries,
    entry'.eventType = entry.eventType ∧ boundTags entry' set' ⊆ boundPieces entry set

section cutting

theorem splitOn_join {tags : List String} (some : tags ≠ []) :
    (join tags).toList.splitOn unitSeparator =
      tags.flatMap fun tag => tag.toList.splitOn unitSeparator := by
  rw [join, String.toList_ofList]
  induction tags with
  | nil => exact absurd rfl some
  | cons tag rest ih =>
    cases rest with
    | nil => simp
    | cons next more =>
      rw [List.map_cons, List.map_cons, List.intercalate_cons_cons, List.append_assoc,
        List.singleton_append, List.splitOn_append_cons_self, List.flatMap_cons]
      congr 1
      exact ih (List.cons_ne_nil _ _)

theorem join_ne_empty {tag : String} {rest : List String} (filled : tag ≠ "") :
    join (tag :: rest) ≠ "" := by
  intro empty
  apply filled
  have chars := congrArg String.toList empty
  rw [join, String.toList_ofList, List.map_cons] at chars
  apply String.toList_inj.mp
  cases rest with
  | nil => simpa using chars
  | cons next more =>
    rw [List.map_cons, List.intercalate_cons_cons] at chars
    simp at chars

theorem keyTags_pieces {tags : List String} (filled : ∀ tag ∈ tags, tag ≠ "") :
    keyTags (join tags) = tags.flatMap pieces := by
  cases tags with
  | nil => rfl
  | cons tag rest =>
    rw [keyTags, if_neg (join_ne_empty (filled tag List.mem_cons_self)),
      splitOn_join (List.cons_ne_nil _ _), List.map_flatMap]
    rfl

theorem queryTags_pieces (entry : EventDomainId) (set : DomainIdBindings) :
    (queryTags entry set).Perm (boundPieces entry set) := by
  rw [queryTags, tagKey, keyTags_pieces fun tag member =>
    boundTags_filled (mem_sorted.mp member)]
  exact (List.perm_insertionSort _ _).flatMap_right pieces

theorem pieces_whole {tag : String} (free : unitSeparator ∉ tag.toList) : pieces tag = [tag] := by
  have whole : tag.toList.splitOn unitSeparator = [tag.toList] := by
    have single : ([unitSeparator].intercalate [tag.toList]).splitOn unitSeparator =
        [tag.toList] :=
      List.splitOn_intercalate unitSeparator (by simpa using free) (List.cons_ne_nil _ _)
    rwa [List.intercalate_singleton] at single
  rw [pieces, whole]
  simp

end cutting

section acceptance
variable {rules : NameRules} {entries : List EventDomainId} {bindingSets : List DomainIdBindings}

theorem toQueryItem_succeeds (keeps : KeepsNames rules) (checks : ChecksTags rules)
    {types tags : List String} :
    (∃ item, EventFilter.toQueryItem rules ⟨types, tags⟩ = .ok item) ↔
      (∀ ty ∈ types, ∃ checked, rules.eventType ty = .ok checked) ∧ "" ∉ tags ∧ tags.Nodup := by
  rw [toQueryItem_checks, checkItem_succeeds keeps, checks.tags]
  simp only [checks.tag]
  apply and_congr_right
  intro _
  apply and_congr_left
  intro _
  constructor
  · intro filled empty
    exact filled "" empty rfl
  · intro filled tag listed
    rintro rfl
    exact filled listed

theorem toQuery_succeeds (keeps : KeepsNames rules) (checks : ChecksTags rules) :
    (∃ other, (buildDcbQuery entries bindingSets).toQuery rules = .ok other) ↔
      ∀ set ∈ bindingSets, ∀ entry ∈ entries,
        (∃ checked, rules.eventType entry.eventType = .ok checked) ∧
          "" ∉ boundPieces entry set ∧ (boundPieces entry set).Nodup := by
  have groups : (∃ other, (buildDcbQuery entries bindingSets).toQuery rules = .ok other) ↔
      ∀ group ∈ grouped entries bindingSets,
        ∃ item, EventFilter.toQueryItem rules ⟨sorted group.2, keyTags group.1⟩ = .ok item := by
    rw [← mapM_succeeds]
    simp only [buildDcbQuery, EventQuery.toQuery, do_ok, pure, Except.pure, List.mapM_map]
    constructor
    · rintro ⟨_, items, checked, _⟩
      exact ⟨items, checked⟩
    · rintro ⟨items, checked⟩
      exact ⟨_, items, checked, rfl⟩
  rw [groups]
  have held := forall_putProduct addType_adds (fun set entry => tagKey entry set)
    EventDomainId.eventType bindingSets entries fun key ty =>
      (∃ checked, rules.eventType ty = .ok checked) ∧ "" ∉ keyTags key ∧ (keyTags key).Nodup
  have same : ∀ set entry, "" ∉ keyTags (tagKey entry set) ∧ (keyTags (tagKey entry set)).Nodup ↔
      "" ∉ boundPieces entry set ∧ (boundPieces entry set).Nodup := by
    intro set entry
    have shuffled := queryTags_pieces entry set
    rw [queryTags] at shuffled
    rw [shuffled.mem_iff, shuffled.nodup_iff]
  simp only [same] at held
  rw [← held]
  apply forall₂_congr
  intro group member
  rw [toQueryItem_succeeds keeps checks]
  obtain ⟨ty, first⟩ := filled_putProduct addType_adds _ _ _ _ group member
  simp only [mem_sorted]
  constructor
  · rintro ⟨named, fine⟩ ty listed
    exact ⟨named ty listed, fine⟩
  · intro each
    exact ⟨fun ty listed => (each ty listed).1, (each ty first).2⟩

theorem rust_types (keeps : KeepsNames rules) (checks : ChecksTags rules) {stored : Query}
    (built : RustQuery rules entries bindingSets stored) :
    ∀ set ∈ bindingSets, ∀ entry ∈ entries,
      ∃ checked, rules.eventType entry.eventType = .ok checked := by
  obtain ⟨query, made, _⟩ := built
  have distinct : ∀ list : List String, list.Nodup → ∃ checked, rules.tags list = .ok checked :=
    fun list => (checks.tags list).mpr
  have named := (buildDcbQuery_succeeds keeps distinct).mp ⟨query, made⟩
  exact fun set bound entry listed => (named set bound entry listed).eventType

end acceptance

section selection
universe u v
variable {ι : Type u} {τ : Type v}

theorem met_alike_iff {P : ι → Prop} {a b : ι → List τ} :
    (∀ tags : List τ, (∃ i, P i ∧ a i ⊆ tags) ↔ ∃ i, P i ∧ b i ⊆ tags) ↔
      (∀ i, P i → ∃ j, P j ∧ a j ⊆ b i) ∧ ∀ i, P i → ∃ j, P j ∧ b j ⊆ a i := by
  constructor
  · intro alike
    constructor
    · intro i inside
      exact (alike (b i)).mpr ⟨i, inside, List.Subset.refl _⟩
    · intro i inside
      exact (alike (a i)).mp ⟨i, inside, List.Subset.refl _⟩
  · rintro ⟨left, right⟩ tags
    constructor
    · rintro ⟨i, inside, met⟩
      obtain ⟨j, among, fewer⟩ := right i inside
      exact ⟨j, among, List.Subset.trans fewer met⟩
    · rintro ⟨i, inside, met⟩
      obtain ⟨j, among, fewer⟩ := left i inside
      exact ⟨j, among, List.Subset.trans fewer met⟩

end selection

section agreement
variable {rules : NameRules} {entries : List EventDomainId} {bindingSets : List DomainIdBindings}
  {stored : Query}

theorem mem_boundTags {entry : EventDomainId} {set : DomainIdBindings} {tag : String} :
    tag ∈ entryTags entry set ↔ tag ∈ boundTags entry set := OrderedSet.mem_ofList

def Asked (entries : List EventDomainId) (bindingSets : List DomainIdBindings)
    (eventType : String) (pair : DomainIdBindings × EventDomainId) : Prop :=
  pair.1 ∈ bindingSets ∧ pair.2 ∈ entries ∧ pair.2.eventType = eventType

theorem rust_selects (keeps : KeepsNames rules)
    (built : RustQuery rules entries bindingSets stored) (event : Event) :
    stored.matches event = true ↔
      ∃ pair, Asked entries bindingSets event.eventType pair ∧
        boundTags pair.2 pair.1 ⊆ event.tags := by
  obtain ⟨query, made, passed⟩ := built
  rw [toQuery_matches keeps passed, UmariDcbQueries.buildDcbQuery_matches keeps made]
  simp only [OrderedSet.mem_toList, mem_boundTags]
  constructor
  · rintro ⟨set, bound, entry, listed, ty, tagged⟩
    exact ⟨(set, entry), ⟨bound, listed, ty⟩, tagged⟩
  · rintro ⟨⟨set, entry⟩, ⟨bound, listed, ty⟩, tagged⟩
    exact ⟨set, bound, entry, listed, ty, tagged⟩

theorem js_selects (keeps : KeepsNames rules) {other : Query}
    (passed : (buildDcbQuery entries bindingSets).toQuery rules = .ok other) (event : Event) :
    other.matches event = true ↔
      ∃ pair, Asked entries bindingSets event.eventType pair ∧
        boundPieces pair.2 pair.1 ⊆ event.tags := by
  rw [UmariJsBindings.buildDcbQuery_matches keeps passed]
  constructor
  · rintro ⟨set, bound, entry, listed, ty, tagged⟩
    refine ⟨(set, entry), ⟨bound, listed, ty⟩, ?_⟩
    exact fun tag piece => tagged tag ((queryTags_pieces entry set).mem_iff.mpr piece)
  · rintro ⟨⟨set, entry⟩, ⟨bound, listed, ty⟩, tagged⟩
    refine ⟨set, bound, entry, listed, ty, ?_⟩
    exact fun tag queried => tagged ((queryTags_pieces entry set).mem_iff.mp queried)

/-- The two queries select alike when, type by type, the cut tags of the entries ask for
    what their whole tags ask for. -/
theorem selected_iff (keeps : KeepsNames rules) {other : Query}
    (built : RustQuery rules entries bindingSets stored)
    (passed : (buildDcbQuery entries bindingSets).toQuery rules = .ok other) :
    (∀ event, other.matches event = stored.matches event) ↔
      ∀ ty, (∀ pair, Asked entries bindingSets ty pair → ∃ other,
          Asked entries bindingSets ty other ∧
            boundPieces other.2 other.1 ⊆ boundTags pair.2 pair.1) ∧
        ∀ pair, Asked entries bindingSets ty pair → ∃ other,
          Asked entries bindingSets ty other ∧
            boundTags other.2 other.1 ⊆ boundPieces pair.2 pair.1 := by
  simp only [Bool.eq_iff_iff, rust_selects keeps built, js_selects keeps passed]
  constructor
  · intro alike ty
    apply met_alike_iff.mp
    exact fun tags => alike ⟨ty, tags, []⟩
  · intro implied event
    exact met_alike_iff.mpr (implied event.eventType) event.tags

/-- The builders agree exactly when cutting the tags at the separator does no harm. -/
theorem js_agrees_iff (keeps : KeepsNames rules) (checks : ChecksTags rules)
    (built : RustQuery rules entries bindingSets stored) :
    JsAgrees rules entries bindingSets ↔ CutsHarmless entries bindingSets := by
  have named := rust_types keeps checks built
  constructor
  · intro agrees
    obtain ⟨other, passed⟩ := agrees.accepted stored built
    have fine := (toQuery_succeeds keeps checks).mp ⟨other, passed⟩
    have implied := (selected_iff keeps built passed).mp (agrees.selected stored other built passed)
    constructor
    · exact fun set bound entry listed => (fine set bound entry listed).2.1
    · exact fun set bound entry listed => (fine set bound entry listed).2.2
    · intro set bound entry listed
      obtain ⟨⟨set', entry'⟩, ⟨bound', listed', ty⟩, fewer⟩ :=
        (implied entry.eventType).1 (set, entry) ⟨bound, listed, rfl⟩
      exact ⟨set', bound', entry', listed', ty, fewer⟩
    · intro set bound entry listed
      obtain ⟨⟨set', entry'⟩, ⟨bound', listed', ty⟩, fewer⟩ :=
        (implied entry.eventType).2 (set, entry) ⟨bound, listed, rfl⟩
      exact ⟨set', bound', entry', listed', ty, fewer⟩
  · intro harmless
    constructor
    · intro _ _
      apply (toQuery_succeeds keeps checks).mpr
      intro set bound entry listed
      exact ⟨named set bound entry listed, harmless.filled set bound entry listed,
        harmless.distinct set bound entry listed⟩
    · intro other query again passed
      apply (selected_iff keeps again passed).mpr
      intro ty
      constructor
      · rintro ⟨set, entry⟩ ⟨bound, listed, rfl⟩
        obtain ⟨set', bound', entry', listed', ty, fewer⟩ := harmless.noMore set bound entry listed
        exact ⟨(set', entry'), ⟨bound', listed', ty⟩, fewer⟩
      · rintro ⟨set, entry⟩ ⟨bound, listed, rfl⟩
        obtain ⟨set', bound', entry', listed', ty, fewer⟩ := harmless.noLess set bound entry listed
        exact ⟨(set', entry'), ⟨bound', listed', ty⟩, fewer⟩

theorem harmless_of_free
    (free : ∀ set ∈ bindingSets, ∀ entry ∈ entries, ∀ tag ∈ boundTags entry set,
      unitSeparator ∉ tag.toList) :
    CutsHarmless entries bindingSets ↔
      ∀ set ∈ bindingSets, ∀ entry ∈ entries, (boundTags entry set).Nodup := by
  have whole : ∀ set ∈ bindingSets, ∀ entry ∈ entries,
      boundPieces entry set = boundTags entry set := by
    intro set bound entry listed
    rw [boundPieces, List.flatMap_congr fun tag member =>
      pieces_whole (free set bound entry listed tag member)]
    simp
  constructor
  · intro harmless set bound entry listed
    rw [← whole set bound entry listed]
    exact harmless.distinct set bound entry listed
  · intro distinct
    constructor
    · intro set bound entry listed
      rw [whole set bound entry listed]
      exact fun empty => boundTags_filled empty rfl
    · intro set bound entry listed
      rw [whole set bound entry listed]
      exact distinct set bound entry listed
    · intro set bound entry listed
      refine ⟨set, bound, entry, listed, rfl, ?_⟩
      rw [whole set bound entry listed]
      exact List.Subset.refl _
    · intro set bound entry listed
      refine ⟨set, bound, entry, listed, rfl, ?_⟩
      rw [whole set bound entry listed]
      exact List.Subset.refl _

end agreement

section sample

theorem plainNames_check : ChecksTags plainNames := by
  constructor
  · intro name
    by_cases empty : name = "" <;> simp [plainNames, empty]
  · intro list
    by_cases distinct : list.Nodup <;> simp [plainNames, distinct]

theorem rust_built {entry : EventDomainId} {set : DomainIdBindings} {item : QueryItem}
    (built : groupedItem plainNames (entryTags entry set,
      OrderedSet.empty.insert entry.eventType) = .ok item)
    (passed : (eventFilterOf item).toQueryItem plainNames = .ok item) :
    RustQuery plainNames [entry] [set] (.items [item]) := by
  refine ⟨.items [item], ?_, ?_⟩
  · exact do_ok.mpr ⟨[item], mapM_ok.mpr (List.Forall₂.cons built List.Forall₂.nil), rfl⟩
  · exact do_ok.mpr ⟨[item], mapM_ok.mpr (List.Forall₂.cons passed List.Forall₂.nil), rfl⟩

/-- A field that is bound to the value it has as a literal makes its tag twice. -/
def literalAndBound : EventDomainId := ⟨"webhook.received", ["topic"], [("topic", "orders")]⟩

def boundToOrders : DomainIdBindings := ⟨[("topic", "orders")], by decide⟩

theorem repeated_tag_refused : ¬ JsAgrees plainNames [literalAndBound] [boundToOrders] := by
  intro agrees
  have built : RustQuery plainNames [literalAndBound] [boundToOrders]
      (.items [⟨["webhook.received"], ["topic:orders"]⟩]) :=
    rust_built (by decide +kernel) (by decide +kernel)
  obtain ⟨other, passed⟩ := agrees.accepted _ built
  have fine := (toQuery_succeeds plainNames_keep plainNames_check).mp ⟨other, passed⟩
  exact absurd (fine boundToOrders List.mem_cons_self literalAndBound List.mem_cons_self).2.2
    (by decide +kernel)

theorem task_queries_agree : JsAgrees plainNames [taskCreated] [taskInput] := by
  have built : RustQuery plainNames [taskCreated] [taskInput]
      (.items [⟨["task.created"], ["project_id:p1", "task_id:t1"]⟩]) :=
    rust_built (by decide +kernel) (by decide +kernel)
  apply (js_agrees_iff plainNames_keep plainNames_check built).mpr
  apply (harmless_of_free (by decide +kernel)).mpr
  decide +kernel

end sample
end UmariQueryAgreement
