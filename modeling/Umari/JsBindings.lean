import Mathlib.Data.List.Sort
import Umari.DcbQueries

/-!
The JavaScript SDK's bindings and its query builder. A JavaScript value stands for
itself up to the text a domain id takes from it. The builder groups the entries by
one string made of their tags; the tags of an item are read back from that string.
-/
namespace UmariJsBindings
open FallibleFolds Groupings UmariEventStore UmariDcbQueries
open UmariDcbQueries.DomainIdBindings

/-- `number` and `object` hold what JavaScript prints for the value. -/
inductive JsValue where
  | undefined
  | null
  | string (text : String)
  | bigint (n : Int)
  | number (finite : Bool) (text : String)
  | boolean (b : Bool)
  | object (text : String)
deriving DecidableEq, Repr

def bindingValue : JsValue → Except String String
  | .string text => .ok text
  | .bigint n => .ok (toString n)
  | .number finite text =>
    if finite then .ok text else .error ("domain id value must be finite, got " ++ text)
  | .boolean b => .ok (if b then "true" else "false")
  | .null => .error "domain id value must not be null/undefined"
  | .undefined => .error "domain id value must not be null/undefined"
  | .object text => .ok text

def encode : JsValue → String
  | .string text => text
  | .bigint n => toString n
  | .number _ text => text
  | .boolean b => if b then "true" else "false"
  | .null => "null"
  | .undefined => "undefined"
  | .object text => text

def absent : JsValue → Bool
  | .undefined => true
  | .null => true
  | _ => false

theorem bindingValue_ok {value : JsValue} {text : String}
    (bound : bindingValue value = .ok text) : text = encode value := by
  unfold bindingValue at bound
  cases value with
  | number finite printed =>
    cases finite
    · exact absurd bound (by simp)
    · exact (Except.ok.inj bound).symm
  | undefined => exact absurd bound (by simp)
  | null => exact absurd bound (by simp)
  | string printed => exact (Except.ok.inj bound).symm
  | bigint n => exact (Except.ok.inj bound).symm
  | boolean b => exact (Except.ok.inj bound).symm
  | object printed => exact (Except.ok.inj bound).symm

/-- `Map.set`: an old key keeps its place. -/
def setBinding (bindings : DomainIdBindings) (field value : String) : DomainIdBindings where
  entries :=
    if field ∈ bindings.entries.map Prod.fst then
      bindings.entries.map fun entry => if entry.1 = field then (field, value) else entry
    else bindings.entries ++ [(field, value)]
  distinct := by
    split
    · have kept : (bindings.entries.map fun entry =>
          if entry.1 = field then (field, value) else entry).map Prod.fst =
          bindings.entries.map Prod.fst := by
        rw [List.map_map]
        apply List.map_congr_left
        intro entry _
        by_cases here : entry.1 = field <;> simp [here]
      rw [kept]
      exact bindings.distinct
    · rename_i fresh
      rw [List.map_append]
      apply List.nodup_append.mpr
      refine ⟨bindings.distinct, List.nodup_singleton _, ?_⟩
      rintro name old _ new rfl
      obtain rfl : name = field := List.mem_singleton.mp new
      exact fresh old

theorem lookup_replaced (entries : List (String × String)) (field value other : String) :
    (entries.map fun entry => if entry.1 = field then (field, value) else entry).lookup other =
      if other = field ∧ field ∈ entries.map Prod.fst then some value
      else entries.lookup other := by
  induction entries with
  | nil => simp
  | cons entry rest ih =>
    obtain ⟨name, old⟩ := entry
    rw [List.map_cons, List.lookup_cons]
    by_cases here : name = field
    · subst here
      by_cases same : other = name
      · simp [same]
      · have differs : (other == name) = false := by simpa using same
        simp [List.lookup_cons, differs, ih, same]
    · rw [if_neg here, List.lookup_cons]
      by_cases same : other = name
      · subst same
        simp [here]
      · have differs : (other == name) = false := by simpa using same
        have later : field ∈ ((name, old) :: rest).map Prod.fst ↔ field ∈ rest.map Prod.fst := by
          simp [Ne.symm here]
        simp only [differs, ih, later]

theorem get_setBinding (bindings : DomainIdBindings) (field value other : String) :
    (setBinding bindings field value).get other =
      if other = field then some value else bindings.get other := by
  unfold DomainIdBindings.get setBinding
  dsimp only
  split
  · rename_i listed
    rw [lookup_replaced]
    by_cases same : other = field <;> simp [same, listed]
  · rename_i fresh
    rw [List.lookup_append]
    by_cases same : other = field
    · subst same
      have missing : bindings.entries.lookup other = none := by
        rw [List.lookup_eq_none_iff]
        intro entry member
        simp only [ne_eq, bne_iff_ne]
        rintro rfl
        exact fresh (List.mem_map.mpr ⟨entry, member, rfl⟩)
      simp [missing]
    · have differs : (other == field) = false := by simpa using same
      simp [List.lookup_cons, differs, same]

def boundText (value : JsValue) : Option String :=
  if absent value then none else some (encode value)

def extractBindings (domainIds : List String) (input : String → JsValue) :
    Except String DomainIdBindings :=
  domainIds.foldlM (fun out field =>
    if absent (input field) then .ok out
    else (bindingValue (input field)).map fun value => setBinding out field value)
    ⟨[], List.nodup_nil⟩

def bindingMap (bindings : String → JsValue) (fields : List String) : DomainIdBindings :=
  fields.foldl (fun out field =>
    if absent (bindings field) then out else setBinding out field (encode (bindings field)))
    ⟨[], List.nodup_nil⟩

theorem extractBindings_eq {domainIds : List String} {input : String → JsValue}
    {bindings : DomainIdBindings} (extracted : extractBindings domainIds input = .ok bindings) :
    bindings = bindingMap input domainIds := by
  unfold extractBindings at extracted
  unfold bindingMap
  generalize (⟨[], List.nodup_nil⟩ : DomainIdBindings) = start at extracted ⊢
  induction domainIds generalizing start with
  | nil => exact (Except.ok.inj extracted).symm
  | cons field rest ih =>
    obtain ⟨mid, here, later⟩ := foldlM_cons_ok.mp extracted
    rw [List.foldl_cons]
    by_cases missing : absent (input field) = true
    · rw [if_pos missing] at here ⊢
      obtain rfl := Except.ok.inj here
      exact ih start later
    · rw [if_neg missing] at here ⊢
      obtain ⟨value, bound, rfl⟩ := mapped_ok.mp here
      obtain rfl := bindingValue_ok bound
      exact ih _ later

theorem get_bindingMap (bindings : String → JsValue) (fields : List String) (field : String) :
    (bindingMap bindings fields).get field =
      if field ∈ fields then boundText (bindings field) else none := by
  have general : ∀ start : DomainIdBindings,
      (fields.foldl (fun out field => if absent (bindings field) then out
        else setBinding out field (encode (bindings field))) start).get field =
      (if field ∈ fields then boundText (bindings field) else none).or (start.get field) := by
    induction fields with
    | nil => simp
    | cons first rest ih =>
      intro start
      rw [List.foldl_cons, ih, boundText]
      by_cases missing : absent (bindings first) = true
      · by_cases here : field = first
        · subst here
          simp [missing]
        · simp [missing, here]
      · rw [if_neg missing, get_setBinding]
        by_cases here : field = first
        · subst here
          by_cases later : field ∈ rest <;> simp [missing, later]
        · simp [here]
  rw [bindingMap, general]
  simp [DomainIdBindings.get]

/-- The tags of one entry under one binding set, as the builder pushes them. -/
def boundTags (entry : EventDomainId) (bindings : DomainIdBindings) : List String :=
  (entry.dynamicFields.filterMap fun field => (bindings.get field).map (fieldTag field)) ++
    entry.staticFields.map fun pair => fieldTag pair.1 pair.2

/-- JavaScript sorts strings by their UTF-16 code units. -/
def codeUnits (text : String) : List Nat :=
  text.toList.flatMap fun c =>
    if c.toNat < 0x10000 then [c.toNat]
    else [0xD800 + (c.toNat - 0x10000) / 0x400, 0xDC00 + (c.toNat - 0x10000) % 0x400]

def sorted (texts : List String) : List String :=
  texts.insertionSort fun a b => codeUnits a ≤ codeUnits b

def unitSeparator : Char := Char.ofNat 0x1f

def join (tags : List String) : String :=
  String.ofList ([unitSeparator].intercalate (tags.map String.toList))

def tagKey (entry : EventDomainId) (bindings : DomainIdBindings) : String :=
  join (sorted (boundTags entry bindings))

def keyTags (key : String) : List String :=
  if key = "" then [] else (key.toList.splitOn unitSeparator).map String.ofList

def addType (eventType : String) (types : List String) : List String :=
  if eventType ∈ types then types else types ++ [eventType]

/-- The builder's map from keys to event types, in the order in which the keys came. -/
def grouped (entries : List EventDomainId) (bindingSets : List DomainIdBindings) :
    Grouping String (List String) :=
  putProduct addType [] (fun bindings entry => tagKey entry bindings) EventDomainId.eventType
    bindingSets entries

def buildDcbQuery (entries : List EventDomainId) (bindingSets : List DomainIdBindings) :
    EventQuery :=
  .items ((grouped entries bindingSets).map fun group => ⟨sorted group.2, keyTags group.1⟩)

def matchesFoldQuery (entry : EventDomainId) (storedTags : List String)
    (bindings : DomainIdBindings) : Bool :=
  (entry.dynamicFields.all fun field =>
    match bindings.get field with
    | none => true
    | some want => storedTags.any fun tag => tag == fieldTag field want) &&
  entry.staticFields.all fun pair => storedTags.any fun tag => tag == fieldTag pair.1 pair.2

theorem matchesFoldQuery_iff {entry : EventDomainId} {storedTags : List String}
    {bindings : DomainIdBindings} :
    matchesFoldQuery entry storedTags bindings = true ↔
      ∀ tag ∈ boundTags entry bindings, tag ∈ storedTags := by
  simp only [matchesFoldQuery, boundTags, Bool.and_eq_true, List.all_eq_true, List.any_eq_true,
    beq_iff_eq, exists_eq_right, List.mem_append, List.mem_filterMap, List.mem_map]
  constructor
  · rintro ⟨dynamicTags, staticTags⟩ tag (⟨field, listed, made⟩ | ⟨pair, listed, rfl⟩)
    · obtain ⟨value, bound, rfl⟩ := Option.map_eq_some_iff.mp made
      have present := dynamicTags field listed
      rw [bound] at present
      simpa using present
    · exact staticTags pair listed
  · intro asked
    constructor
    · intro field listed
      cases bound : bindings.get field with
      | none => rfl
      | some want =>
        have present := asked _ (Or.inl ⟨field, listed, by rw [bound]; rfl⟩)
        simpa using present
    · exact fun pair listed => asked _ (Or.inr ⟨pair, listed, rfl⟩)

theorem mem_sorted {texts : List String} {text : String} : text ∈ sorted texts ↔ text ∈ texts :=
  List.mem_insertionSort _

theorem keyTags_join {tags : List String} (free : ∀ tag ∈ tags, unitSeparator ∉ tag.toList)
    (filled : "" ∉ tags) : keyTags (join tags) = tags := by
  cases tags with
  | nil => rfl
  | cons tag rest =>
    have split : ((join (tag :: rest)).toList.splitOn unitSeparator) =
        (tag :: rest).map String.toList := by
      rw [join, String.toList_ofList]
      apply List.splitOn_intercalate
      · intro chars member
        obtain ⟨name, listed, rfl⟩ := List.mem_map.mp member
        exact free name listed
      · exact List.cons_ne_nil _ _
    have nonempty : join (tag :: rest) ≠ "" := by
      intro empty
      rw [empty] at split
      have single : [[]] = (tag :: rest).map String.toList := split
      obtain ⟨head, _⟩ := List.cons.inj single
      obtain rfl : tag = "" := by simpa using head.symm
      exact filled List.mem_cons_self
    rw [keyTags, if_neg nonempty, split, List.map_map]
    simp

-- a bound value with the separator in it comes back as two tags
example : keyTags (join ["taskId:t\x1f1"]) = ["taskId:t", "1"] := by decide +kernel

/-- The tags by which the built query looks an entry's type up. -/
def queryTags (entry : EventDomainId) (bindings : DomainIdBindings) : List String :=
  keyTags (tagKey entry bindings)

theorem boundTags_filled {entry : EventDomainId} {bindings : DomainIdBindings} {tag : String}
    (bound : tag ∈ boundTags entry bindings) : tag ≠ "" := by
  rintro rfl
  simp [boundTags, fieldTag, String.append_eq_empty_iff] at bound

theorem mem_queryTags {entry : EventDomainId} {bindings : DomainIdBindings}
    (free : ∀ tag ∈ boundTags entry bindings, unitSeparator ∉ tag.toList) {tag : String} :
    tag ∈ queryTags entry bindings ↔ tag ∈ boundTags entry bindings := by
  rw [queryTags, tagKey, keyTags_join, mem_sorted]
  · exact fun tag member => free tag (mem_sorted.mp member)
  · exact fun empty => boundTags_filled (mem_sorted.mp empty) rfl

theorem addType_adds : Adds addType [] where
  added := by
    intro types eventType other
    unfold addType
    by_cases old : eventType ∈ types
    · rw [if_pos old]
      constructor
      · exact Or.inr
      · rintro (rfl | listed)
        · exact old
        · exact listed
    · rw [if_neg old, List.mem_append, List.mem_singleton]
      exact or_comm
  vacant := fun _ => List.not_mem_nil

/-- The query, once the host has taken it, selects exactly what one entry under one of
    the binding sets asks for, as its key tells. -/
theorem buildDcbQuery_matches {rules : NameRules} (keeps : KeepsNames rules)
    {entries : List EventDomainId} {bindingSets : List DomainIdBindings} {stored : Query}
    (passed : (buildDcbQuery entries bindingSets).toQuery rules = .ok stored) (event : Event) :
    stored.matches event = true ↔
      ∃ bindings ∈ bindingSets, ∃ entry ∈ entries, entry.eventType = event.eventType ∧
        ∀ tag ∈ queryTags entry bindings, tag ∈ event.tags := by
  simp only [buildDcbQuery, EventQuery.toQuery, do_ok, pure, Except.pure,
    Except.ok.injEq] at passed
  obtain ⟨items, checked, rfl⟩ := passed
  rw [List.mapM_map] at checked
  have agree : ∀ (group : String × List String) (item : QueryItem),
      EventFilter.toQueryItem rules ⟨sorted group.2, keyTags group.1⟩ = .ok item →
        (item.matches event = true ↔ (group.2 = [] ∨ event.eventType ∈ group.2) ∧
          ∀ tag ∈ keyTags group.1, tag ∈ event.tags) := by
    intro group item converted
    obtain ⟨types, tags⟩ := toQueryItem_ok keeps converted
    rw [item_matches, types]
    have nothing : sorted group.2 = [] ↔ group.2 = [] := by
      simp only [List.eq_nil_iff_forall_not_mem, mem_sorted]
    simp only [tags, mem_sorted, nothing]
  rw [Query.matches, List.any_eq_true, mapM_exists agree checked]
  constructor
  · rintro ⟨group, member, typed, tagged⟩
    have inside : event.eventType ∈ group.2 := by
      apply typed.resolve_left
      intro nothing
      obtain ⟨ty, present⟩ := filled_putProduct addType_adds _ _ _ _ group member
      exact absurd present (by simp [nothing])
    obtain ⟨bindings, bound, entry, listed, key, ty⟩ :=
      (holds_putProduct addType_adds).mp ⟨group.2, member, inside⟩
    refine ⟨bindings, bound, entry, listed, ty, ?_⟩
    rw [queryTags, key]
    exact tagged
  · rintro ⟨bindings, bound, entry, listed, ty, tagged⟩
    have held : Holds (grouped entries bindingSets) (tagKey entry bindings) entry.eventType :=
      (holds_putProduct addType_adds).mpr ⟨bindings, bound, entry, listed, rfl, rfl⟩
    obtain ⟨types, member, inside⟩ := held
    exact ⟨(tagKey entry bindings, types), member, Or.inr (ty ▸ inside), tagged⟩

end UmariJsBindings
