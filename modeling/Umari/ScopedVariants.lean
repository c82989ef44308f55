import Umari.FoldQueries

/-!
Event sets with several variants of one event type. The query asks for the tags of any
of their entries; the filter of a fold looks up the first entry of the type and asks for
its tags alone. The fold sees what its entries accept when the first entry of a type
asks for no tag that another one leaves out.
-/
namespace UmariScopedVariants
open OrderedSets UmariEventStore UmariStoredEvents UmariDcbQueries UmariFolds UmariQueryCoverage
  UmariFoldQueries
variable {V : Type}

/-- All bound dynamic fields and all static fields of an entry are among the tags. -/
structure EntryAccepts (entry : EventDomainId) (bindings : DomainIdBindings)
    (tags : List String) : Prop where
  dynamicFields : ∀ field ∈ entry.dynamicFields, ∀ value, bindings.get field = some value →
    fieldTag field value ∈ tags
  staticFields : ∀ pair ∈ entry.staticFields, fieldTag pair.1 pair.2 ∈ tags

theorem entryAccepts_iff {entry : EventDomainId} {bindings : DomainIdBindings}
    {tags : List String} :
    EntryAccepts entry bindings tags ↔ ∀ tag ∈ entryTags entry bindings, tag ∈ tags := by
  constructor
  · intro accepts tag asked
    rcases mem_entryTags.mp asked with ⟨field, listed, value, bound, rfl⟩ | ⟨pair, listed, rfl⟩
    · exact accepts.dynamicFields field listed value bound
    · exact accepts.staticFields pair listed
  · intro tagged
    constructor
    · intro field listed value bound
      exact tagged _ (mem_entryTags.mpr (Or.inl ⟨field, listed, value, bound, rfl⟩))
    · intro pair listed
      exact tagged _ (mem_entryTags.mpr (Or.inr ⟨pair, listed, rfl⟩))

def SetAccepts (F : Fold V) (bindings : DomainIdBindings) (eventType : String)
    (tags : List String) : Prop :=
  ∃ entry ∈ F.eventDomainIds, entry.eventType = eventType ∧ EntryAccepts entry bindings tags

section passing
variable [DecidableEq V] (codec : Codec V)

/-- `box_apply` of a fold with these bindings hands the event to `from_event`. -/
def passesOn (F : Fold V) (binding : DomainIdBindings) (event : StoredEvent V) : Bool :=
  !shredded codec event && matchesFoldQuery F event.eventType event.tags binding

variable {codec}

theorem boxApply_passesOn {F : Fold V} {fold : F.Self} {binding : DomainIdBindings}
    {state : F.State} {event : StoredEvent V} :
    boxApply codec ⟨F, fold, binding, state⟩ event =
      if passesOn codec F binding event then
        (offer codec F fold state event).map fun state => ⟨F, fold, binding, state⟩
      else .ok ⟨F, fold, binding, state⟩ := by
  unfold passesOn
  cases accepted : matchesFoldQuery F event.eventType event.tags binding with
  | false =>
    rw [Bool.and_false]
    exact boxApply_ignores accepted
  | true =>
    rw [Bool.and_true]
    by_cases gone : shredded codec event = true
    · have skipped : boxApply codec ⟨F, fold, binding, state⟩ event =
          .ok ⟨F, fold, binding, state⟩ := if_pos gone
      rw [gone, skipped]
      rfl
    · rw [Bool.not_eq_true] at gone
      rw [gone]
      exact boxApply_offer accepted

end passing

/-- A fold sees an event that can be read exactly when an entry of its set accepts it. -/
def SeesAccepted [DecidableEq V] (codec : Codec V) (F : Fold V) (bindings : DomainIdBindings) :
    Prop :=
  ∀ event, shredded codec event = false →
    (passesOn codec F bindings event = true ↔
      SetAccepts F bindings event.eventType event.tags)

/-- The first entry of an event type asks for no tag that another entry of the type
    leaves out. -/
def FirstAsksLeast (F : Fold V) (bindings : DomainIdBindings) : Prop :=
  ∀ eventType first, F.required eventType = some first →
    ∀ entry ∈ F.eventDomainIds, entry.eventType = eventType →
      ∀ tag ∈ entryTags first bindings, tag ∈ entryTags entry bindings

def AskAlike (F : Fold V) (bindings : DomainIdBindings) : Prop :=
  ∀ one ∈ F.eventDomainIds, ∀ other ∈ F.eventDomainIds, one.eventType = other.eventType →
    ∀ tag ∈ entryTags one bindings, tag ∈ entryTags other bindings

def declaredAs (F : Fold V) (entries : List EventDomainId) : Fold V :=
  { F with eventDomainIds := entries }

theorem required_isSome {F : Fold V} {entry : EventDomainId} (listed : entry ∈ F.eventDomainIds) :
    ∃ first, F.required entry.eventType = some first := by
  apply Option.isSome_iff_exists.mp
  rw [Fold.required, List.find?_isSome]
  exact ⟨entry, listed, by simp⟩

theorem setAccepts_of_matches {F : Fold V} {bindings : DomainIdBindings} {eventType : String}
    {tags : List String} (accepted : matchesFoldQuery F eventType tags bindings = true) :
    SetAccepts F bindings eventType tags := by
  obtain ⟨first, found, tagged⟩ := matchesFoldQuery_iff.mp accepted
  obtain ⟨listed, ty⟩ := required_mem found
  exact ⟨first, listed, ty, entryAccepts_iff.mpr tagged⟩

theorem matches_of_setAccepts {F : Fold V} {bindings : DomainIdBindings} {eventType : String}
    {tags : List String} (least : FirstAsksLeast F bindings)
    (accepted : SetAccepts F bindings eventType tags) :
    matchesFoldQuery F eventType tags bindings = true := by
  obtain ⟨entry, listed, rfl, tagged⟩ := accepted
  obtain ⟨first, found⟩ := required_isSome listed
  apply matchesFoldQuery_iff.mpr
  refine ⟨first, found, ?_⟩
  intro tag asked
  exact entryAccepts_iff.mp tagged tag (least _ first found entry listed rfl tag asked)

def bareEvent (data : V) (eventType : String) (tags : List String) : StoredEvent V where
  id := 0
  position := 0
  eventType := eventType
  tags := tags
  timestamp := 0
  correlationId := 0
  causationId := 0
  triggeringEventId := none
  idempotencyKey := none
  encryptionScope := none
  encryptionKeyId := none
  data := data

section orders
variable {F : Fold V} {bindings : DomainIdBindings}

theorem least_of_alike (alike : AskAlike F bindings) : FirstAsksLeast F bindings := by
  intro eventType first found entry listed ty
  obtain ⟨among, firstType⟩ := required_mem found
  exact alike first among entry listed (firstType.trans ty.symm)

theorem alike_of_perm {entries : List EventDomainId} (order : entries.Perm F.eventDomainIds)
    (alike : AskAlike F bindings) : AskAlike (declaredAs F entries) bindings := by
  intro one listed other among
  exact alike one (order.subset listed) other (order.subset among)

theorem alike_of_orders
    (least : ∀ entries : List EventDomainId, entries.Perm F.eventDomainIds →
      FirstAsksLeast (declaredAs F entries) bindings) : AskAlike F bindings := by
  intro one listed other among ty
  have order : (one :: F.eventDomainIds.erase one).Perm F.eventDomainIds :=
    (List.perm_cons_erase listed).symm
  have first : (declaredAs F (one :: F.eventDomainIds.erase one)).required one.eventType =
      some one := by
    rw [Fold.required]
    exact List.find?_cons_of_pos (by simp)
  exact least _ order one.eventType one first other (order.symm.subset among) ty.symm

end orders

section agreement
variable [DecidableEq V] {codec : Codec V} {F : Fold V} {bindings : DomainIdBindings}

theorem sees_of_least (least : FirstAsksLeast F bindings) : SeesAccepted codec F bindings := by
  intro event readable
  rw [passesOn, readable, Bool.not_false, Bool.true_and]
  constructor
  · exact setAccepts_of_matches
  · exact matches_of_setAccepts least

theorem least_of_sees (sees : SeesAccepted codec F bindings) : FirstAsksLeast F bindings := by
  intro eventType first found entry listed ty
  have accepted : SetAccepts F bindings eventType (entryTags entry bindings).toList := by
    refine ⟨entry, listed, ty, entryAccepts_iff.mpr ?_⟩
    exact fun tag asked => OrderedSet.mem_toList.mpr asked
  have passed := (sees (bareEvent codec.null eventType (entryTags entry bindings).toList)
    rfl).mpr accepted
  obtain ⟨required, same, tagged⟩ := matchesFoldQuery_iff.mp passed
  obtain rfl : required = first := Option.some.inj (same.symm.trans found)
  exact fun tag asked => OrderedSet.mem_toList.mp (tagged tag asked)

/-- A fold sees what its entries accept exactly when the first entry of each type asks
    for least; it does so in every order of declaration exactly when all entries of a
    type ask for the same. -/
theorem sees_accepted_iff :
    (SeesAccepted codec F bindings ↔ FirstAsksLeast F bindings) ∧
      ((∀ entries : List EventDomainId, entries.Perm F.eventDomainIds →
        SeesAccepted codec (declaredAs F entries) bindings) ↔ AskAlike F bindings) := by
  constructor
  · exact ⟨least_of_sees, sees_of_least⟩
  · constructor
    · intro sees
      exact alike_of_orders fun entries order => least_of_sees (sees entries order)
    · intro alike entries order
      exact sees_of_least (least_of_alike (alike_of_perm order alike))

end agreement

section sample

def scopedFold : Fold String :=
  { countFold taskCreated ["project_id"] with
    eventDomainIds := [⟨"task.created", ["project_id"], [("kind", "bug")]⟩,
      ⟨"task.created", ["project_id"], [("kind", "chore")]⟩] }

def projectOne : DomainIdBindings := ⟨[("project_id", "p1")], by decide⟩

/-- The second variant accepts a chore of the project; the fold does not see it. -/
theorem second_variant_unseen :
    ¬ SeesAccepted (textCodec [] []) scopedFold projectOne := by
  intro sees
  have accepted : SetAccepts scopedFold projectOne "task.created"
      ["project_id:p1", "kind:chore"] := by
    refine ⟨_, List.mem_cons_of_mem _ List.mem_cons_self, rfl, entryAccepts_iff.mpr ?_⟩
    decide +kernel
  have passed := (sees (bareEvent "{}" "task.created" ["project_id:p1", "kind:chore"])
    (by decide)).mpr accepted
  exact absurd passed (by decide +kernel)

end sample
end UmariScopedVariants
