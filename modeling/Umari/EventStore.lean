import Umari.PositionedLogs

/-!
The event store as its callers see it. The store itself (tephra) is not part of
the repository: its name checks are parameters, a read returns the matching
events of one snapshot together with the watermark of that snapshot, and an
append with a condition is one atomic step. The conversion of the guest's
event query into a store query is the runtime's own code.
-/
namespace UmariEventStore
open PositionedLogs

structure NameError where
  message : String
deriving DecidableEq, Repr

structure TagsError where
  message : String
deriving DecidableEq, Repr

inductive QueryError where
  | name (error : NameError)
  | tags (error : TagsError)
deriving DecidableEq, Repr

structure Event where
  eventType : String
  tags : List String
  data : List UInt8
deriving DecidableEq, Repr

structure NameRules where
  eventType : String → Except NameError String
  tag : String → Except NameError String
  tags : List String → Except TagsError (List String)
  event : String → List String → List UInt8 → Except String Event

/-- Name checks that reject the empty name and a repeated tag, and nothing else. -/
def plainNames : NameRules where
  eventType := fun name => if name = "" then .error ⟨"event type is empty"⟩ else .ok name
  tag := fun name => if name = "" then .error ⟨"tag is empty"⟩ else .ok name
  tags := fun tags => if tags.Nodup then .ok tags else .error ⟨"duplicate tag"⟩
  event := fun eventType tags data => .ok ⟨eventType, tags, data⟩

/-- Guest-side filter: an empty list of types or tags does not restrict. -/
structure EventFilter where
  types : List String
  tags : List String
deriving DecidableEq, Repr

inductive EventQuery where
  | all
  | items (filters : List EventFilter)
deriving DecidableEq, Repr

structure QueryItem where
  types : List String
  tags : List String
deriving DecidableEq, Repr

inductive Query where
  | all
  | items (items : List QueryItem)
deriving DecidableEq, Repr

def QueryError.ofName : Except NameError α → Except QueryError α :=
  Except.mapError QueryError.name

def QueryError.ofTags : Except TagsError α → Except QueryError α :=
  Except.mapError QueryError.tags

def EventFilter.toQueryItem (rules : NameRules) (item : EventFilter) :
    Except QueryError QueryItem := do
  let types ← item.types.mapM (fun ty => QueryError.ofName (rules.eventType ty))
  let tagList ← item.tags.mapM (fun tag => QueryError.ofName (rules.tag tag))
  let tags ← QueryError.ofTags (rules.tags tagList)
  pure ⟨types, tags⟩

def EventQuery.toQuery (rules : NameRules) : EventQuery → Except QueryError Query
  | .all => pure .all
  | .items filters => do
    let items ← filters.mapM (EventFilter.toQueryItem rules)
    pure (.items items)

def QueryItem.matches (item : QueryItem) (event : Event) : Bool :=
  (item.types.isEmpty || item.types.contains event.eventType) &&
    item.tags.all event.tags.contains

def Query.matches (query : Query) (event : Event) : Bool :=
  match query with
  | .all => true
  | .items list => list.any (·.matches event)

/-- One read: the matching events above `after`, up to the watermark of its snapshot. -/
def readUpTo (log : List Event) (query : Query) (after watermark : Nat) : List (Nat × Event) :=
  window query.matches log after watermark

structure AppendCondition where
  failIfEventsMatch : Query
  after : Nat
deriving DecidableEq, Repr

inductive AppendError where
  | conflict
deriving DecidableEq, Repr

/-- Positions taken by one append, both ends included. -/
structure Range where
  first : Nat
  last : Nat
deriving DecidableEq, Repr

def AppendCondition.violated (condition : AppendCondition) (log : List Event) : Bool :=
  (entries log).any fun entry =>
    decide (condition.after < entry.1) && condition.failIfEventsMatch.matches entry.2

def append (log : List Event) (events : List Event) (condition : Option AppendCondition) :
    Except AppendError (List Event × Range) :=
  if condition.any (·.violated log) then .error .conflict
  else .ok (log ++ events, ⟨log.length + 1, log.length + events.length⟩)

/-- A live subscription; `position` is the exclusive lower bound of what is still to come. -/
structure Subscription where
  query : Query
  position : Nat
deriving DecidableEq, Repr

/-- The next batch: every matching event up to `upto`, where the cursor then stands. -/
def Subscription.nextBatch (sub : Subscription) (log : List Event) (upto : Nat) :
    List (Nat × Event) × Subscription :=
  (window sub.query.matches log sub.position upto, { sub with position := upto })

theorem matches_congr {a b : Event} (ty : a.eventType = b.eventType)
    (tags : ∀ tag, tag ∈ a.tags ↔ tag ∈ b.tags) (query : Query) :
    query.matches a = query.matches b := by
  cases query with
  | all => rfl
  | items list =>
    apply Bool.eq_iff_iff.mpr
    simp [Query.matches, QueryItem.matches, ty, tags]

theorem violated_eq_false {condition : AppendCondition} {log : List Event} :
    condition.violated log = false ↔
      ∀ p e, (p, e) ∈ entries log → condition.after < p →
        condition.failIfEventsMatch.matches e = false := by
  rw [AppendCondition.violated, List.any_eq_false]
  constructor
  · intro clear p e member above
    have none := clear (p, e) member
    simpa [above] using none
  · rintro clear ⟨p, e⟩ member
    by_cases above : condition.after < p
    · simp [clear p e member above]
    · simp [above]

theorem append_ok {log events log' : List Event} {condition : Option AppendCondition}
    {range : Range} (appended : append log events condition = .ok (log', range)) :
    log' = log ++ events ∧ range.first = log.length + 1 ∧
      range.last = log.length + events.length ∧
      ∀ c, condition = some c → c.violated log = false := by
  rw [append] at appended
  split at appended
  · exact absurd appended (by simp)
  · rename_i clear
    simp only [Except.ok.injEq, Prod.mk.injEq] at appended
    obtain ⟨rfl, rfl⟩ := appended
    refine ⟨rfl, rfl, rfl, ?_⟩
    intro c found
    subst found
    simpa using clear

theorem append_fenced {log events log' : List Event} {query : Query} {after : Nat}
    {range : Range} (appended : append log events (some ⟨query, after⟩) = .ok (log', range))
    {p : Nat} {e : Event} (member : (p, e) ∈ entries log') (above : after < p)
    (before : p < range.first) : query.matches e = false := by
  obtain ⟨rfl, first, _, clear⟩ := append_ok appended
  have old : (p, e) ∈ entries log := mem_entries_of_le member (by omega)
  exact violated_eq_false.mp (clear _ rfl) p e old above

theorem readUpTo_extend {log : List Event} {query : Query} {low high : Nat} (le : low ≤ high)
    (quiet : ∀ p e, (p, e) ∈ entries log → low < p → p ≤ high → query.matches e = false) :
    readUpTo log query 0 low = readUpTo log query 0 high := by
  have none : window query.matches log low high = [] := by
    rw [List.eq_nil_iff_forall_not_mem]
    rintro ⟨p, e⟩ member
    obtain ⟨inLog, above, below, kept⟩ := mem_window.mp member
    rw [quiet p e inLog above below] at kept
    exact Bool.false_ne_true kept
  rw [readUpTo, readUpTo, window_split (Nat.zero_le low) le, none, List.append_nil]

end UmariEventStore
