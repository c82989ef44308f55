import Umari.FoldHandles
import Umari.JsFolds
import Umari.QueryAgreement

/-!
The query of a fold query against the folds it is made for. Every entry of every fold
meets the bindings of every fold, its own and the others', and an entry asks for fewer
tags where fewer of its fields are bound. The query reads no more than the folds accept
when such a crossed entry still asks for all that some fold asks for of its type.
-/
namespace UmariQueryMinimality
open FallibleFolds OrderedSets UmariEventStore UmariDcbQueries UmariJsBindings UmariJsFolds
open UmariQueryAgreement
open UmariFoldHandles (FoldTypes FoldEntry FoldQuery Registration build Taken)
open UmariQueryCoverage (plainNames_keep)
variable {V : Type} {T : FoldTypes V} {rules : NameRules}

def accepts (entry : FoldEntry T) (event : Event) : Bool :=
  UmariFolds.matchesFoldQuery (T.fold entry.name) event.eventType event.tags entry.binding

/-- Each bound fold brings its entries and its bindings; the builder crosses them all. -/
def foldQuery (folds : List (String × BoundFold V)) : EventQuery :=
  UmariJsBindings.buildDcbQuery (folds.flatMap fun fold => fold.2.entries)
    (folds.map fun fold => fold.2.bindings)

/-- Under the bindings of any fold, an entry asks for all the tags that some fold asks for
    of its type. -/
def OwnTags (fq : FoldQuery T) : Prop :=
  ∀ entry ∈ fq.domainIds, ∀ running ∈ fq.folds, ∃ owner ∈ fq.folds, ∃ required,
    (T.fold owner.name).required entry.eventType = some required ∧
      boundTags required owner.binding ⊆ boundTags entry running.binding

/-- The same of the bound folds, where the tags that are asked for come in pieces. -/
def OwnPieces (folds : List (String × BoundFold V)) : Prop :=
  ∀ fold ∈ folds, ∀ entry ∈ fold.2.entries, ∀ running ∈ folds, ∃ owner ∈ folds, ∃ required,
    owner.2.required entry.eventType = some required ∧
      boundTags required owner.2.bindings ⊆ boundPieces entry running.2.bindings

theorem accepts_required {entry : FoldEntry T} {event : Event} :
    accepts entry event = true ↔
      ∃ required, (T.fold entry.name).required event.eventType = some required ∧
        boundTags required entry.binding ⊆ event.tags := by
  simp only [accepts, UmariFolds.matchesFoldQuery_iff, mem_boundTags]
  exact Iff.rfl

theorem rust_minimal_iff (keeps : KeepsNames rules) {fq : FoldQuery T} {stored : Query}
    (taken : Taken rules fq stored) :
    (∀ event, stored.matches event = true → ∃ entry ∈ fq.folds, accepts entry event = true) ↔
      OwnTags fq := by
  simp only [rust_selects keeps taken, accepts_required]
  constructor
  · intro minimal entry listed running member
    have asked : Asked fq.domainIds (fq.folds.map FoldEntry.binding) entry.eventType
        (running.binding, entry) := ⟨List.mem_map.mpr ⟨running, member, rfl⟩, listed, rfl⟩
    exact minimal ⟨entry.eventType, boundTags entry running.binding, []⟩
      ⟨_, asked, List.Subset.refl _⟩
  · intro own event selected
    obtain ⟨⟨set, entry⟩, ⟨bound, listed, ty⟩, tagged⟩ := selected
    obtain ⟨running, member, rfl⟩ := List.mem_map.mp bound
    obtain ⟨owner, registered, required, found, fewer⟩ := own entry listed running member
    exact ⟨owner, registered, required, ty ▸ found, List.Subset.trans fewer tagged⟩

theorem js_minimal_iff (keeps : KeepsNames rules) {folds : List (String × BoundFold V)}
    {stored : Query} (passed : (foldQuery folds).toQuery rules = .ok stored) :
    (∀ event, stored.matches event = true →
        ∃ fold ∈ folds, fold.2.accepts event.eventType event.tags = true) ↔
      OwnPieces folds := by
  simp only [js_selects keeps passed, accepts_iff]
  constructor
  · intro minimal fold listed entry own running member
    have asked : Asked (folds.flatMap fun fold => fold.2.entries)
        (folds.map fun fold => fold.2.bindings) entry.eventType (running.2.bindings, entry) :=
      ⟨List.mem_map.mpr ⟨running, member, rfl⟩, List.mem_flatMap.mpr ⟨fold, listed, own⟩, rfl⟩
    exact minimal ⟨entry.eventType, boundPieces entry running.2.bindings, []⟩
      ⟨_, asked, List.Subset.refl _⟩
  · intro own event selected
    obtain ⟨⟨set, entry⟩, ⟨bound, listed, ty⟩, tagged⟩ := selected
    obtain ⟨running, member, rfl⟩ := List.mem_map.mp bound
    obtain ⟨fold, registered, brought⟩ := List.mem_flatMap.mp listed
    obtain ⟨owner, among, required, found, fewer⟩ :=
      own fold registered entry brought running member
    exact ⟨owner, among, required, ty ▸ found, List.Subset.trans fewer tagged⟩

/-- Whatever was registered, the query that the store gets selects only what some fold
    accepts, exactly when no entry asks for less under the bindings of another fold. -/
theorem fold_queries_minimal_iff (keeps : KeepsNames rules) :
    (∀ (registrations : List (Registration T)) (stored : Query),
      Taken rules (build registrations) stored →
      ((∀ event, stored.matches event = true →
          ∃ entry ∈ (build registrations).folds, accepts entry event = true) ↔
        OwnTags (build registrations))) ∧
    ∀ (folds : List (String × BoundFold V)) (stored : Query),
      (foldQuery folds).toQuery rules = .ok stored →
      ((∀ event, stored.matches event = true →
          ∃ fold ∈ folds, fold.2.accepts event.eventType event.tags = true) ↔
        OwnPieces folds) := by
  constructor
  · intro registrations stored taken
    exact rust_minimal_iff keeps taken
  · intro folds stored passed
    exact js_minimal_iff keeps passed

theorem ownTags_one_type {fq : FoldQuery T} {name : T.Name}
    (single : ∀ entry ∈ fq.folds, entry.name = name)
    (decides : ∀ listed ∈ fq.domainIds,
      (T.fold name).required listed.eventType = some listed) : OwnTags fq := by
  intro entry listed running member
  refine ⟨running, member, entry, ?_, List.Subset.refl _⟩
  rw [single running member]
  exact decides entry listed

section sample

inductive Subject where
  | task
  | user
deriving DecidableEq

def subjectEntry : Subject → EventDomainId
  | .task => ⟨"task.created", ["project_id"], []⟩
  | .user => ⟨"user.created", ["user_id"], []⟩

def subjectTypes : FoldTypes String where
  Name := Subject
  TypeId := Unit
  sameType := inferInstance
  State := fun _ => Nat
  stateType := fun _ => ()
  Self := fun _ => DomainIdBindings
  Item := fun _ => String
  eventDomainIds := fun name => [subjectEntry name]
  domainIdFields := fun name => (subjectEntry name).dynamicFields
  domainIds := fun _ binding => binding
  fromEvent := fun _ _ data => some (.ok data)
  default := fun _ => (0 : Nat)
  apply := fun _ _ (count : Nat) _ => count + 1

def bound (field value : String) : DomainIdBindings := ⟨[(field, value)], List.nodup_singleton _⟩

def taskOfProject : Registration subjectTypes := .fold .task (bound "project_id" "p1")

def userOfId : Registration subjectTypes := .fold .user (bound "user_id" "u1")

def jsTaskOfProject : String × BoundFold String :=
  ("tasks", eventCounter ⟨"task.created", ["projectId"]⟩ fun _ => .string "p1")

def jsUserOfId : String × BoundFold String :=
  ("users", eventCounter ⟨"user.created", ["userId"]⟩ fun _ => .string "u1")

def crossed (projectTag userTag : String) : Query :=
  .items [⟨["task.created"], [projectTag]⟩, ⟨["task.created", "user.created"], []⟩,
    ⟨["user.created"], [userTag]⟩]

theorem crossed_selects_tasks (projectTag userTag : String) (tags : List String)
    (data : List UInt8) :
    (crossed projectTag userTag).matches ⟨"task.created", tags, data⟩ = true := by
  simp [crossed, Query.matches, QueryItem.matches]

theorem crossed_taken : Taken plainNames (build [taskOfProject, userOfId])
    (crossed "project_id:p1" "user_id:u1") := by
  refine ⟨crossed "project_id:p1" "user_id:u1", ?_, ?_⟩
  · decide +kernel
  · decide +kernel

/-- A fold of users beside the fold of a project's tasks: the query now selects every task,
    but the fold still wants those of its project. -/
theorem other_fold_widens_query :
    (∃ stored, Taken plainNames (build [taskOfProject, userOfId]) stored ∧
      (∀ tags data, stored.matches ⟨"task.created", tags, data⟩ = true) ∧
      ∀ entry ∈ (build [taskOfProject, userOfId]).folds,
        accepts entry ⟨"task.created", ["project_id:p2"], []⟩ = false) ∧
    ∃ stored, (foldQuery [jsTaskOfProject, jsUserOfId]).toQuery plainNames = .ok stored ∧
      (∀ tags data, stored.matches ⟨"task.created", tags, data⟩ = true) ∧
      ∀ fold ∈ [jsTaskOfProject, jsUserOfId],
        fold.2.accepts "task.created" ["projectId:p2"] = false := by
  constructor
  · refine ⟨_, crossed_taken, crossed_selects_tasks _ _, ?_⟩
    decide +kernel
  · refine ⟨crossed "projectId:p1" "userId:u1", ?_, crossed_selects_tasks _ _, ?_⟩
    · decide +kernel
    · decide +kernel

def projectQueries : Query :=
  .items [⟨["task.created"], ["project_id:p1"]⟩, ⟨["task.created"], ["project_id:p2"]⟩]

def secondProject : Registration subjectTypes := .fold .task (bound "project_id" "p2")

/-- Two folds of tasks, each bound to a project of its own: no other project is read. -/
theorem two_projects_minimal :
    Taken plainNames (build [taskOfProject, secondProject]) projectQueries ∧
      ∀ event, projectQueries.matches event = true →
        ∃ entry ∈ (build [taskOfProject, secondProject]).folds, accepts entry event = true := by
  have taken : Taken plainNames (build [taskOfProject, secondProject]) projectQueries := by
    refine ⟨projectQueries, ?_, ?_⟩
    · decide +kernel
    · decide +kernel
  have minimal := (fold_queries_minimal_iff (V := String) (T := subjectTypes) plainNames_keep).1
    [taskOfProject, secondProject] projectQueries taken
  have single : ∀ entry ∈ (build [taskOfProject, secondProject]).folds,
      entry.name = Subject.task := by
    intro entry member
    rcases List.mem_cons.mp member with rfl | later
    · rfl
    · rw [List.mem_singleton.mp later]
      rfl
  exact ⟨taken, minimal.mpr (ownTags_one_type single (by decide +kernel))⟩

end sample
end UmariQueryMinimality
