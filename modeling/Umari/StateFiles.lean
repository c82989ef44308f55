import Umari.ModuleSupervisor

/-!
The state databases at the paths of the modules: what was written to them since an
event, and what an actor that starts finds there.
-/
namespace UmariStateFiles
open NumberedLists UmariStateDatabases UmariModuleSupervisor UmariModuleSupervisor.Supervisor

def HoldsSince (number : Nat) (db : StateDb) : Prop := ∀ w ∈ db.tables, number ≤ w.number

/-- The stored position came with a transaction that the database holds; without one
    there is none. -/
def Sourced (db : StateDb) : Prop :=
  ∀ position, storedPosition db.row = some position → ∃ w ∈ db.tables, w.position = some position

section databases
variable {number : Nat} {db : StateDb}

theorem since_commit (since : HoldsSince number db) {w : Write} (later : number ≤ w.number) :
    HoldsSince number (commitWrite db w) := by
  intro other member
  rcases List.mem_append.mp member with old | new
  · exact since other old
  · rw [List.mem_singleton.mp new]
    exact later

theorem sourced_commit (sourced : Sourced db) (w : Write) : Sourced (commitWrite db w) := by
  intro position stored
  have kept : storedPosition db.row = some position ∨ w.position = some position := by
    cases written : w.position with
    | none =>
      simp only [commitWrite, written] at stored
      exact Or.inl stored
    | some new =>
      apply Or.inr
      simp only [commitWrite, written, storedPosition] at stored
      cases present : db.row with
      | none => simp [present] at stored
      | some row => simpa [present] using stored
  rcases kept with old | new
  · obtain ⟨other, member, same⟩ := sourced position old
    exact ⟨other, List.mem_append.mpr (Or.inl member), same⟩
  · exact ⟨w, List.mem_append.mpr (Or.inr (List.mem_singleton.mpr rfl)), new⟩

theorem open_tables (name : String) (version : Version) (db : StateDb) :
    (openDatabase [] name version db).tables =
      if majorChanged db.row version then [] else db.tables := by
  unfold openDatabase
  by_cases changed : majorChanged db.row version = true
  · simp [changed]
  · simp [changed]

theorem since_open (since : HoldsSince number db) (name : String) (version : Version) :
    HoldsSince number (openDatabase [] name version db) := by
  intro w member
  rw [open_tables] at member
  split at member
  · exact absurd member List.not_mem_nil
  · exact since w member

theorem sourced_open (sourced : Sourced db) (name : String) (version : Version) :
    Sourced (openDatabase [] name version db) := by
  intro position stored
  rw [openDatabase_position] at stored
  rw [open_tables]
  split at stored
  · exact absurd stored (by simp)
  · rename_i same
    rw [if_neg same]
    exact sourced position stored

theorem since_fresh : HoldsSince number ⟨none, []⟩ :=
  fun _ member => absurd member List.not_mem_nil

theorem sourced_fresh : Sourced ⟨none, []⟩ :=
  fun _ stored => absurd stored (by simp [storedPosition])

end databases

def foundBy (s : Supervisor) (a : ModuleActor) : StateDb := (s.stateDb a.name).getD ⟨none, []⟩

/-- What the path of the name leads to was written since the event of a number. -/
def Fresh (s : Supervisor) (name : String) (number : Nat) : Prop :=
  ∀ db, s.stateDb name = some db → HoldsSince number db

def AllSourced (s : Supervisor) : Prop := ∀ db ∈ s.inodes, Sourced db

variable {cfg : Config} {s t : Supervisor} {name : String}

theorem stateDb_unlinked (s : Supervisor) (name : String) :
    (s.removeStateFiles name).stateDb name = none := by
  simp only [stateDb, removeStateFiles, Function.update_self, Option.bind_none]

theorem stateDb_removed {other : String} {db : StateDb}
    (found : (s.removeStateFiles other).stateDb name = some db) : s.stateDb name = some db := by
  by_cases same : name = other
  · subst same
    rw [stateDb_unlinked] at found
    exact absurd found (by simp)
  · simp only [stateDb, removeStateFiles, Function.update_of_ne same] at found
    exact found

theorem stateDb_spawned {other : String} {p : PendingModule} {db : StateDb}
    (found : (s.spawnModule other p).stateDb name = some db) : s.stateDb name = some db := by
  by_cases reset : p.resetDb = true
  · apply stateDb_removed
    unfold stateDb spawnModule at found
    rw [if_pos reset] at found
    exact found
  · unfold stateDb spawnModule at found
    rw [if_neg reset] at found
    exact found

theorem fresh_found {number : Nat} {a : ModuleActor} (fresh : Fresh s a.name number) :
    HoldsSince number (foundBy s a) := by
  unfold foundBy
  cases present : s.stateDb a.name with
  | none => exact since_fresh
  | some db => exact fresh db present

theorem fresh_write {number : Nat} (fresh : Fresh s name number) {inode : Nat} {w : Write}
    (later : number ≤ w.number) : Fresh (s.writeState inode w) name number := by
  intro db found
  obtain ⟨i, path, content⟩ := Option.bind_eq_some_iff.mp found
  have here : (s.inodes.modify inode fun db => commitWrite db w)[i]? = some db := content
  rw [List.getElem?_modify] at here
  obtain ⟨old, held, same⟩ := Option.map_eq_some_iff.mp here
  have since := fresh old (Option.bind_eq_some_iff.mpr ⟨i, path, held⟩)
  by_cases written : inode = i
  · rw [if_pos written] at same
    rw [← same]
    exact since_commit since later
  · rw [if_neg written] at same
    rw [← same]
    exact since

theorem replaced_empty {a : ModuleActor}
    (replaced : (if majorChanged (foundBy s a).row a.version then none else s.files a.name) =
      none) : (openDatabase [] a.name a.version (foundBy s a)).tables = [] := by
  rw [open_tables]
  split
  · rfl
  · rename_i same
    rw [if_neg same] at replaced
    have absent : s.stateDb a.name = none := by
      unfold stateDb
      rw [replaced]
      rfl
    unfold foundBy
    rw [absent]
    rfl

theorem fresh_reopened {number : Nat} (fresh : Fresh s name number) {a : ModuleActor}
    {inode : Nat} (shared : s.files a.name = some inode) :
    Fresh { s with
      inodes := s.inodes.set inode (openDatabase [] a.name a.version (foundBy s a)) }
      name number := by
  intro db found
  obtain ⟨i, path, content⟩ := Option.bind_eq_some_iff.mp found
  have here : (s.inodes.set inode (openDatabase [] a.name a.version (foundBy s a)))[i]? =
      some db := content
  rcases entry_set.mp here with ⟨rfl, below, opened⟩ | ⟨_, unopened⟩
  · have old : s.inodes[i]? = some s.inodes[i] := List.getElem?_eq_getElem below
    have since := fresh _ (Option.bind_eq_some_iff.mpr ⟨i, path, old⟩)
    have same : foundBy s a = s.inodes[i] := by
      unfold foundBy stateDb
      rw [shared, Option.bind_some, old, Option.getD_some]
    rw [← opened, same]
    exact since_open since a.name a.version
  · exact fresh db (Option.bind_eq_some_iff.mpr ⟨i, path, unopened⟩)

theorem fresh_replaced {number : Nat} (fresh : Fresh s name number) {other : String}
    {new : StateDb} (empty : new.tables = []) :
    Fresh { s with
      files := Function.update s.files other (some s.inodes.length)
      inodes := s.inodes ++ [new] } name number := by
  intro db found
  obtain ⟨i, path, content⟩ := Option.bind_eq_some_iff.mp found
  have path : Function.update s.files other (some s.inodes.length) name = some i := path
  have here : (s.inodes ++ [new])[i]? = some db := content
  rcases entry_snoc.mp here with old | ⟨_, rfl⟩
  · have unmoved : s.files name = some i := by
      by_cases same : name = other
      · subst same
        rw [Function.update_self] at path
        exact absurd (Option.some.inj path).symm (Nat.ne_of_lt (entry_lt old))
      · rw [Function.update_of_ne same] at path
        exact path
    exact fresh db (Option.bind_eq_some_iff.mpr ⟨i, unmoved, old⟩)
  · intro w member
    rw [empty] at member
    exact absurd member List.not_mem_nil

theorem fresh_start {number : Nat} (fresh : Fresh s name number) (id : Nat) (a : ModuleActor) :
    Fresh (s.startActor id a) name number := by
  unfold startActor
  dsimp only
  split
  · rename_i inode kept
    have shared : s.files a.name = some inode := by
      split at kept
      · exact absurd kept (by simp)
      · exact kept
    exact fresh_reopened fresh shared
  · rename_i replaced
    exact fresh_replaced fresh (replaced_empty replaced)

theorem sourced_found (sourced : AllSourced s) (a : ModuleActor) : Sourced (foundBy s a) := by
  unfold foundBy
  cases present : s.stateDb a.name with
  | none => exact sourced_fresh
  | some db =>
    obtain ⟨inode, _, content⟩ := Option.bind_eq_some_iff.mp present
    exact sourced db (List.mem_of_getElem? content)

theorem sourced_start (sourced : AllSourced s) (id : Nat) (a : ModuleActor) :
    AllSourced (s.startActor id a) := by
  have opened := sourced_open (sourced_found sourced a) a.name a.version
  unfold startActor
  dsimp only
  split
  · intro db member
    rcases List.mem_or_eq_of_mem_set member with old | new
    · exact sourced db old
    · rw [new]
      exact opened
  · intro db member
    rcases List.mem_append.mp member with old | new
    · exact sourced db old
    · rw [List.mem_singleton.mp new]
      exact opened

theorem sourced_write (sourced : AllSourced s) (inode : Nat) (w : Write) :
    AllSourced (s.writeState inode w) := by
  intro db member
  obtain ⟨i, content⟩ := List.mem_iff_getElem?.mp member
  have here : (s.inodes.modify inode fun db => commitWrite db w)[i]? = some db := content
  rw [List.getElem?_modify] at here
  obtain ⟨old, held, same⟩ := Option.map_eq_some_iff.mp here
  have before := sourced old (List.mem_of_getElem? held)
  by_cases written : inode = i
  · rw [if_pos written] at same
    rw [← same]
    exact sourced_commit before w
  · rw [if_neg written] at same
    rw [← same]
    exact before

theorem sourced_step {a : Action} (sourced : AllSourced s) (taken : step cfg s a = some t) :
    AllSourced t := by
  cases moved_of_step taken with
  | foreign => exact sourced
  | alreadyLoaded => exact sourced
  | compiles => exact sourced
  | unloaded => exact sourced
  | notLoaded => exact sourced
  | deletionQueued => exact sourced
  | deletedNow => exact sourced
  | swapQueued _ base other p old loads =>
    cases loads with
    | compiled => exact sourced
    | reset => exact sourced
  | loaded _ base other p loads =>
    cases loads with
    | compiled => exact sourced
    | reset => exact sourced
  | compileFailed => exact sourced
  | restartDropped => exact sourced
  | restarted => exact sourced
  | swapped => exact sourced
  | removalSkipped => exact sourced
  | removed => exact sourced
  | failed =>
    unfold handleFailure
    split
    · exact sourced
    · exact sourced
  | reaped => exact sourced
  | started id a => exact sourced_start sourced id a
  | wrote id position inode => exact sourced_write sourced inode _
  | died => exact sourced

theorem startActor_actors (s : Supervisor) (id : Nat) (a : ModuleActor) :
    (s.startActor id a).published = s.published ∧
    (s.startActor id a).pendingDeletions = s.pendingDeletions ∧
    ∃ inode, (s.startActor id a).actors = s.actors.modify id fun b =>
      { b with
        opened := some inode
        startedOn := some (openDatabase [] a.name a.version (foundBy s a)) } := by
  unfold startActor
  dsimp only
  split
  · rename_i inode _
    exact ⟨rfl, rfl, inode, rfl⟩
  · exact ⟨rfl, rfl, s.inodes.length, rfl⟩

end UmariStateFiles
