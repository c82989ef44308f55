import Mathlib.Data.List.Induction
import Umari.KeyedMaps
import Umari.WorkQueues

/-!
The build phase of the CLI. One thread reads what cargo prints while the JS modules are built
by workers of their own; a module that was built is noted by its type and name, and each
failure is counted and shown.
-/
namespace UmariCliBuilds
open GuardedRuns KeyedMaps WorkQueues

inductive ModuleType where
  | commands
  | effects
  | projectors
deriving DecidableEq, Repr

def ModuleType.all : List ModuleType := [.commands, .effects, .projectors]

structure Module where
  name : String
  version : String
  moduleType : ModuleType
  envVars : KeyedMap String String
  wasmPath : String
  manifestPath : String

structure JsModule where
  name : String
  version : String
  moduleType : ModuleType
  envVars : KeyedMap String String
  dir : String
  wasmPath : String

inductive AnyModule where
  | rust (module : Module)
  | js (module : JsModule)

namespace AnyModule

def name : AnyModule → String
  | .rust m => m.name
  | .js m => m.name

def version : AnyModule → String
  | .rust m => m.version
  | .js m => m.version

def moduleType : AnyModule → ModuleType
  | .rust m => m.moduleType
  | .js m => m.moduleType

def envVars : AnyModule → KeyedMap String String
  | .rust m => m.envVars
  | .js m => m.envVars

def wasmPath : AnyModule → String
  | .rust m => m.wasmPath
  | .js m => m.wasmPath

def rust? : AnyModule → Option Module
  | .rust m => some m
  | .js _ => none

def js? : AnyModule → Option JsModule
  | .rust _ => none
  | .js m => some m

end AnyModule

abbrev Key := ModuleType × String

def Module.key (m : Module) : Key := (m.moduleType, m.name)

def JsModule.key (m : JsModule) : Key := (m.moduleType, m.name)

def AnyModule.key (m : AnyModule) : Key := (m.moduleType, m.name)

inductive Status where
  | built
  | unchanged
  | deployed
  | bumped (former new : String)
  | failed (msg : String)
deriving DecidableEq, Repr

def Status.isFailed : Status → Bool
  | .failed _ => true
  | _ => false

structure Stats where
  deployed : Nat
  bumped : Nat
  unchanged : Nat
  failed : Nat
deriving DecidableEq, Repr

def Stats.default : Stats := ⟨0, 0, 0, 0⟩

def Stats.total (s : Stats) : Nat := s.deployed + s.bumped + s.unchanged + s.failed

/-- The counters of each type; a type without an entry has those of the default. -/
abbrev Counters := ModuleType → Stats

def noStats : Counters := fun _ => Stats.default

def Stats.count (s : Stats) : Status → Stats
  | .built => s
  | .unchanged => { s with unchanged := s.unchanged + 1 }
  | .deployed => { s with deployed := s.deployed + 1 }
  | .bumped _ _ => { s with bumped := s.bumped + 1 }
  | .failed _ => { s with failed := s.failed + 1 }

def Counters.count (c : Counters) (ty : ModuleType) (status : Status) : Counters :=
  Function.update c ty ((c ty).count status)

def totalFailed (c : Counters) : Nat := (ModuleType.all.map fun ty => (c ty).failed).sum

abbrev Row := Key × Status

section texts

def isWhitespace (c : Char) : Bool :=
  (0x09 ≤ c.toNat && c.toNat ≤ 0x0D) || (0x2000 ≤ c.toNat && c.toNat ≤ 0x200A) ||
    [0x20, 0x85, 0xA0, 0x1680, 0x2028, 0x2029, 0x202F, 0x205F, 0x3000].contains c.toNat

/-- `str::lines`; what was read of a line comes first, reversed. -/
def linesFrom : List Char → List Char → List String
  | [], [] => []
  | line, [] => [String.ofList line.reverse]
  | '\r' :: line, '\n' :: rest => String.ofList line.reverse :: linesFrom [] rest
  | line, '\n' :: rest => String.ofList line.reverse :: linesFrom [] rest
  | line, c :: rest => linesFrom (c :: line) rest

def isBlank (text : String) : Bool := text.toList.all isWhitespace

def firstLine (text : String) : String :=
  ((linesFrom [] text.toList).find? fun line => !isBlank line).getD text

/-- `-` becomes `_` in the name of the artifact. -/
def crateName (name : String) : String :=
  String.ofList (name.toList.map fun c => if c = '-' then '_' else c)

end texts

/-- What the loop looks up in a line of cargo's output that is JSON. -/
structure CargoMessage where
  reason : Option String
  kinds : Option (List String)
  target : Option String
  level : Option String
  rendered : Option String
deriving DecidableEq, Repr

inductive Cargo where
  | spawning
  | unspawned (seen rest : List Module) (msg : String)
  | reading (finished : List String) (errors : KeyedMap String String)
  | closing (seen rest : List Module) (finished : List String) (errors : KeyedMap String String)
      (success : Bool) (stderr : String)
  | joined (finished : List String)

def Cargo.finished : Cargo → Option (List String)
  | .joined finished => some finished
  | _ => none

inductive CargoEvent where
  | spawned (result : Except String Unit)
  | line (message : Option CargoMessage)
  | exited (success : Bool) (stderr : String)
  | next

structure Building where
  cargo : Cargo
  stats : Counters
  succeeded : List Key
  shown : List Row

namespace Building

def fail (w : Building) (key : Key) (msg : String) : Building :=
  { w with
    stats := w.stats.count key.1 (.failed msg)
    shown := w.shown ++ [(key, .failed msg)] }

/-- A row is finished here only if no upload follows. -/
def succeed (finalize : Bool) (w : Building) (key : Key) : Building :=
  { w with
    succeeded := key :: w.succeeded
    shown := if finalize then w.shown ++ [(key, .built)] else w.shown }

end Building

section cargo
variable (finalize : Bool) (modules : List Module)

/-- The map by crate name; a later module of the same name replaces an earlier one. -/
def startMap (crate : String) : Option Module :=
  modules.reverse.find? fun m => crateName m.name = crate

def readLine (w : Building) (finished : List String) (errors : KeyedMap String String) :
    Option CargoMessage → Building
  | none => w
  | some message =>
    match message.reason.getD "" with
    | "compiler-artifact" =>
      if ¬ (message.kinds.getD []).contains "cdylib" then w
      else
        let name := message.target.getD ""
        match startMap modules name with
        | none => w
        | some m =>
          if finished.contains name then w
          else
            let w := w.succeed finalize m.key
            { w with cargo := .reading (name :: finished) errors }
    | "compiler-message" =>
      let target := message.target.getD ""
      if message.level.getD "" ≠ "error" then w
      else if target = "" then w
      else if (errors.lookup target).isSome then w
      else { w with
        cargo := .reading finished
          (errors.insert target (firstLine (message.rendered.getD "compile error"))) }
    | _ => w

def closeModule (w : Building) (seen rest : List Module) (finished : List String)
    (errors : KeyedMap String String) (success : Bool) (stderr : String) (m : Module) : Building :=
  let crate := crateName m.name
  if finished.contains crate then
    { w with cargo := .closing (seen ++ [m]) rest finished errors success stderr }
  else
    let msg := ((errors.lookup crate).or
      (if !success && !isBlank stderr then some (firstLine stderr) else none)).getD "build failed"
    let w := w.fail m.key msg
    { w with cargo := .closing (seen ++ [m]) rest finished (errors.erase crate) success stderr }

def runRustBuild (w : Building) (event : CargoEvent) : Option Building :=
  match w.cargo, event with
  | .spawning, .spawned (.ok ()) => some { w with cargo := .reading [] ∅ }
  | .spawning, .spawned (.error err) =>
    some { w with cargo := .unspawned [] modules ("failed to spawn cargo: " ++ err) }
  | .unspawned seen (m :: rest) msg, .next =>
    let w := w.fail m.key msg
    some { w with cargo := .unspawned (seen ++ [m]) rest msg }
  | .unspawned _ [] _, .next => some { w with cargo := .joined [] }
  | .reading finished errors, .line message =>
    some (readLine finalize modules w finished errors message)
  | .reading finished errors, .exited success stderr =>
    some { w with cargo := .closing [] modules finished errors success stderr }
  | .closing seen (m :: rest) finished errors success stderr, .next =>
    some (closeModule w seen rest finished errors success stderr m)
  | .closing _ [] finished _ _ _, .next => some { w with cargo := .joined finished }
  | _, _ => none

end cargo

abbrev NpmOutcome := Except String (Bool × String)

def buildOneJs : NpmOutcome → Except String Unit
  | .error err => .error ("failed to run npm: " ++ err)
  | .ok (success, stderr) => if success then .ok () else .error (firstLine stderr)

/-- A worker's turn with a JS module; its result says whether it was built. -/
def buildJs (finalize : Bool) (w : Building) (m : JsModule) (_ : Unit) (outcome : NpmOutcome) :
    Option (Building × (Unit ⊕ Bool)) :=
  match buildOneJs outcome with
  | .ok () => some (w.succeed finalize m.key, .inr true)
  | .error msg => some (w.fail m.key msg, .inr false)

def buildWork (finalize : Bool) (modules : List AnyModule) :
    Work Building JsModule Unit Bool NpmOutcome CargoEvent where
  enter := fun _ => ()
  advance := buildJs finalize
  other := runRustBuild finalize (modules.filterMap AnyModule.rust?)

abbrev BuildState := WorkQueues.State Building JsModule Unit Bool

abbrev BuildTurn := Turn NpmOutcome CargoEvent

/-- No thread reads from cargo if there is no Rust module. -/
def buildStart (modules : List AnyModule) (workers : Nat) : BuildState :=
  let cargo := if (modules.filterMap AnyModule.rust?).isEmpty then Cargo.joined [] else .spawning
  WorkQueues.start ⟨cargo, noStats, [], []⟩ (modules.filterMap AnyModule.js?) workers

def Built (s : BuildState) : Prop :=
  Ended s.pool ∧ s.world.cargo.finished.isSome = true

def alive (modules : List AnyModule) (w : Building) : List AnyModule :=
  modules.filter fun m => w.succeeded.contains m.key

def tally (rows : List Row) : Counters :=
  rows.foldl (fun c row => c.count row.1.1 row.2) noStats

def failedKeys (w : Building) : List Key := (w.shown.filter fun row => row.2.isFailed).map Prod.fst

def builtKeys (w : Building) : List Key := (w.shown.filter fun row => !row.2.isFailed).map Prod.fst

def rustBuilt (modules : List Module) : Cargo → List Module
  | .reading finished _ => modules.filter fun m => crateName m.name ∈ finished
  | .closing _ _ finished _ _ _ => modules.filter fun m => crateName m.name ∈ finished
  | .joined finished => modules.filter fun m => crateName m.name ∈ finished
  | _ => []

def rustFailed (modules : List Module) : Cargo → List Module
  | .unspawned seen _ _ => seen
  | .closing seen _ finished _ _ _ => seen.filter fun m => crateName m.name ∉ finished
  | .joined finished => modules.filter fun m => crateName m.name ∉ finished
  | _ => []

def Progress (modules : List Module) : Cargo → Prop
  | .unspawned seen rest _ => seen ++ rest = modules
  | .closing seen rest _ _ _ _ => seen ++ rest = modules
  | _ => True

section counting
variable {rows : List Row} {ty : ModuleType} {c : Counters} {row : Row}

theorem tally_append : tally (rows ++ [row]) = (tally rows).count row.1.1 row.2 := by
  simp [tally]

theorem count_failed (status : Status) : ((c.count row.1.1 status) ty).failed =
    (c ty).failed + if row.1.1 = ty ∧ status.isFailed = true then 1 else 0 := by
  by_cases same : ty = row.1.1
  · subst same
    cases status <;> simp [Counters.count, Stats.count, Status.isFailed]
  · simp [Counters.count, same, Ne.symm same]

theorem count_total (status : Status) : ((c.count row.1.1 status) ty).total =
    (c ty).total + if row.1.1 = ty ∧ status ≠ .built then 1 else 0 := by
  by_cases same : ty = row.1.1
  · subst same
    cases status <;> simp [Counters.count, Stats.count, Stats.total] <;> omega
  · simp [Counters.count, same, Ne.symm same]

theorem tally_failed (rows : List Row) (ty : ModuleType) :
    (tally rows ty).failed =
      rows.countP fun row => decide (row.1.1 = ty ∧ row.2.isFailed = true) := by
  induction rows using List.reverseRecOn with
  | nil => rfl
  | append_singleton rows row ih =>
    rw [tally_append, count_failed, ih, List.countP_append, List.countP_singleton]
    simp

theorem tally_total (rows : List Row) (ty : ModuleType) :
    (tally rows ty).total =
      rows.countP fun row => decide (row.1.1 = ty ∧ row.2 ≠ .built) := by
  induction rows using List.reverseRecOn with
  | nil => rfl
  | append_singleton rows row ih =>
    rw [tally_append, count_total, ih, List.countP_append, List.countP_singleton]
    simp

theorem tally_totalFailed (rows : List Row) :
    totalFailed (tally rows) = rows.countP fun row => row.2.isFailed := by
  induction rows using List.reverseRecOn with
  | nil => rfl
  | append_singleton rows row ih =>
    have one : totalFailed (tally (rows ++ [row])) =
        totalFailed (tally rows) + if row.2.isFailed = true then 1 else 0 := by
      rw [tally_append]
      simp only [totalFailed, ModuleType.all, List.map_cons, List.map_nil, List.sum_cons,
        List.sum_nil, count_failed]
      cases row.1.1 <;> simp <;> omega
    rw [one, ih, List.countP_append, List.countP_singleton]

end counting

structure Books (finalize : Bool) (w : Building) (built failed : List Key) : Prop where
  succeeded : w.succeeded.Perm built
  failed : (failedKeys w).Perm failed
  shown : builtKeys w = if finalize then w.succeeded.reverse else []
  stats : w.stats = tally w.shown

namespace Books
variable {finalize : Bool} {w : Building} {built failed : List Key} {key : Key}

theorem fail (books : Books finalize w built failed) (msg : String) :
    Books finalize (w.fail key msg) built (key :: failed) := by
  constructor
  · exact books.succeeded
  · have added : failedKeys (w.fail key msg) = failedKeys w ++ [key] := by
      simp [failedKeys, Building.fail, Status.isFailed]
    rw [added]
    exact (books.failed.append_right [key]).trans (List.perm_append_singleton key failed)
  · have same : builtKeys (w.fail key msg) = builtKeys w := by
      simp [builtKeys, Building.fail, Status.isFailed]
    rw [same]
    exact books.shown
  · simp only [Building.fail, tally_append, books.stats]

theorem succeed (books : Books finalize w built failed) :
    Books finalize (w.succeed finalize key) (key :: built) failed := by
  cases finalize with
  | false =>
    exact ⟨books.succeeded.cons key, books.failed, books.shown, books.stats⟩
  | true =>
    constructor
    · exact books.succeeded.cons key
    · have same : failedKeys (w.succeed true key) = failedKeys w := by
        simp [failedKeys, Building.succeed, Status.isFailed]
      rw [same]
      exact books.failed
    · have added : builtKeys (w.succeed true key) = builtKeys w ++ [key] := by
        simp [builtKeys, Building.succeed, Status.isFailed]
      have before : builtKeys w = w.succeeded.reverse := by simpa using books.shown
      rw [added, before]
      simp [Building.succeed]
    · have idle : (tally w.shown).count key.1 .built = tally w.shown := by
        simp [Counters.count, Stats.count]
      simp only [Building.succeed, if_true, tally_append, idle, books.stats]

theorem moved (books : Books finalize w built failed) (cargo : Cargo) :
    Books finalize { w with cargo := cargo } built failed :=
  ⟨books.succeeded, books.failed, books.shown, books.stats⟩

theorem perm {built' failed' : List Key} (books : Books finalize w built failed)
    (left : built.Perm built') (right : failed.Perm failed') : Books finalize w built' failed' :=
  ⟨books.succeeded.trans left, books.failed.trans right, books.shown, books.stats⟩

end Books

section cargo
variable {finalize : Bool} {modules : List Module} {w w' : Building} {others failures : List Key}

def OneCrateEach (modules : List Module) : Prop :=
  (modules.map fun m => crateName m.name).Nodup

theorem startMap_some {crate : String} {m : Module} (found : startMap modules crate = some m) :
    m ∈ modules ∧ crateName m.name = crate := by
  constructor
  · exact List.mem_reverse.mp (List.mem_of_find?_eq_some found)
  · simpa using List.find?_some found

theorem filter_finished (distinct : OneCrateEach modules) {m : Module} (member : m ∈ modules)
    {finished : List String} (fresh : crateName m.name ∉ finished) :
    (modules.filter fun k => crateName k.name ∈ crateName m.name :: finished).Perm
      (m :: modules.filter fun k => crateName k.name ∈ finished) := by
  induction modules with
  | nil => exact absurd member List.not_mem_nil
  | cons k rest ih =>
    obtain ⟨apart, later⟩ := List.nodup_cons.mp distinct
    rcases List.mem_cons.mp member with rfl | inside
    · have same : (rest.filter fun k => crateName k.name ∈ crateName m.name :: finished) =
          rest.filter fun k => crateName k.name ∈ finished := by
        apply List.filter_congr
        intro k there
        have different : crateName k.name ≠ crateName m.name := by
          intro same
          exact apart (List.mem_map.mpr ⟨k, there, same⟩)
        simp [different]
      rw [List.filter_cons_of_pos (by simp), List.filter_cons_of_neg (by simpa using fresh), same]
    · have different : crateName k.name ≠ crateName m.name := by
        intro same
        exact apart (List.mem_map.mpr ⟨m, inside, same.symm⟩)
      have tail := ih later inside
      by_cases here : crateName k.name ∈ finished
      · rw [List.filter_cons_of_pos (by simp [here]), List.filter_cons_of_pos (by simp [here])]
        exact (tail.cons k).trans (List.Perm.swap m k _)
      · rw [List.filter_cons_of_neg (by simp [here, different]),
          List.filter_cons_of_neg (by simp [here])]
        exact tail

/-- The books of the thread that reads cargo, next to those of the other workers. -/
structure Accounts (finalize : Bool) (modules : List Module) (others failures : List Key)
    (w : Building) : Prop where
  progress : Progress modules w.cargo
  books : Books finalize w ((rustBuilt modules w.cargo).map Module.key ++ others)
    ((rustFailed modules w.cargo).map Module.key ++ failures)

theorem readLine_kept (distinct : OneCrateEach modules) {finished : List String}
    {errors : KeyedMap String String} (cargo : w.cargo = .reading finished errors)
    (accounts : Accounts finalize modules others failures w) (message : Option CargoMessage) :
    Accounts finalize modules others failures
      (readLine finalize modules w finished errors message) := by
  have same : ∀ errors', Accounts finalize modules others failures
      { w with cargo := .reading finished errors' } := by
    intro errors'
    have books := accounts.books
    rw [cargo] at books
    exact ⟨trivial, books.moved _⟩
  unfold readLine
  split
  · exact accounts
  · rename_i message
    split
    · split
      · exact accounts
      · dsimp only
        split
        · exact accounts
        · rename_i m found
          split
          · exact accounts
          · rename_i fresh
            obtain ⟨member, named⟩ := startMap_some found
            have books := accounts.books
            rw [cargo] at books
            have outside : crateName m.name ∉ finished := by
              rw [named]
              simpa using fresh
            have more := filter_finished distinct member outside
            rw [named] at more
            refine ⟨trivial, (books.succeed.moved _).perm ?_ (List.Perm.refl _)⟩
            exact (more.symm.map Module.key).append_right others
    · dsimp only
      split
      · exact accounts
      · split
        · exact accounts
        · split
          · exact accounts
          · exact same _
    · exact accounts

theorem closeModule_kept {seen rest : List Module} {m : Module} {finished : List String}
    {errors : KeyedMap String String} {success : Bool} {stderr : String}
    (cargo : w.cargo = .closing seen (m :: rest) finished errors success stderr)
    (accounts : Accounts finalize modules others failures w) :
    Accounts finalize modules others failures
      (closeModule w seen rest finished errors success stderr m) := by
  obtain ⟨progress, books⟩ := accounts
  rw [cargo] at progress books
  have onward : seen ++ [m] ++ rest = modules := by
    rw [List.append_assoc]
    exact progress
  unfold closeModule
  dsimp only
  split
  · rename_i built
    refine ⟨onward, (books.moved _).perm (List.Perm.refl _) ?_⟩
    have none : (seen ++ [m]).filter (fun k => crateName k.name ∉ finished) =
        seen.filter fun k => crateName k.name ∉ finished := by
      have inside : crateName m.name ∈ finished := by simpa using built
      simp [List.filter_append, inside]
    simp only [rustFailed, none]
    exact List.Perm.refl _
  · rename_i unbuilt
    refine ⟨onward, ((books.fail _).moved _).perm (List.Perm.refl _) ?_⟩
    have one : (seen ++ [m]).filter (fun k => crateName k.name ∉ finished) =
        seen.filter (fun k => crateName k.name ∉ finished) ++ [m] := by
      have outside : crateName m.name ∉ finished := by simpa using unbuilt
      simp [List.filter_append, outside]
    simp only [rustFailed, one, List.map_append, List.map_cons, List.map_nil, List.append_assoc]
    exact List.perm_middle.symm

theorem cargo_step (distinct : OneCrateEach modules) {event : CargoEvent}
    (accounts : Accounts finalize modules others failures w)
    (taken : runRustBuild finalize modules w event = some w') :
    Accounts finalize modules others failures w' := by
  have progress := accounts.progress
  have books := accounts.books
  unfold runRustBuild at taken
  split at taken
  · rename_i cargo
    cases taken
    rw [cargo] at books
    refine ⟨trivial, (books.moved _).perm ?_ (List.Perm.refl _)⟩
    simp [rustBuilt]
  · rename_i err cargo
    cases taken
    rw [cargo] at books
    exact ⟨rfl, books.moved _⟩
  · rename_i seen m rest msg cargo
    cases taken
    rw [cargo] at progress books
    refine ⟨?_, ((books.fail msg).moved _).perm (List.Perm.refl _) ?_⟩
    · have onward : seen ++ [m] ++ rest = modules := by
        rw [List.append_assoc]
        exact progress
      exact onward
    · simp only [rustFailed, List.map_append, List.map_cons, List.map_nil, List.append_assoc]
      exact List.perm_middle.symm
  · rename_i seen msg cargo
    cases taken
    rw [cargo] at progress books
    obtain rfl : seen = modules := (List.append_nil seen).symm.trans progress
    refine ⟨trivial, (books.moved _).perm ?_ ?_⟩
    · simp [rustBuilt]
    · simp [rustFailed]
  · rename_i finished errors message cargo
    cases taken
    exact readLine_kept distinct cargo accounts message
  · rename_i finished errors success stderr cargo
    cases taken
    rw [cargo] at books
    exact ⟨rfl, books.moved _⟩
  · rename_i seen m rest finished errors success stderr cargo
    cases taken
    exact closeModule_kept cargo accounts
  · rename_i seen finished errors success stderr cargo
    cases taken
    rw [cargo] at progress books
    obtain rfl : seen = modules := (List.append_nil seen).symm.trans progress
    exact ⟨trivial, books.moved _⟩
  · exact absurd taken (by simp)

end cargo

section builds
variable {finalize : Bool} {modules : List AnyModule} {workers : Nat} {s t : BuildState}
  {turns : List BuildTurn}

def jsKeys (built : Bool) (s : BuildState) : List Key :=
  (s.pool.done.filter fun entry => entry.2 == built).map fun entry => entry.1.key

def BuildAccounts (finalize : Bool) (modules : List AnyModule) (s : BuildState) : Prop :=
  Accounts finalize (modules.filterMap AnyModule.rust?) (jsKeys true s) (jsKeys false s) s.world

theorem accounts_step (distinct : OneCrateEach (modules.filterMap AnyModule.rust?))
    {turn : BuildTurn} (accounts : BuildAccounts finalize modules s)
    (taken : WorkQueues.step (buildWork finalize modules) s turn = some t) :
    BuildAccounts finalize modules t := by
  cases moved_of_step taken with
  | took job rest before after queue held => exact accounts
  | advanced job stage next action world before after held goes =>
    simp only [buildWork, buildJs] at goes
    split at goes <;> simp at goes
  | finished job stage result action world before after held goes =>
    obtain ⟨progress, books⟩ := accounts
    simp only [buildWork, buildJs] at goes
    split at goes
    · simp only [Option.some.injEq, Prod.mk.injEq, Sum.inr.injEq] at goes
      obtain ⟨rfl, rfl⟩ := goes
      refine ⟨progress, books.succeed.perm ?_ (List.Perm.refl _)⟩
      exact List.perm_middle.symm
    · simp only [Option.some.injEq, Prod.mk.injEq, Sum.inr.injEq] at goes
      obtain ⟨rfl, rfl⟩ := goes
      refine ⟨progress, (books.fail _).perm (List.Perm.refl _) ?_⟩
      exact List.perm_middle.symm
  | happened event world goes => exact cargo_step distinct accounts goes

theorem accounts_start : BuildAccounts finalize modules (buildStart modules workers) := by
  unfold buildStart
  dsimp only
  split
  · rename_i none
    have empty : modules.filterMap AnyModule.rust? = [] := by simpa using none
    rw [BuildAccounts, empty]
    refine ⟨trivial, List.Perm.refl _, List.Perm.refl _, ?_, rfl⟩
    cases finalize <;> rfl
  · refine ⟨trivial, List.Perm.refl _, List.Perm.refl _, ?_, rfl⟩
    cases finalize <;> rfl

theorem keys_parted (modules : List AnyModule) :
    (modules.map AnyModule.key).Perm ((modules.filterMap AnyModule.rust?).map Module.key ++
      (modules.filterMap AnyModule.js?).map JsModule.key) := by
  induction modules with
  | nil => exact List.Perm.refl _
  | cons m rest ih =>
    cases m with
    | rust m => exact ih.cons m.key
    | js m => exact (ih.cons m.key).trans List.perm_middle.symm

theorem filter_parted {α β : Type} (f : α → β) (p : α → Bool) (xs : List α) :
    ((xs.filter p).map f ++ (xs.filter fun x => !p x).map f).Perm (xs.map f) := by
  rw [← List.map_append]
  exact (List.filter_append_perm p xs).map f

theorem append_append_perm {α : Type} (a b c d : List α) :
    ((a ++ b) ++ (c ++ d)).Perm ((a ++ c) ++ (b ++ d)) := by
  rw [← Multiset.coe_eq_coe]
  simp only [← Multiset.coe_add]
  exact add_add_add_comm _ _ _ _

theorem joined_of_finished {cargo : Cargo} (gone : cargo.finished.isSome = true) :
    ∃ finished, cargo = .joined finished := by
  cases cargo with
  | joined finished => exact ⟨finished, rfl⟩
  | _ => exact absurd gone (by simp [Cargo.finished])

theorem build_accounts (distinct : OneCrateEach (modules.filterMap AnyModule.rust?))
    (run : exec (WorkQueues.step (buildWork finalize modules)) (buildStart modules workers) turns =
      some s) (built : Built s) :
    (s.world.succeeded ++ failedKeys s.world).Perm (modules.map AnyModule.key) ∧
      builtKeys s.world = (if finalize then s.world.succeeded.reverse else []) ∧
      s.world.stats = tally s.world.shown := by
  have accounts : BuildAccounts finalize modules s :=
    invariant (fun kept taken => accounts_step distinct kept taken) accounts_start run
  obtain ⟨-, books⟩ := accounts
  obtain ⟨ended, gone⟩ := built
  obtain ⟨finished, joined⟩ := joined_of_finished gone
  refine ⟨?_, books.shown, books.stats⟩
  have done : (s.pool.done.map Prod.fst).Perm (modules.filterMap AnyModule.js?) :=
    ended_done run ended
  have js : (jsKeys true s ++ jsKeys false s).Perm
      ((modules.filterMap AnyModule.js?).map JsModule.key) := by
    have parted := filter_parted (fun entry : JsModule × Bool => entry.1.key)
      (fun entry => entry.2 == true) s.pool.done
    have others : (fun entry : JsModule × Bool => !(entry.2 == true)) =
        fun entry => entry.2 == false := by
      funext entry
      cases entry.2 <;> rfl
    rw [others] at parted
    refine parted.trans ?_
    rw [← Function.comp_def, ← List.map_map]
    exact done.map JsModule.key
  have rust : ((rustBuilt (modules.filterMap AnyModule.rust?) s.world.cargo).map Module.key ++
      (rustFailed (modules.filterMap AnyModule.rust?) s.world.cargo).map Module.key).Perm
        ((modules.filterMap AnyModule.rust?).map Module.key) := by
    rw [joined]
    have parted := filter_parted Module.key
      (fun m => decide (crateName m.name ∈ finished)) (modules.filterMap AnyModule.rust?)
    simpa [rustBuilt, rustFailed] using parted
  have each := (books.succeeded.append books.failed).trans (append_append_perm _ _ _ _)
  exact (each.trans (rust.append js)).trans (keys_parted modules).symm

end builds

end UmariCliBuilds
