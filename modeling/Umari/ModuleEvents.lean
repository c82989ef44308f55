import Umari.PositionedLogs
import Umari.StateDatabases

/-!
The events the module store publishes. Events are numbered from one in the order
they are published; `intended` is what the events of a name ask for: the version
of its last activation, unless a deactivation or a deletion came after it.
-/
namespace UmariModuleEvents
open PositionedLogs UmariStateDatabases

inductive ModuleType where
  | command
  | projector
  | effect
deriving DecidableEq, Repr

/-- The bytes of an activated module are named by the number of the event. -/
inductive ModuleEvent where
  | activated (moduleType : ModuleType) (name : String) (version : Version)
  | deactivated (moduleType : ModuleType) (name : String)
  | deleted (moduleType : ModuleType) (name : String)
deriving DecidableEq, Repr

namespace ModuleEvent

def moduleType : ModuleEvent → ModuleType
  | activated moduleType _ _ => moduleType
  | deactivated moduleType _ => moduleType
  | deleted moduleType _ => moduleType

def name : ModuleEvent → String
  | activated _ name _ => name
  | deactivated _ name => name
  | deleted _ name => name

def version : ModuleEvent → Option Version
  | activated _ _ version => some version
  | deactivated _ _ => none
  | deleted _ _ => none

end ModuleEvent

def concerns (moduleType : ModuleType) (name : String) (event : ModuleEvent) : Bool :=
  decide (event.moduleType = moduleType) && decide (event.name = name)

def lastEvent (moduleType : ModuleType) (name : String) (published : List ModuleEvent) :
    Option (Nat × ModuleEvent) :=
  ((entries published).filter fun entry => concerns moduleType name entry.2).getLast?

/-- The number of the last event about a name; zero for what was active at the start. -/
def lastNumber (moduleType : ModuleType) (name : String) (published : List ModuleEvent) : Nat :=
  ((lastEvent moduleType name published).map Prod.fst).getD 0

def intended (moduleType : ModuleType) (name : String) (active : Option Version)
    (published : List ModuleEvent) : Option Version :=
  match lastEvent moduleType name published with
  | none => active
  | some (_, event) => event.version

variable {moduleType : ModuleType} {name : String} {published : List ModuleEvent}
  {event : ModuleEvent}

theorem concerns_iff :
    concerns moduleType name event = true ↔ event.moduleType = moduleType ∧ event.name = name := by
  simp [concerns]

@[simp] theorem concerns_activated (moduleType : ModuleType) (name : String)
    (version : Version) : concerns moduleType name (.activated moduleType name version) = true :=
  concerns_iff.mpr ⟨rfl, rfl⟩

theorem not_concerns (other : event.name ≠ name) : concerns moduleType name event = false := by
  apply Bool.eq_false_iff.mpr
  intro about
  exact other (concerns_iff.mp about).2

theorem lastEvent_snoc :
    lastEvent moduleType name (published ++ [event]) =
      if concerns moduleType name event then some (published.length + 1, event)
      else lastEvent moduleType name published := by
  rw [lastEvent, entries_append, List.filter_append]
  by_cases own : concerns moduleType name event = true
  · simp [entriesFrom, own]
  · simp [entriesFrom, own, lastEvent]

theorem lastNumber_snoc :
    lastNumber moduleType name (published ++ [event]) =
      if concerns moduleType name event then published.length + 1
      else lastNumber moduleType name published := by
  rw [lastNumber, lastEvent_snoc]
  split
  · rfl
  · rfl

theorem intended_snoc {active : Option Version} :
    intended moduleType name active (published ++ [event]) =
      if concerns moduleType name event then event.version
      else intended moduleType name active published := by
  rw [intended, lastEvent_snoc]
  by_cases own : concerns moduleType name event = true
  · rw [if_pos own, if_pos own]
  · rw [if_neg own, if_neg own]
    rfl

end UmariModuleEvents
