import Mathlib.Data.List.Basic

/-!
A bounded first-in first-out channel between one sender and one receiver. A full
channel takes no item, an empty one gives none; whether an end of the channel is
still held is known to its user, not to the channel.
-/
namespace BoundedChannels
universe u
variable {α : Type u} {capacity : Nat}

structure Channel (α : Type u) (capacity : Nat) where
  queue : List α
  bounded : queue.length ≤ capacity
deriving DecidableEq

namespace Channel

def empty : Channel α capacity := ⟨[], Nat.zero_le _⟩

def push (channel : Channel α capacity) (item : α) : Option (Channel α capacity) :=
  if room : channel.queue.length < capacity then
    some ⟨channel.queue ++ [item], by rw [List.length_append]; exact room⟩
  else none

def pop (channel : Channel α capacity) : Option (α × Channel α capacity) :=
  match channel with
  | ⟨[], _⟩ => none
  | ⟨item :: rest, bounded⟩ => some (item, ⟨rest, Nat.le_of_succ_le bounded⟩)

@[simp] theorem queue_empty : (empty : Channel α capacity).queue = [] := rfl

theorem push_some {channel after : Channel α capacity} {item : α}
    (pushed : channel.push item = some after) : after.queue = channel.queue ++ [item] := by
  rw [push] at pushed
  split at pushed
  · cases pushed
    rfl
  · cases pushed

theorem push_none {channel : Channel α capacity} {item : α} :
    channel.push item = none ↔ channel.queue.length = capacity := by
  have bounded := channel.bounded
  rw [push]
  split
  · simp only [reduceCtorEq, false_iff]
    omega
  · simp only [true_iff]
    omega

theorem pop_some {channel after : Channel α capacity} {item : α} :
    channel.pop = some (item, after) ↔ channel.queue = item :: after.queue := by
  obtain ⟨queue, bounded⟩ := channel
  obtain ⟨left, fits⟩ := after
  cases queue with
  | nil => simp [pop]
  | cons first rest => simp [pop]

theorem pop_none {channel : Channel α capacity} : channel.pop = none ↔ channel.queue = [] := by
  obtain ⟨queue, bounded⟩ := channel
  cases queue with
  | nil => simp [pop]
  | cons first rest => simp [pop]

end Channel
end BoundedChannels
