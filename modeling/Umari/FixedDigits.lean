import Mathlib.Algebra.Group.Nat.Defs
import Mathlib.Data.List.Induction

/-!
Numbers written with a fixed number of digits, the most significant one first. What does
not fit is cut off at the front.
-/
namespace FixedDigits

def digits (b : Nat) : Nat → Nat → List Nat
  | 0, _ => []
  | k + 1, n => digits b k (n / b) ++ [n % b]

def value (b : Nat) (ds : List Nat) : Nat := ds.foldl (fun n d => b * n + d) 0

@[simp]
theorem digits_length (b k n : Nat) : (digits b k n).length = k := by
  induction k generalizing n with
  | zero => rfl
  | succ k ih => rw [digits, List.length_append, ih, List.length_singleton]

theorem digits_lt {b : Nat} (positive : 0 < b) (k n : Nat) : ∀ d ∈ digits b k n, d < b := by
  induction k generalizing n with
  | zero =>
    intro d member
    exact absurd member List.not_mem_nil
  | succ k ih =>
    intro d member
    rcases List.mem_append.mp member with earlier | last
    · exact ih (n / b) d earlier
    · rw [List.mem_singleton.mp last]
      exact Nat.mod_lt n positive

theorem digits_add (b j k n : Nat) :
    digits b (j + k) n = digits b j (n / b ^ k) ++ digits b k n := by
  induction k generalizing n with
  | zero => rw [Nat.add_zero, Nat.pow_zero, Nat.div_one, digits, List.append_nil]
  | succ k ih =>
    rw [← Nat.add_assoc, digits, ih, Nat.div_div_eq_div_mul, ← Nat.pow_succ', List.append_assoc]
    rfl

theorem digits_getElem {b k i : Nat} (n : Nat) (within : i < k) :
    (digits b k n)[i]? = some (n / b ^ (k - 1 - i) % b) := by
  induction k generalizing n with
  | zero => exact absurd within (Nat.not_lt_zero i)
  | succ k ih =>
    rw [digits]
    rcases Nat.lt_succ_iff_lt_or_eq.mp within with earlier | last
    · have power : k + 1 - 1 - i = k - 1 - i + 1 := by omega
      rw [List.getElem?_append_left (by rw [digits_length]; exact earlier), ih _ earlier, power,
        Nat.div_div_eq_div_mul, Nat.pow_succ']
    · subst last
      rw [List.getElem?_append_right (by simp), digits_length, Nat.sub_self,
        Nat.add_sub_cancel, Nat.sub_self, Nat.pow_zero, Nat.div_one]
      rfl

theorem digits_eq_map (b k n : Nat) :
    digits b k n = (List.range k).map fun i => n / b ^ (k - 1 - i) % b := by
  apply List.ext_getElem?
  intro i
  rcases Nat.lt_or_ge i k with within | beyond
  · rw [digits_getElem n within, List.getElem?_map, List.getElem?_range within]
    rfl
  · rw [List.getElem?_eq_none (by simpa using beyond),
      List.getElem?_eq_none (by simpa using beyond)]

theorem digits_mod (b k n : Nat) : digits b k (n % b ^ k) = digits b k n := by
  induction k generalizing n with
  | zero => rfl
  | succ k ih =>
    rw [digits, digits, Nat.pow_succ', Nat.mod_mul_right_mod, Nat.mod_mul_right_div_self, ih]

theorem digits_pow (b m k n : Nat) :
    digits b (m * k) n = (digits (b ^ m) k n).flatMap (digits b m) := by
  induction k generalizing n with
  | zero => rfl
  | succ k ih =>
    rw [Nat.mul_succ, digits_add, ih, digits, List.flatMap_append, List.flatMap_singleton]
    rw [digits_mod]

theorem value_concat (b : Nat) (ds : List Nat) (d : Nat) :
    value b (ds ++ [d]) = b * value b ds + d := by
  rw [value, List.foldl_append, List.foldl_cons, List.foldl_nil, value]

theorem value_append (b : Nat) (xs ys : List Nat) :
    value b (xs ++ ys) = b ^ ys.length * value b xs + value b ys := by
  induction ys using List.reverseRecOn with
  | nil => rw [List.append_nil, List.length_nil, Nat.pow_zero, Nat.one_mul, value, value]; rfl
  | append_singleton ys y ih =>
    rw [← List.append_assoc, value_concat, ih, value_concat, List.length_append,
      List.length_singleton, Nat.pow_succ', Nat.mul_add, Nat.mul_assoc, Nat.add_assoc]

theorem value_lt {b : Nat} {ds : List Nat} (below : ∀ d ∈ ds, d < b) :
    value b ds < b ^ ds.length := by
  induction ds using List.reverseRecOn with
  | nil => exact Nat.one_pos
  | append_singleton ds d ih =>
    have earlier := ih fun d member => below d (List.mem_append_left _ member)
    have last := below d (List.mem_append_right _ (List.mem_singleton.mpr rfl))
    have room := Nat.mul_le_mul_left b (Nat.succ_le_of_lt earlier)
    rw [value_concat, List.length_append, List.length_singleton, Nat.pow_succ']
    rw [Nat.succ_eq_add_one, Nat.mul_add] at room
    omega

theorem value_digits (b k n : Nat) : value b (digits b k n) = n % b ^ k := by
  induction k generalizing n with
  | zero => rw [Nat.pow_zero, Nat.mod_one]; rfl
  | succ k ih =>
    rw [digits, value_concat, ih, Nat.pow_succ', Nat.mod_mul, Nat.add_comm]

theorem value_flatMap {b m : Nat} {ds : List Nat} (below : ∀ d ∈ ds, d < b ^ m) :
    value b (ds.flatMap (digits b m)) = value (b ^ m) ds := by
  induction ds using List.reverseRecOn with
  | nil => rfl
  | append_singleton ds d ih =>
    have earlier := ih fun d member => below d (List.mem_append_left _ member)
    have last := below d (List.mem_append_right _ (List.mem_singleton.mpr rfl))
    rw [List.flatMap_append, List.flatMap_singleton, value_append, earlier, digits_length,
      value_digits, Nat.mod_eq_of_lt last, value_concat]

theorem digits_value {b : Nat} {ds : List Nat} (below : ∀ d ∈ ds, d < b) :
    digits b ds.length (value b ds) = ds := by
  induction ds using List.reverseRecOn with
  | nil => rfl
  | append_singleton ds d ih =>
    have earlier := ih fun d member => below d (List.mem_append_left _ member)
    have last := below d (List.mem_append_right _ (List.mem_singleton.mpr rfl))
    have positive : 0 < b := Nat.zero_lt_of_lt last
    rw [List.length_append, List.length_singleton, digits, value_concat,
      Nat.mul_add_div positive, Nat.div_eq_of_lt last, Nat.add_zero, earlier,
      Nat.mul_add_mod, Nat.mod_eq_of_lt last]

end FixedDigits
