import Mathlib.Algebra.Group.Int.Defs
import Mathlib.Algebra.Group.Nat.Defs

/-!
The numbers of JavaScript where they are integers: doubles, which round a sum that does not
fit into 53 bits, and the operators that take 32 bits of their operands.
-/
namespace JsNumbers

/-- The double nearest to an integer below `2 ^ 1024`; between two, the even one. -/
def nearest (x : Int) : Int :=
  let unit := 2 ^ (x.natAbs.log2 - 52)
  let q := x.natAbs / unit
  let r := x.natAbs % unit
  x.sign * ((if unit < 2 * r ∨ unit = 2 * r ∧ q % 2 = 1 then q + 1 else q) * unit : Nat)

def add (x y : Int) : Int := nearest (x + y)

def word (x : Int) : BitVec 32 := BitVec.ofInt 32 x

def bitAnd (x y : Int) : Int := (word x &&& word y).toInt

def bitOr (x y : Int) : Int := (word x ||| word y).toInt

def bitXor (x y : Int) : Int := (word x ^^^ word y).toInt

def bitNot (x : Int) : Int := (~~~word x).toInt

def shl (x : Int) (n : Nat) : Int := (word x <<< (n % 32)).toInt

def shr (x : Int) (n : Nat) : Int := ((word x).sshiftRight (n % 32)).toInt

/-- The shift `>>>`; its result is not signed. -/
def ushr (x : Int) (n : Nat) : Int := (word x >>> (n % 32)).toNat

theorem nearest_exact {x : Int} (small : x.natAbs < 2 ^ 53) : nearest x = x := by
  have low : x.natAbs.log2 - 52 = 0 := by
    rcases Nat.eq_zero_or_pos x.natAbs with zero | positive
    · rw [zero]
      rfl
    · have below := (Nat.log2_lt (Nat.ne_of_gt positive)).mpr small
      omega
  unfold nearest
  rw [low]
  dsimp only
  rw [Nat.pow_zero, Nat.mod_one, Nat.div_one, if_neg (by omega), Nat.mul_one, Int.sign_mul_natAbs]

@[simp]
theorem word_toInt (w : BitVec 32) : word w.toInt = w := BitVec.ofInt_toInt

@[simp]
theorem word_toNat (w : BitVec 32) : word w.toNat = w := by
  rw [word, BitVec.ofInt_natCast, BitVec.ofNat_toNat, BitVec.setWidth_eq]

@[simp]
theorem word_and (x y : Int) : word (bitAnd x y) = word x &&& word y := word_toInt _

@[simp]
theorem word_or (x y : Int) : word (bitOr x y) = word x ||| word y := word_toInt _

@[simp]
theorem word_xor (x y : Int) : word (bitXor x y) = word x ^^^ word y := word_toInt _

@[simp]
theorem word_not (x : Int) : word (bitNot x) = ~~~word x := word_toInt _

@[simp]
theorem word_shl (x : Int) (n : Nat) : word (shl x n) = word x <<< (n % 32) := word_toInt _

@[simp]
theorem word_ushr (x : Int) (n : Nat) : word (ushr x n) = word x >>> (n % 32) := word_toNat _

theorem ushr_zero (x : Int) : ushr x 0 = (word x).toNat := rfl

def WordSized (x : Int) : Prop := -2 ^ 31 ≤ x ∧ x < 2 ^ 32

theorem small_toInt (w : BitVec 32) : WordSized w.toInt := by
  have low := BitVec.le_toInt w
  have high := BitVec.toInt_lt (x := w)
  unfold WordSized
  omega

theorem small_toNat (w : BitVec 32) : WordSized w.toNat := by
  have high := w.isLt
  unfold WordSized
  omega

end JsNumbers
