import Umari.FixedDigits

/-!
SHA-1 as FIPS 180-4 has it, on strings of bits, and what its padding and its blocks are for
a message of whole bytes.
-/
namespace SecureHash
open FixedDigits

def bits (k n : Nat) : List Bool := (digits 2 k n).map (· == 1)

def number (bs : List Bool) : Nat := value 2 (bs.map Bool.toNat)

section standard

abbrev Word := BitVec 32

def zeros (length : Nat) : Nat := (960 - (length + 1) % 512) % 512

def pad (message : List Bool) : List Bool :=
  message ++ true :: List.replicate (zeros message.length) false ++ bits 64 message.length

def chunks {α : Type} (n k : Nat) (l : List α) : List (List α) :=
  (List.range k).map fun j => (l.drop (n * j)).take n

def blocks (padded : List Bool) : List (List Bool) := chunks 512 (padded.length / 512) padded

def words (block : List Bool) : List Word :=
  (chunks 32 16 block).map fun piece => BitVec.ofNat 32 (number piece)

def nextWord (W : List Word) (t : Nat) : Word :=
  (W.getD (t - 3) 0 ^^^ W.getD (t - 8) 0 ^^^ W.getD (t - 14) 0 ^^^ W.getD (t - 16) 0).rotateLeft 1

def schedule (block : List Bool) : List Word :=
  (List.range' 16 64).foldl (fun W t => W ++ [nextWord W t]) (words block)

def ch (x y z : Word) : Word := (x &&& y) ^^^ (~~~x &&& z)

def parity (x y z : Word) : Word := x ^^^ y ^^^ z

def maj (x y z : Word) : Word := (x &&& y) ^^^ (x &&& z) ^^^ (y &&& z)

def f (t : Nat) : Word → Word → Word → Word :=
  if t < 20 then ch else if t < 40 then parity else if t < 60 then maj else parity

def K (t : Nat) : Word :=
  if t < 20 then 0x5a827999 else if t < 40 then 0x6ed9eba1
  else if t < 60 then 0x8f1bbcdc else 0xca62c1d6

structure State where
  a : Word
  b : Word
  c : Word
  d : Word
  e : Word
deriving DecidableEq, Repr

def initial : State := ⟨0x67452301, 0xefcdab89, 0x98badcfe, 0x10325476, 0xc3d2e1f0⟩

def shaRound (W : List Word) (s : State) (t : Nat) : State :=
  ⟨s.a.rotateLeft 5 + f t s.b s.c s.d + s.e + K t + W.getD t 0, s.a, s.b.rotateLeft 30, s.c, s.d⟩

def compress (h : State) (block : List Bool) : State :=
  let s := (List.range 80).foldl (shaRound (schedule block)) h
  ⟨h.a + s.a, h.b + s.b, h.c + s.c, h.d + s.d, h.e + s.e⟩

def State.bits (h : State) : List Bool :=
  [h.a, h.b, h.c, h.d, h.e].flatMap fun word => SecureHash.bits 32 word.toNat

def sha1 (message : List Bool) : List Bool := ((blocks (pad message)).foldl compress initial).bits

end standard

section octets

def octetBits (octets : List UInt8) : List Bool := octets.flatMap fun octet => bits 8 octet.toNat

def octets (k n : Nat) : List UInt8 := (digits 256 k n).map UInt8.ofNat

def ofOctets (octets : List UInt8) : Nat := value 256 (octets.map UInt8.toNat)

@[simp]
theorem bits_length (k n : Nat) : (bits k n).length = k := by
  rw [bits, List.length_map, digits_length]

@[simp]
theorem octets_length (k n : Nat) : (octets k n).length = k := by
  rw [octets, List.length_map, digits_length]

theorem octetBits_append (front back : List UInt8) :
    octetBits (front ++ back) = octetBits front ++ octetBits back := List.flatMap_append

@[simp]
theorem octetBits_length (octets : List UInt8) : (octetBits octets).length = 8 * octets.length := by
  induction octets with
  | nil => rfl
  | cons octet rest ih =>
    have first := bits_length 8 octet.toNat
    rw [octetBits, List.flatMap_cons, List.length_append, first, ← octetBits, ih,
      List.length_cons]
    omega

theorem octetBits_drop (octets : List UInt8) (n : Nat) :
    (octetBits octets).drop (8 * n) = octetBits (octets.drop n) := by
  rcases Nat.le_total n octets.length with within | beyond
  · have whole : octetBits octets = octetBits (octets.take n) ++ octetBits (octets.drop n) := by
      rw [← octetBits_append, List.take_append_drop]
    have front : 8 * n = (octetBits (octets.take n)).length := by
      rw [octetBits_length, List.length_take, Nat.min_eq_left within]
    rw [whole, front, List.drop_left]
  · rw [List.drop_eq_nil_of_le beyond, List.drop_eq_nil_of_le]
    · rfl
    · rw [octetBits_length]
      omega

theorem octetBits_take (octets : List UInt8) (n : Nat) :
    (octetBits octets).take (8 * n) = octetBits (octets.take n) := by
  rcases Nat.le_total n octets.length with within | beyond
  · have whole : octetBits octets = octetBits (octets.take n) ++ octetBits (octets.drop n) := by
      rw [← octetBits_append, List.take_append_drop]
    have front : 8 * n = (octetBits (octets.take n)).length := by
      rw [octetBits_length, List.length_take, Nat.min_eq_left within]
    rw [whole, front, List.take_left]
  · rw [List.take_of_length_le beyond, List.take_of_length_le]
    rw [octetBits_length]
    omega

theorem toNat_bits (k n : Nat) : (bits k n).map Bool.toNat = digits 2 k n := by
  rw [bits, List.map_map]
  have same : ∀ d ∈ digits 2 k n, (Bool.toNat ∘ (· == 1)) d = d := by
    intro d member
    have small := digits_lt (by decide : 0 < 2) k n d member
    obtain rfl | rfl : d = 0 ∨ d = 1 := by omega
    · rfl
    · rfl
  exact (List.map_congr_left same).trans (List.map_id _)

theorem number_octetBits (octets : List UInt8) :
    number (octetBits octets) = ofOctets octets := by
  have written : (octetBits octets).map Bool.toNat =
      (octets.map UInt8.toNat).flatMap (digits 2 8) := by
    rw [octetBits, List.map_flatMap, List.flatMap_map]
    exact congrArg (List.flatMap · octets) (funext fun octet => toNat_bits 8 octet.toNat)
  rw [number, written]
  apply value_flatMap
  intro d member
  obtain ⟨octet, _, rfl⟩ := List.mem_map.mp member
  exact octet.toNat_lt

theorem octets_toNat (k n : Nat) : (octets k n).map UInt8.toNat = digits 256 k n := by
  rw [octets, List.map_map]
  have same : ∀ d ∈ digits 256 k n, (UInt8.toNat ∘ UInt8.ofNat) d = d := by
    intro d member
    exact UInt8.toNat_ofNat_of_lt (digits_lt (by decide : 0 < 256) k n d member)
  exact (List.map_congr_left same).trans (List.map_id _)

theorem ofOctets_octets (k n : Nat) : ofOctets (octets k n) = n % 256 ^ k := by
  rw [ofOctets, octets_toNat, value_digits]

theorem ofOctets_lt (octets : List UInt8) : ofOctets octets < 256 ^ octets.length := by
  have below : ∀ d ∈ octets.map UInt8.toNat, d < 256 := by
    intro d member
    obtain ⟨octet, _, rfl⟩ := List.mem_map.mp member
    exact octet.toNat_lt
  have bound := value_lt below
  rwa [List.length_map] at bound

theorem octetBits_octets (k n : Nat) : octetBits (octets k n) = bits (8 * k) n := by
  have written : octetBits (octets k n) =
      ((octets k n).map UInt8.toNat).flatMap (bits 8) := by
    rw [List.flatMap_map]
    rfl
  rw [written, octets_toNat, bits, digits_pow, List.map_flatMap]
  rfl

theorem pad_octetBits (message : List UInt8) :
    pad (octetBits message) = octetBits (message ++ 0x80 ::
      List.replicate ((119 - message.length % 64) % 64) 0 ++ octets 8 (8 * message.length)) := by
  have filled : zeros (8 * message.length) = 7 + 8 * ((119 - message.length % 64) % 64) := by
    unfold zeros
    omega
  have first : bits 8 (0x80 : UInt8).toNat = true :: List.replicate 7 false := rfl
  have cleared : ∀ n, octetBits (List.replicate n 0) = List.replicate (8 * n) false := by
    intro n
    induction n with
    | zero => rfl
    | succ n ih =>
      have zero : bits 8 (0 : UInt8).toNat = List.replicate 8 false := rfl
      rw [List.replicate_succ, octetBits, List.flatMap_cons, ← octetBits, ih, zero,
        List.replicate_append_replicate, Nat.mul_succ, Nat.add_comm]
  rw [pad, octetBits_length, filled, octetBits_append, octetBits_octets, octetBits_append]
  rw [octetBits, octetBits, List.flatMap_cons, first, ← octetBits, ← octetBits, cleared,
    List.cons_append, List.replicate_append_replicate]

theorem blocks_octetBits (octets : List UInt8) :
    blocks (octetBits octets) = (List.range (octets.length / 64)).map fun j =>
      octetBits ((octets.drop (64 * j)).take 64) := by
  have count : (octetBits octets).length / 512 = octets.length / 64 := by
    rw [octetBits_length]
    omega
  rw [blocks, chunks, count]
  apply List.map_congr_left
  intro j _
  have start : 512 * j = 8 * (64 * j) := by omega
  rw [start, octetBits_drop, octetBits_take _ 64]

theorem words_octetBits (octets : List UInt8) :
    words (octetBits octets) = (List.range 16).map fun t =>
      BitVec.ofNat 32 (ofOctets ((octets.drop (4 * t)).take 4)) := by
  rw [words, chunks, List.map_map]
  apply List.map_congr_left
  intro t _
  have start : 32 * t = 8 * (4 * t) := by omega
  rw [Function.comp_apply, start, octetBits_drop, octetBits_take _ 4, number_octetBits]

end octets

example : sha1 (octetBits [97, 98, 99]) = bits 160 0xa9993e364706816aba3e25717850c26c9cd0d89d := by
  decide +kernel

end SecureHash
