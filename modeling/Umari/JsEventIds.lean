import Mathlib.Data.List.GetD
import Umari.CommandRuns
import Umari.EventEncodings
import Umari.JsNumbers
import Umari.SecureHash

/-!
Identifiers of events in the JavaScript library: its own SHA-1 and version 5 UUIDs, next to
what the standards say. An array has fewer than `2 ^ 53` elements, so that lengths and
positions are exact; every other number goes through the operators.
-/
namespace UmariJsEventIds
open FallibleFolds FixedDigits SecureHash JsNumbers
open UmariEventStore UmariStoredEvents UmariSealedEvents UmariCommandRuns UmariEventEncodings

section sha1

def setBytes (bytes source : List UInt8) (offset : Nat) : List UInt8 :=
  bytes.take offset ++ source ++ bytes.drop (offset + source.length)

def setUint32 (view : List UInt8) (offset : Nat) (x : Int) : List UInt8 :=
  setBytes view (octets 4 (word x).toNat) offset

def getUint32 (view : List UInt8) (offset : Nat) : Int :=
  ofOctets ((view.drop offset).take 4)

def sha1Padded (data : List UInt8) : List UInt8 :=
  let bitLen := data.length * 8
  let fill : Int := (56 - ((data.length + 1) % 64 : Nat) + 64) % 64
  let padLen := data.length + 1 + fill.toNat + 8
  let padded := setBytes (List.replicate padLen 0) data 0
  let padded := padded.set data.length 0x80
  let view := setUint32 padded (padLen - 8) (ushr (bitLen >>> 32 : Nat) 0)
  setUint32 view (padLen - 4) (ushr (bitLen &&& 0xffffffff : Nat) 0)

structure Registers where
  a : Int
  b : Int
  c : Int
  d : Int
  e : Int
deriving DecidableEq, Repr

def sha1Load (view : List UInt8) (i : Nat) (w : List Int) (t : Nat) : List Int :=
  w.set t (getUint32 view (i + t * 4))

def sha1Extend (w : List Int) (t : Nat) : List Int :=
  let x := bitXor (bitXor (bitXor (w.getD (t - 3) 0) (w.getD (t - 8) 0)) (w.getD (t - 14) 0))
    (w.getD (t - 16) 0)
  w.set t (ushr (bitOr (shl x 1) (ushr x 31)) 0)

def sha1Round (w : List Int) (s : Registers) (t : Nat) : Registers :=
  let (f, k) :=
    if t < 20 then (bitOr (bitAnd s.b s.c) (bitAnd (bitNot s.b) s.d), 0x5a827999)
    else if t < 40 then (bitXor (bitXor s.b s.c) s.d, 0x6ed9eba1)
    else if t < 60 then
      (bitOr (bitOr (bitAnd s.b s.c) (bitAnd s.b s.d)) (bitAnd s.c s.d), 0x8f1bbcdc)
    else (bitXor (bitXor s.b s.c) s.d, 0xca62c1d6)
  let temp := ushr (add (add (add (add (bitOr (shl s.a 5) (ushr s.a 27)) f) s.e) k) (w.getD t 0)) 0
  ⟨temp, s.a, ushr (bitOr (shl s.b 30) (ushr s.b 2)) 0, s.c, s.d⟩

/-- One block; the array of words is kept for the next one. -/
def sha1Block (view : List UInt8) (st : Registers × List Int) (i : Nat) : Registers × List Int :=
  let (h, w) := st
  let w := (List.range' 0 16).foldl (sha1Load view i) w
  let w := (List.range' 16 64).foldl sha1Extend w
  let s := (List.range 80).foldl (sha1Round w) h
  (⟨ushr (add h.a s.a) 0, ushr (add h.b s.b) 0, ushr (add h.c s.c) 0, ushr (add h.d s.d) 0,
    ushr (add h.e s.e) 0⟩, w)

def sha1Initial : Registers := ⟨0x67452301, 0xefcdab89, 0x98badcfe, 0x10325476, 0xc3d2e1f0⟩

def sha1Sync (data : List UInt8) : List UInt8 :=
  let view := sha1Padded data
  let (h, _) := (List.range ((view.length + 63) / 64)).foldl
    (fun st n => sha1Block view st (n * 64)) (sha1Initial, List.replicate 80 0)
  let out := setUint32 (List.replicate 20 0) 0 h.a
  let out := setUint32 out 4 h.b
  let out := setUint32 out 8 h.c
  let out := setUint32 out 12 h.d
  setUint32 out 16 h.e

end sha1

section uuid

def HEX : List Char := "0123456789abcdef".toList

/-- `HEX.indexOf`, which is negative for what is not found. -/
def indexOf (c : Char) : Int := (HEX.idxOf? c).elim (-1) fun i => i

def asByte (x : Int) : UInt8 := UInt8.ofBitVec (BitVec.ofInt 8 x)

/-- Text with a character that is no digit and no hyphen is refused in the same words,
    whatever its lower case is. -/
def uuidToBytes (uuid : String) : Except String (List UInt8) :=
  let hex := (uuid.toList.filter fun c => c != '-').map Char.toLower
  if hex.length ≠ 32 then .error ("invalid uuid: " ++ uuid)
  else (List.range 16).mapM fun i =>
    let c0 := indexOf (hex.getD (i * 2) ' ')
    let c1 := indexOf (hex.getD (i * 2 + 1) ' ')
    if c0 < 0 ∨ c1 < 0 then .error ("invalid uuid: " ++ uuid)
    else .ok (asByte (bitOr (shl c0 4) c1))

def hexPair (b : UInt8) : List Char :=
  [HEX.getD (shr b.toNat 4).toNat ' ', HEX.getD (bitAnd b.toNat 0xf).toNat ' ']

def bytesToUuid (b : List UInt8) : Except String String :=
  if b.length ≠ 16 then .error "uuid must be 16 bytes"
  else
    let h (i : Nat) := hexPair (b.getD i 0)
    .ok (String.ofList (h 0 ++ h 1 ++ h 2 ++ h 3 ++ ['-'] ++ h 4 ++ h 5 ++ ['-'] ++ h 6 ++ h 7 ++
      ['-'] ++ h 8 ++ h 9 ++ ['-'] ++ h 10 ++ h 11 ++ h 12 ++ h 13 ++ h 14 ++ h 15))

def uuidv5Sync (ns : String) (name : List UInt8) : Except String String :=
  (uuidToBytes ns).bind fun ns =>
  let buf := setBytes (List.replicate (ns.length + name.length) 0) ns 0
  let buf := setBytes buf name ns.length
  let hash := sha1Sync buf
  let b := hash.take 16
  let b := b.set 6 (asByte (bitOr (bitAnd (b.getD 6 0).toNat 0x0f) 0x50))
  let b := b.set 8 (asByte (bitOr (bitAnd (b.getD 8 0).toNat 0x3f) 0x80))
  bytesToUuid b

def IDEMPOTENCY_NAMESPACE : String := "e274f2bc-33c5-589f-8643-f3674d86773f"

def eventIdFromCausation (correlationId causationId : String) (index : Int) :
    Except String String :=
  (uuidToBytes correlationId).bind fun cor =>
  (uuidToBytes causationId).bind fun cau =>
  let key := List.replicate (cor.length + cau.length + 4) 0
  let key := setBytes key cor 0
  let key := setBytes key cau cor.length
  let key := setUint32 key (cor.length + cau.length) (ushr index 0)
  uuidv5Sync IDEMPOTENCY_NAMESPACE key

end uuid

section standard

/-- A name-based UUID of version 5 as RFC 4122 has it: of the hash of the name space and the
    name the first 128 bits, with the version and the variant in their places. -/
def newV5 (ns : Uuid) (name : List UInt8) : Uuid :=
  let hash := sha1 (octetBits (asBytes ns ++ name))
  BitVec.ofNat 128 (SecureHash.number (hash.take 48 ++ [false, true, false, true] ++
    (hash.drop 52).take 12 ++ [true, false] ++ (hash.drop 66).take 62))

def idempotencyNamespace : Uuid := 0xe274f2bc33c5589f8643f3674d86773f

end standard

section rounds

def number (w : Word) : Int := w.toNat

def registers (s : State) : Registers :=
  ⟨number s.a, number s.b, number s.c, number s.d, number s.e⟩

theorem ushr_add (x y : Word) : ushr (add (number x) (number y)) 0 = number (x + y) := by
  have left := small_toNat x
  have right := small_toNat y
  unfold WordSized at left right
  rw [ushr_zero, add, nearest_exact (by unfold number; omega), word, BitVec.ofInt_add, ← word,
    ← word, number, number, word_toNat, word_toNat]
  rfl

theorem ushr_sum {u v w x y : Int} (hu : WordSized u) (hv : WordSized v) (hw : WordSized w)
    (hx : WordSized x) (hy : WordSized y) :
    ushr (add (add (add (add u v) w) x) y) 0 =
      number (word u + word v + word w + word x + word y) := by
  unfold WordSized at hu hv hw hx hy
  have first : add u v = u + v := nearest_exact (by omega)
  have second : add (u + v) w = u + v + w := nearest_exact (by omega)
  have third : add (u + v + w) x = u + v + w + x := nearest_exact (by omega)
  have last : add (u + v + w + x) y = u + v + w + x + y := nearest_exact (by omega)
  rw [first, second, third, last, ushr_zero]
  simp only [word, BitVec.ofInt_add]
  rfl

theorem ch_or (x y z : Word) : x &&& y ||| ~~~x &&& z = ch x y z := by
  unfold ch
  ext i
  simp only [BitVec.getElem_or, BitVec.getElem_xor, BitVec.getElem_and, BitVec.getElem_not]
  cases x[i] <;> simp

theorem maj_or (x y z : Word) : x &&& y ||| x &&& z ||| y &&& z = maj x y z := by
  unfold maj
  ext i
  simp only [BitVec.getElem_or, BitVec.getElem_xor, BitVec.getElem_and]
  cases x[i] <;> cases y[i] <;> simp

theorem word_number (w : Word) : word (number w) = w := word_toNat w

theorem rotated (x : Int) (r : Nat) (within : r < 32) (positive : 0 < r) :
    word (bitOr (shl x r) (ushr x (32 - r))) = (word x).rotateLeft r := by
  rw [word_or, word_shl, word_ushr, BitVec.rotateLeft_def, Nat.mod_eq_of_lt within,
    Nat.mod_eq_of_lt (by omega)]

theorem sha1Round_registers (W : List Word) (s : State) (t : Nat) :
    sha1Round (W.map number) (registers s) t = registers (shaRound W s t) := by
  have read : (W.map number).getD t 0 = number (W.getD t 0) := List.getD_map W 0 number
  have b := word_number s.b
  have c := word_number s.c
  have d := word_number s.d
  have five := rotated (number s.a) 5 (by decide) (by decide)
  have thirty := rotated (number s.b) 30 (by decide) (by decide)
  rw [word_number] at five thirty
  -- The sum with the function and the constant that the round has.
  have temp : ∀ (g : Word) (k : Word) (x : Int), word x = g → WordSized x →
      ushr (add (add (add (add (bitOr (shl (number s.a) 5) (ushr (number s.a) 27)) x) (number s.e))
        (number k)) (number (W.getD t 0))) 0 =
          number (s.a.rotateLeft 5 + g + s.e + k + W.getD t 0) := by
    intro g k x same small
    have first : WordSized (bitOr (shl (number s.a) 5) (ushr (number s.a) 27)) := small_toInt _
    have number : ∀ w, WordSized (number w) := small_toNat
    rw [ushr_sum first small (number s.e) (number k) (number _), five, same, word_number,
      word_number, word_number]
  have moved : ushr (bitOr (shl (number s.b) 30) (ushr (number s.b) 2)) 0 =
      number (s.b.rotateLeft 30) := by
    rw [ushr_zero, thirty]
    rfl
  have parity : word (bitXor (bitXor (number s.b) (number s.c)) (number s.d)) =
      SecureHash.parity s.b s.c s.d := by
    rw [word_xor, word_xor, b, c, d]
    rfl
  unfold sha1Round shaRound f K
  dsimp only [registers]
  rw [read, moved]
  split
  · have choose := temp (ch s.b s.c s.d) 0x5a827999 (bitOr (bitAnd (number s.b) (number s.c))
      (bitAnd (bitNot (number s.b)) (number s.d))) (by simp [b, c, d, ch_or]) (small_toInt _)
    exact congrArg (fun a => Registers.mk a _ _ _ _) choose
  · split
    · have choose := temp _ 0x6ed9eba1 _ parity (small_toInt _)
      exact congrArg (fun a => Registers.mk a _ _ _ _) choose
    · split
      · have choose := temp (maj s.b s.c s.d) 0x8f1bbcdc
          (bitOr (bitOr (bitAnd (number s.b) (number s.c)) (bitAnd (number s.b) (number s.d)))
            (bitAnd (number s.c) (number s.d)))
          (by simp [b, c, d, maj_or]) (small_toInt _)
        exact congrArg (fun a => Registers.mk a _ _ _ _) choose
      · have choose := temp _ 0xca62c1d6 _ parity (small_toInt _)
        exact congrArg (fun a => Registers.mk a _ _ _ _) choose

end rounds

section schedule

theorem take_set_succ {w : List Int} {t : Nat} (within : t < w.length) (x : Int) :
    (w.set t x).take (t + 1) = w.take t ++ [x] := by
  rw [List.take_succ_eq_append_getElem (by rwa [List.length_set]),
    List.take_set_of_le (Nat.le_refl t), List.getElem_set_self]

theorem foldl_stored {store : List Int → Nat → List Int} {next : List Word → Nat → Word}
    {start : Nat}
    (stored : ∀ w W t, start ≤ t → W.length = t → w.take t = W.map number →
      store w t = w.set t (number (next W t)))
    {count : Nat} {w : List Int} {W : List Word} (fits : start + count ≤ w.length)
    (known : W.length = start) (front : w.take start = W.map number) :
    let w' := (List.range' start count).foldl store w
    let W' := (List.range' start count).foldl (fun W t => W ++ [next W t]) W
    w'.length = w.length ∧ W'.length = start + count ∧
      w'.take (start + count) = W'.map number := by
  induction count with
  | zero => exact ⟨rfl, known, front⟩
  | succ count ih =>
    obtain ⟨length, reached, same⟩ := ih (Nat.le_of_succ_le fits)
    dsimp only at length reached same ⊢
    rw [List.range'_1_concat, List.foldl_append, List.foldl_append, List.foldl_cons,
      List.foldl_nil, List.foldl_cons, List.foldl_nil,
      stored _ _ _ (Nat.le_add_right start count) reached same]
    refine ⟨?_, ?_, ?_⟩
    · rw [List.length_set, length]
    · rw [List.length_append, reached, List.length_singleton, Nat.add_assoc]
    · rw [← Nat.add_assoc, take_set_succ (by omega), same, List.map_append]
      rfl

theorem getD_front {w : List Int} {W : List Word} {t : Nat} (front : w.take t = W.map number)
    {i : Nat} (earlier : i < t) : w.getD i 0 = number (W.getD i 0) := by
  have read : (W.map number).getD i 0 = number (W.getD i 0) := List.getD_map W 0 number
  rw [← read, ← front, List.getD_eq_getElem?_getD, List.getD_eq_getElem?_getD,
    List.getElem?_take_of_lt earlier]

theorem sha1Extend_stored {w : List Int} {W : List Word} {t : Nat} (later : 16 ≤ t)
    (front : w.take t = W.map number) :
    sha1Extend w t = w.set t (number (nextWord W t)) := by
  have once := fun x => rotated x 1 (by decide) (by decide)
  unfold sha1Extend nextWord
  rw [getD_front front (by omega : t - 3 < t), getD_front front (by omega : t - 8 < t),
    getD_front front (by omega : t - 14 < t), getD_front front (by omega : t - 16 < t)]
  dsimp only
  rw [ushr_zero, once, word_xor, word_xor, word_xor]
  simp only [word_number]
  rfl

theorem sha1Load_stored (view : List UInt8) (i : Nat) (w : List Int) (t : Nat) :
    sha1Load view i w t =
      w.set t (number (BitVec.ofNat 32 (ofOctets ((view.drop (i + t * 4)).take 4)))) := by
  have few : ((view.drop (i + t * 4)).take 4).length ≤ 4 := List.length_take_le 4 _
  have bound := ofOctets_lt ((view.drop (i + t * 4)).take 4)
  have small : ofOctets ((view.drop (i + t * 4)).take 4) < 2 ^ 32 :=
    Nat.lt_of_lt_of_le bound (Nat.pow_le_pow_right (by decide) few)
  rw [sha1Load, getUint32, number, BitVec.toNat_ofNat, Nat.mod_eq_of_lt small]

theorem block_words (view : List UInt8) (i : Nat) :
    words (octetBits ((view.drop i).take 64)) = (List.range 16).map fun t =>
      BitVec.ofNat 32 (ofOctets ((view.drop (i + t * 4)).take 4)) := by
  rw [words_octetBits]
  apply List.map_congr_left
  intro t within
  have early := List.mem_range.mp within
  rw [List.drop_take, List.take_take, List.drop_drop, Nat.min_eq_left (by omega), Nat.mul_comm 4]

theorem sha1_schedule {view : List UInt8} {i : Nat} {w : List Int} (length : w.length = 80) :
    (List.range' 16 64).foldl sha1Extend ((List.range' 0 16).foldl (sha1Load view i) w) =
        (schedule (octetBits ((view.drop i).take 64))).map number ∧
      (schedule (octetBits ((view.drop i).take 64))).length = 80 := by
  obtain ⟨kept, loaded, front⟩ := foldl_stored (W := [])
    (fun w _ t _ _ _ => sha1Load_stored view i w t) (by omega : 0 + 16 ≤ w.length) rfl rfl
  have first : (List.range' 0 16).foldl (fun W t => W ++ [BitVec.ofNat 32
      (ofOctets ((view.drop (i + t * 4)).take 4))]) [] =
        words (octetBits ((view.drop i).take 64)) := by
    rw [block_words, List.range_eq_range', List.map_eq_flatMap, List.flatMap_def,
      List.foldl_append_eq_append, List.nil_append]
  rw [first] at loaded front
  obtain ⟨same, extended, whole⟩ := foldl_stored
    (fun _ _ _ later _ => sha1Extend_stored later) (by omega : 16 + 64 ≤ _) loaded front
  rw [List.take_of_length_le (by omega)] at whole
  exact ⟨whole, extended⟩

end schedule

section digest

theorem sha1Block_registers {view : List UInt8} {w : List Int} (length : w.length = 80)
    (h : State) (i : Nat) :
    (sha1Block view (registers h, w) i).1 =
        registers (compress h (octetBits ((view.drop i).take 64))) ∧
      (sha1Block view (registers h, w) i).2.length = 80 := by
  obtain ⟨stored, whole⟩ := @sha1_schedule view i w length
  have rounds : (List.range 80).foldl (sha1Round _) (registers h) = registers _ :=
    List.foldl_hom registers (sha1Round_registers (schedule (octetBits ((view.drop i).take 64))))
  unfold sha1Block
  dsimp only
  rw [stored, rounds]
  constructor
  · unfold compress registers
    simp only [ushr_add]
  · rw [List.length_map, whole]

theorem sha1_blocks {view : List UInt8} {n : Nat} (whole : view.length = 64 * n) :
    ((List.range ((view.length + 63) / 64)).foldl (fun st n => sha1Block view st (n * 64))
      (sha1Initial, List.replicate 80 0)).1 =
        registers ((blocks (octetBits view)).foldl compress initial) := by
  have count : (view.length + 63) / 64 = view.length / 64 := by omega
  rw [blocks_octetBits, List.foldl_map, count]
  have related := List.foldl_rel
    (r := fun (st : Registers × List Int) h => st.1 = registers h ∧ st.2.length = 80)
    (l := List.range (view.length / 64)) (f := fun st n => sha1Block view st (n * 64))
    (g := fun h j => compress h (octetBits ((view.drop (64 * j)).take 64)))
    (a := (sha1Initial, List.replicate 80 0)) (b := initial) ⟨rfl, rfl⟩
  exact (related (by
    rintro j _ ⟨found, w⟩ h ⟨rfl, length⟩
    rw [Nat.mul_comm 64]
    exact sha1Block_registers length h (j * 64))).1

theorem setBytes_gap (front : List UInt8) {gap source : List UInt8}
    (fits : gap.length = source.length) (back : List UInt8) :
    setBytes (front ++ (gap ++ back)) source front.length = front ++ (source ++ back) := by
  have rest : (front ++ (gap ++ back)).drop (front.length + source.length) = back := by
    rw [← List.drop_drop, List.drop_left, ← fits, List.drop_left]
  rw [setBytes, List.take_left, rest, List.append_assoc]

theorem setUint32_zeros (front : List UInt8) (n : Nat) (x : Int) :
    setUint32 (front ++ List.replicate (4 + n) 0) front.length x =
      (front ++ octets 4 (word x).toNat) ++ List.replicate n 0 := by
  rw [setUint32, ← List.replicate_append_replicate, setBytes_gap front (by simp),
    List.append_assoc]

theorem octets_add (j k n : Nat) :
    octets (j + k) n = octets j (n / 256 ^ k) ++ octets k n := by
  rw [octets, digits_add, List.map_append]
  rfl

theorem octets_mod (k n : Nat) : octets k (n % 256 ^ k) = octets k n := by
  rw [octets, octets, digits_mod]

theorem message_copied (data : List UInt8) (z : Nat) :
    (setBytes (List.replicate (data.length + 1 + z + 8) 0) data 0).set data.length 0x80 =
      (data ++ 0x80 :: List.replicate z 0) ++ List.replicate (4 + 4) 0 := by
  have room : List.replicate (data.length + 1 + z + 8) (0 : UInt8) =
      [] ++ (List.replicate data.length 0 ++ (0 :: (List.replicate (z + 8) 0))) := by
    rw [← List.replicate_succ, List.replicate_append_replicate, List.nil_append]
    congr 1
    omega
  have fits : (List.replicate data.length (0 : UInt8)).length = data.length :=
    List.length_replicate
  have written := setBytes_gap [] fits (0 :: List.replicate (z + 8) 0)
  rw [List.length_nil] at written
  rw [room, written, List.nil_append, List.set_append_right _ _ (Nat.le_refl _), Nat.sub_self,
    List.set_cons_zero, List.append_assoc, List.cons_append, List.replicate_append_replicate]

theorem length_halves (n : Nat) :
    octets 4 (word (ushr ((n * 8) >>> 32 : Nat) 0)).toNat ++
        octets 4 (word (ushr (n * 8 &&& 0xffffffff : Nat) 0)).toNat = octets 8 (8 * n) := by
  have kept : ∀ x : Nat, (word (ushr x 0)).toNat = x % 256 ^ 4 := by
    intro x
    rw [ushr_zero, word_toNat, word, BitVec.ofInt_natCast, BitVec.toNat_ofNat]
    rfl
  have low : n * 8 &&& 0xffffffff = n * 8 % 256 ^ 4 := Nat.and_two_pow_sub_one_eq_mod _ 32
  rw [kept, kept, octets_mod, octets_mod, low, octets_mod, Nat.shiftRight_eq_div_pow,
    Nat.mul_comm n 8]
  exact (octets_add 4 4 (8 * n)).symm

theorem sha1Padded_eq (data : List UInt8) :
    sha1Padded data = data ++ 0x80 :: List.replicate ((119 - data.length % 64) % 64) 0 ++
      octets 8 (8 * data.length) := by
  have fill : ((56 - ((data.length + 1) % 64 : Nat) + 64) % 64 : Int).toNat =
      (119 - data.length % 64) % 64 := by omega
  unfold sha1Padded
  dsimp only
  rw [fill, message_copied, ← length_halves]
  generalize (119 - data.length % 64) % 64 = z
  have start : (data ++ 0x80 :: List.replicate z 0).length = data.length + 1 + z := by
    rw [List.length_append, List.length_cons, List.length_replicate]
    omega
  generalize data ++ 0x80 :: List.replicate z 0 = front at start ⊢
  have high := setUint32_zeros front 4 (ushr ((data.length * 8) >>> 32 : Nat) 0)
  have low := setUint32_zeros (front ++ octets 4 (word
    (ushr ((data.length * 8) >>> 32 : Nat) 0)).toNat) 0
    (ushr (data.length * 8 &&& 0xffffffff : Nat) 0)
  rw [List.length_append, octets_length, start, List.replicate_zero, List.append_nil] at low
  rw [start] at high
  have first : data.length + 1 + z + 8 - 8 = data.length + 1 + z := Nat.add_sub_cancel _ 8
  have second : data.length + 1 + z + 8 - 4 = data.length + 1 + z + 4 := by omega
  rw [first, second, high]
  exact low.trans (List.append_assoc _ _ _)

theorem sha1Sync_eq (data : List UInt8) :
    ∃ h : State, sha1 (octetBits data) = h.bits ∧
      sha1Sync data = [h.a, h.b, h.c, h.d, h.e].flatMap fun w => octets 4 w.toNat := by
  apply Exists.intro ((blocks (pad (octetBits data))).foldl compress initial)
  rw [sha1]
  apply And.intro rfl
  have whole : (sha1Padded data).length =
      64 * ((data.length + 9 + (119 - data.length % 64) % 64) / 64) := by
    rw [sha1Padded_eq]
    simp only [List.length_append, List.length_cons, List.length_replicate, octets_length]
    omega
  have looped := sha1_blocks whole
  have padded : octetBits (sha1Padded data) = pad (octetBits data) := by
    rw [sha1Padded_eq, pad_octetBits]
  rw [padded] at looped
  unfold sha1Sync
  dsimp only
  rw [looped]
  generalize (blocks (pad (octetBits data))).foldl compress initial = h
  unfold registers
  dsimp only
  have stored : ∀ (front : List UInt8) (n : Nat) (w : Word),
      setUint32 (front ++ List.replicate (4 + n) 0) front.length (number w) =
        (front ++ octets 4 w.toNat) ++ List.replicate n 0 := by
    intro front n w
    rw [setUint32_zeros, word_number]
  have a := stored [] 16 h.a
  have b := stored (octets 4 h.a.toNat) 12 h.b
  have c := stored (octets 4 h.a.toNat ++ octets 4 h.b.toNat) 8 h.c
  have d := stored (octets 4 h.a.toNat ++ octets 4 h.b.toNat ++ octets 4 h.c.toNat) 4 h.d
  have e := stored (octets 4 h.a.toNat ++ octets 4 h.b.toNat ++ octets 4 h.c.toNat ++
    octets 4 h.d.toNat) 0 h.e
  simp only [List.length_append, octets_length, List.length_nil, List.nil_append,
    Nat.reduceAdd, List.replicate_zero, List.append_nil] at a b c d e
  rw [a, b, c, d, e]
  simp

theorem sha1Sync_bits (data : List UInt8) :
    octetBits (sha1Sync data) = sha1 (octetBits data) := by
  obtain ⟨h, standard, computed⟩ := sha1Sync_eq data
  rw [standard, computed, octetBits, List.flatMap_assoc, State.bits]
  exact congrArg (List.flatMap · _) (funext fun w => octetBits_octets 4 w.toNat)

theorem sha1Sync_length (data : List UInt8) : (sha1Sync data).length = 20 := by
  obtain ⟨h, _, computed⟩ := sha1Sync_eq data
  rw [computed]
  simp

end digest

section text

theorem bigEndian_octets (k n : Nat) : bigEndian k n = octets k n := by
  induction k generalizing n with
  | zero => rfl
  | succ k ih =>
    rw [bigEndian, ih, octets, octets, digits, List.map_append, List.map_cons, List.map_nil,
      ← UInt8.ofNat_mod_size (x := n)]

theorem hexDigits_digits (k n : Nat) : hexDigits k n = (digits 16 k n).map hexDigit := by
  induction k generalizing n with
  | zero => rfl
  | succ k ih =>
    rw [hexDigits, ih, digits, List.map_append]
    rfl

def hexChar (n : Nat) : Char := Char.ofNat (hexDigit n).toNat

theorem hexChar_digit : ∀ n < 16, hexChar n != '-' ∧ (hexChar n).toLower = hexChar n ∧
    indexOf (hexChar n) = n := by decide +kernel

theorem asByte_pair : ∀ m : Nat, m < 16 → ∀ n : Nat, n < 16 →
    asByte (bitOr (shl m 4) n) = UInt8.ofNat (16 * m + n) := by decide +kernel

theorem hexPair_digits (b : UInt8) : hexPair b = (digits 16 2 b.toNat).map hexChar := by
  have all : ∀ n < 256, hexPair (UInt8.ofNat n) = (digits 16 2 n).map hexChar := by decide +kernel
  have here := all b.toNat b.toNat_lt
  rwa [UInt8.ofNat_toNat] at here

theorem hyphen_byte (b : UInt8) : (Char.ofNat b.toNat != '-') = (b != 45) := by
  have all : ∀ n < 256, (Char.ofNat n != '-') = (UInt8.ofNat n != 45) := by decide +kernel
  have here := all b.toNat b.toNat_lt
  rwa [UInt8.ofNat_toNat] at here

theorem printed_digits (id : Uuid) :
    ((idText id).toList.filter fun c => c != '-').map Char.toLower =
      (digits 16 32 id.toNat).map hexChar := by
  rw [idText, asciiText, String.toList_ofList, List.filter_map]
  have plain : ((fun c => c != '-') ∘ fun b : UInt8 => Char.ofNat b.toNat) = fun b => b != 45 :=
    funext hyphen_byte
  rw [plain, uuidBytes_digits, hexDigits_digits, List.map_map, List.map_map]
  apply List.map_congr_left
  intro n member
  exact (hexChar_digit n (digits_lt (by decide) 32 _ n member)).2.1

theorem uuidToBytes_printed (id : Uuid) : uuidToBytes (idText id) = .ok (asBytes id) := by
  unfold uuidToBytes
  dsimp only
  rw [printed_digits, if_neg (by simp), mapM_ok, asBytes, bigEndian_octets, octets,
    digits_eq_map 256, List.map_map, List.forall₂_map_right_iff, List.forall₂_same]
  intro i member
  have within := List.mem_range.mp member
  have digit : ∀ j < 32, ((digits 16 32 id.toNat).map hexChar).getD j ' ' =
      hexChar (id.toNat / 16 ^ (31 - j) % 16) := by
    intro j bound
    rw [List.getD_eq_getElem?_getD, List.getElem?_map, digits_getElem _ bound]
    rfl
  have small : ∀ m : Nat, m % 16 < 16 := fun m => Nat.mod_lt m (by decide)
  have power : 16 ^ (31 - i * 2) = 16 ^ (31 - (i * 2 + 1)) * 16 := by
    rw [← Nat.pow_succ]
    congr 1
    omega
  have square : 256 ^ (15 - i) = 16 ^ (31 - (i * 2 + 1)) := by
    have exponent : 31 - (i * 2 + 1) = 2 * (15 - i) := by omega
    rw [exponent, Nat.pow_mul]
  rw [digit _ (by omega), digit _ (by omega), (hexChar_digit _ (small _)).2.2,
    (hexChar_digit _ (small _)).2.2, if_neg (by omega), asByte_pair _ (small _) _ (small _),
    power, ← Nat.div_div_eq_div_mul, Function.comp_apply, square]
  generalize id.toNat / 16 ^ (31 - (i * 2 + 1)) = m
  congr 2
  omega

theorem map_getD {α β : Type} (l : List α) (f : α → β) (default : α) :
    l.map f = (List.range l.length).map fun i => f (l.getD i default) := by
  apply List.ext_getElem
  · rw [List.length_map, List.length_map, List.length_range]
  · intro i left _
    have within : i < l.length := by rwa [List.length_map] at left
    rw [List.getElem_map, List.getElem_map, List.getElem_range, List.getD_eq_getElem _ _ within]

theorem uuidBytes_pairs {id : Uuid} {x y : Nat → UInt8}
    (pairs : hexDigits 32 id.toNat = (List.range 16).flatMap fun i => [x i, y i]) :
    uuidBytes id = [x 0, y 0, x 1, y 1, x 2, y 2, x 3, y 3, 45, x 4, y 4, x 5, y 5, 45,
      x 6, y 6, x 7, y 7, 45, x 8, y 8, x 9, y 9, 45, x 10, y 10, x 11, y 11, x 12, y 12,
      x 13, y 13, x 14, y 14, x 15, y 15] := by
  have sixteen : List.range 16 = [0, 1, 2, 3, 4, 5, 6, 7, 8, 9, 10, 11, 12, 13, 14, 15] := rfl
  unfold uuidBytes
  rw [pairs, sixteen]
  simp only [List.flatMap_cons, List.flatMap_nil, List.cons_append, List.nil_append,
    List.append_nil, List.take_succ_cons, List.take_zero, List.drop_succ_cons, List.drop_zero]

theorem digits_two (b n : Nat) : digits b 2 n = [n / b % b, n % b] := rfl

theorem bytesToUuid_asBytes (id : Uuid) : bytesToUuid (asBytes id) = .ok (idText id) := by
  have length : (asBytes id).length = 16 := by
    rw [asBytes, bigEndian_octets, octets_length]
  have bytes : digits 256 16 id.toNat =
      (List.range 16).map fun i => ((asBytes id).getD i 0).toNat := by
    rw [← octets_toNat, ← bigEndian_octets, ← asBytes, map_getD _ _ 0, length]
  generalize asBytes id = b at bytes length ⊢
  have written : hexDigits 32 id.toNat = (List.range 16).flatMap fun i =>
      [hexDigit ((b.getD i 0).toNat / 16 % 16), hexDigit ((b.getD i 0).toNat % 16)] := by
    have regrouped : digits 16 32 id.toNat = (digits 256 16 id.toNat).flatMap (digits 16 2) :=
      digits_pow 16 2 16 id.toNat
    rw [hexDigits_digits, regrouped, bytes, List.flatMap_map, List.map_flatMap]
    simp only [digits_two, List.map_cons, List.map_nil]
  unfold bytesToUuid
  rw [if_neg (by simp [length]), idText, uuidBytes_pairs written, asciiText]
  simp only [hexPair_digits, digits_two, List.map_cons, List.map_nil, List.cons_append,
    List.nil_append]
  rfl

end text

section version

theorem version_bits (x : UInt8) : bits 8 (asByte (bitOr (bitAnd x.toNat 0x0f) 0x50)).toNat =
    [false, true, false, true] ++ (bits 8 x.toNat).drop 4 := by
  have all : ∀ n < 256, bits 8 (asByte (bitOr (bitAnd (UInt8.ofNat n).toNat 0x0f) 0x50)).toNat =
      [false, true, false, true] ++ (bits 8 (UInt8.ofNat n).toNat).drop 4 := by decide +kernel
  have here := all x.toNat x.toNat_lt
  rwa [UInt8.ofNat_toNat] at here

theorem variant_bits (x : UInt8) : bits 8 (asByte (bitOr (bitAnd x.toNat 0x3f) 0x80)).toNat =
    [true, false] ++ (bits 8 x.toNat).drop 2 := by
  have all : ∀ n < 256, bits 8 (asByte (bitOr (bitAnd (UInt8.ofNat n).toNat 0x3f) 0x80)).toNat =
      [true, false] ++ (bits 8 (UInt8.ofNat n).toNat).drop 2 := by decide +kernel
  have here := all x.toNat x.toNat_lt
  rwa [UInt8.ofNat_toNat] at here

def stamped (hash : List UInt8) : List UInt8 :=
  let b := hash.take 16
  let b := b.set 6 (asByte (bitOr (bitAnd (b.getD 6 0).toNat 0x0f) 0x50))
  b.set 8 (asByte (bitOr (bitAnd (b.getD 8 0).toNat 0x3f) 0x80))

theorem hash_split {hash : List UInt8} (length : hash.length = 20) :
    ∃ front x m y last tail, hash = front ++ x :: m :: y :: (last ++ tail) ∧ front.length = 6 ∧
      last.length = 7 := by
  have six : hash.drop 6 = hash[6] :: hash[7] :: hash[8] :: hash.drop 9 := by
    rw [List.drop_eq_getElem_cons (by omega), List.drop_eq_getElem_cons (by omega),
      List.drop_eq_getElem_cons (by omega)]
  have whole : hash = hash.take 6 ++ hash[6] :: hash[7] :: hash[8] ::
      ((hash.drop 9).take 7 ++ (hash.drop 9).drop 7) := by
    rw [List.take_append_drop, ← six, List.take_append_drop]
  have front : (hash.take 6).length = 6 := by
    rw [List.length_take]
    omega
  have last : ((hash.drop 9).take 7).length = 7 := by
    rw [List.length_take, List.length_drop]
    omega
  exact ⟨_, _, _, _, _, _, whole, front, last⟩

theorem placed_bits {front x m y last tail : List Bool} (start : front.length = 48)
    (hx : x.length = 8) (hm : m.length = 8) (hy : y.length = 8) (rest : last.length = 56) :
    let hash := front ++ (x ++ (m ++ (y ++ (last ++ tail))))
    hash.take 48 ++ [false, true, false, true] ++ (hash.drop 52).take 12 ++ [true, false] ++
        (hash.drop 66).take 62 =
      front ++ ([false, true, false, true] ++ x.drop 4 ++ (m ++ ([true, false] ++ y.drop 2 ++
        last))) := by
  simp [List.take_append, List.drop_append, start, hx, hm, hy, rest, List.take_of_length_le,
    List.drop_eq_nil_of_le]

theorem stamped_bits {hash : List UInt8} (length : hash.length = 20) :
    octetBits (stamped hash) = (octetBits hash).take 48 ++ [false, true, false, true] ++
      ((octetBits hash).drop 52).take 12 ++ [true, false] ++
        ((octetBits hash).drop 66).take 62 := by
  obtain ⟨front, x, m, y, last, tail, rfl, six, seven⟩ := hash_split length
  have changed : stamped (front ++ x :: m :: y :: (last ++ tail)) =
      front ++ asByte (bitOr (bitAnd x.toNat 0x0f) 0x50) :: m ::
        asByte (bitOr (bitAnd y.toNat 0x3f) 0x80) :: last := by
    have whole : front ++ x :: m :: y :: (last ++ tail) =
        (front ++ x :: m :: y :: last) ++ tail := by
      rw [List.append_assoc, List.cons_append, List.cons_append, List.cons_append]
    have taken : (front ++ x :: m :: y :: (last ++ tail)).take 16 =
        front ++ x :: m :: y :: last := by
      rw [whole]
      exact List.take_left' (by simp [six, seven])
    unfold stamped
    simp [taken, six, List.getElem?_append_right, List.set_append_right]
  have start : (octetBits front).length = 48 := by rw [octetBits_length, six]
  have rest : (octetBits last).length = 56 := by rw [octetBits_length, seven]
  have cons : ∀ b bs, octetBits (b :: bs) = bits 8 b.toNat ++ octetBits bs := fun b bs => rfl
  rw [changed]
  simp only [octetBits_append, cons, version_bits, variant_bits]
  exact (placed_bits start (bits_length 8 _) (bits_length 8 _) (bits_length 8 _) rest).symm

theorem asBytes_newV5 {ns : Uuid} {name hash : List UInt8} (length : hash.length = 20)
    (hashed : octetBits hash = sha1 (octetBits (asBytes ns ++ name))) :
    stamped hash = asBytes (newV5 ns name) := by
  have sixteen : (stamped hash).length = 16 := by simp [stamped, length]
  have below : ∀ d ∈ (stamped hash).map UInt8.toNat, d < 256 := by
    intro d member
    obtain ⟨b, _, rfl⟩ := List.mem_map.mp member
    exact b.toNat_lt
  have bound : ofOctets (stamped hash) < 2 ^ 128 := by
    have within := ofOctets_lt (stamped hash)
    rwa [sixteen] at within
  have digits := digits_value below
  rw [List.length_map, sixteen, ← ofOctets] at digits
  rw [newV5, ← hashed, ← stamped_bits length, number_octetBits, asBytes, bigEndian_octets,
    BitVec.toNat_ofNat, Nat.mod_eq_of_lt bound, octets, digits, List.map_map]
  exact (List.map_id'' (fun b => UInt8.ofNat_toNat) (stamped hash)).symm

end version

section ids

theorem setBytes_twice (front back : List UInt8) (rest : Nat) :
    setBytes (setBytes (List.replicate (front.length + back.length + rest) 0) front 0) back
      front.length = front ++ back ++ List.replicate rest 0 := by
  have first : (List.replicate front.length (0 : UInt8)).length = front.length :=
    List.length_replicate
  have second : (List.replicate back.length (0 : UInt8)).length = back.length :=
    List.length_replicate
  have copied := setBytes_gap [] first (List.replicate (back.length + rest) 0)
  rw [List.nil_append, List.nil_append, List.length_nil, List.replicate_append_replicate,
    ← Nat.add_assoc] at copied
  rw [copied, ← List.replicate_append_replicate, setBytes_gap front second, List.append_assoc]

theorem uuidv5Sync_eq (ns : Uuid) (name : List UInt8) :
    uuidv5Sync (idText ns) name = .ok (idText (newV5 ns name)) := by
  have joined := setBytes_twice (asBytes ns) name 0
  rw [Nat.add_zero, List.replicate_zero, List.append_nil] at joined
  unfold uuidv5Sync
  rw [uuidToBytes_printed, Except.bind]
  dsimp only
  rw [joined, ← bytesToUuid_asBytes,
    ← asBytes_newV5 (sha1Sync_length (asBytes ns ++ name)) (sha1Sync_bits _)]
  rfl

/-- For every string of bytes the JavaScript hash is SHA-1, and for all correlation and
    causation ids and every index the event's id is the one that the Rust library derives. -/
theorem js_event_ids_agree :
    (∀ data, (sha1Sync data).length = 20 ∧ octetBits (sha1Sync data) = sha1 (octetBits data)) ∧
      ∀ (context : RunContext) (index : Nat),
        eventIdFromCausation (idText context.correlationId) (idText context.causationId) index =
          .ok (idText (newV5 idempotencyNamespace (idKey context index))) := by
  constructor
  · exact fun data => ⟨sha1Sync_length data, sha1Sync_bits data⟩
  · intro context index
    have constant : IDEMPOTENCY_NAMESPACE = idText idempotencyNamespace := by decide +kernel
    have key : setUint32 (asBytes context.correlationId ++ asBytes context.causationId ++
        List.replicate (4 + 0) 0)
        ((asBytes context.correlationId).length + (asBytes context.causationId).length)
        (ushr index 0) = idKey context index := by
      have stored := setUint32_zeros (asBytes context.correlationId ++ asBytes context.causationId)
        0 (ushr index 0)
      have cut : octets 4 (index % 256 ^ 4) = octets 4 index := octets_mod 4 index
      rw [List.length_append, ushr_zero, word_toNat, word, BitVec.ofInt_natCast,
        BitVec.toNat_ofNat] at stored
      rw [ushr_zero, word, BitVec.ofInt_natCast, BitVec.toNat_ofNat, stored, idKey,
        bigEndian_octets, List.replicate_zero, List.append_nil]
      exact congrArg _ cut
    unfold eventIdFromCausation
    rw [uuidToBytes_printed, uuidToBytes_printed, Except.bind, Except.bind]
    dsimp only
    rw [setBytes_twice, key, constant, uuidv5Sync_eq]

/-- An identifier that the Rust library gave, and the one of the JavaScript library. -/
example :
    let context : RunContext := ⟨0xaabbccddeeff11223344556677889900,
      0xffeeddccbbaa99887766554433221100, none, none⟩
    idText (newV5 idempotencyNamespace (idKey context 7)) = "cd266a3d-4aeb-5395-a076-f7da0e92c7b4" ∧
      eventIdFromCausation "aabbccdd-eeff-1122-3344-556677889900"
        "ffeeddcc-bbaa-9988-7766-554433221100" 7 = .ok "cd266a3d-4aeb-5395-a076-f7da0e92c7b4" := by
  decide +kernel

end ids

end UmariJsEventIds
