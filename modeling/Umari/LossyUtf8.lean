import Mathlib.Algebra.Group.Nat.Defs
import Mathlib.Data.List.DropRight

/-!
Reading bytes as UTF-8 where ill-formed bytes become replacement characters. A decoder
takes one byte after the other; it holds the beginning of a sequence until the sequence
ends or can no longer be well-formed, and each maximal beginning that leads nowhere counts
as one replacement character. Bytes that are cut and read in parts read as the whole does
exactly where no cut falls inside a sequence.
-/
namespace LossyUtf8

/-- The bytes that may come next inside a sequence, all of them continuation bytes. -/
structure Continuation where
  low : UInt8
  high : UInt8
  low_continues : 0x80 ≤ low
  high_continues : high ≤ 0xBF

def Continuation.any : Continuation := ⟨0x80, 0xBF, by decide, by decide⟩

def Continuation.Holds (range : Continuation) (b : UInt8) : Prop :=
  range.low ≤ b ∧ b ≤ range.high

instance (range : Continuation) (b : UInt8) : Decidable (range.Holds b) :=
  inferInstanceAs (Decidable (_ ∧ _))

/-- A sequence that has begun: the bits read so far and the bytes it still needs. -/
structure Pending where
  value : Nat
  next : Continuation
  later : List Continuation

def lead (b : UInt8) : Option Pending :=
  if 0xC2 ≤ b ∧ b ≤ 0xDF then some ⟨b.toNat - 0xC0, .any, []⟩
  else if b = 0xE0 then some ⟨0, ⟨0xA0, 0xBF, by decide, by decide⟩, [.any]⟩
  else if 0xE1 ≤ b ∧ b ≤ 0xEC then some ⟨b.toNat - 0xE0, .any, [.any]⟩
  else if b = 0xED then some ⟨0xD, ⟨0x80, 0x9F, by decide, by decide⟩, [.any]⟩
  else if 0xEE ≤ b ∧ b ≤ 0xEF then some ⟨b.toNat - 0xE0, .any, [.any]⟩
  else if b = 0xF0 then some ⟨0, ⟨0x90, 0xBF, by decide, by decide⟩, [.any, .any]⟩
  else if 0xF1 ≤ b ∧ b ≤ 0xF3 then some ⟨b.toNat - 0xF0, .any, [.any, .any]⟩
  else if b = 0xF4 then some ⟨4, ⟨0x80, 0x8F, by decide, by decide⟩, [.any, .any]⟩
  else none

def replacement : Char := '\uFFFD'

/-- A byte where no sequence is open: what it gives, and the sequence it begins. -/
def begin (b : UInt8) : List Char × Option Pending :=
  if b < 0x80 then ([Char.ofNat b.toNat], none)
  else ((lead b).elim [replacement] (fun _ => []), lead b)

def Pending.extend (held : Pending) (b : UInt8) : List Char × Option Pending :=
  let value := held.value * 64 + (b.toNat - 0x80)
  match held.later with
  | [] => ([Char.ofNat value], none)
  | next :: later => ([], some ⟨value, next, later⟩)

def step : Option Pending → UInt8 → List Char × Option Pending
  | none, b => begin b
  | some held, b =>
    if held.next.Holds b then held.extend b
    else (replacement :: (begin b).1, (begin b).2)

def feed : Option Pending → List UInt8 → List Char × Option Pending
  | state, [] => ([], state)
  | state, b :: rest =>
    ((step state b).1 ++ (feed (step state b).2 rest).1, (feed (step state b).2 rest).2)

/-- A sequence that is still open where the bytes end counts as ill-formed. -/
def flush : Option Pending → List Char
  | none => []
  | some _ => [replacement]

def scan (state : Option Pending) (bytes : List UInt8) : List Char :=
  (feed state bytes).1 ++ flush (feed state bytes).2

def fromUtf8Lossy (bytes : List UInt8) : List Char := scan none bytes

/-- The bytes are cut inside a sequence: it has begun before the cut and goes on after it,
though it need not end well. -/
def Inside (before after : List UInt8) : Prop :=
  ∃ held ∈ (feed none before).2, ∃ b ∈ after.head?, held.next.Holds b

instance (before after : List UInt8) : Decidable (Inside before after) :=
  inferInstanceAs (Decidable (∃ held ∈ (feed none before).2,
    ∃ b ∈ after.head?, held.next.Holds b))

variable {state : Option Pending} {held : Pending} {b : UInt8} {p q r bytes : List UInt8}
  {c : Char} {pieces : List (List UInt8)}

@[simp]
theorem scan_nil : scan state [] = flush state := List.nil_append _

theorem scan_cons : scan state (b :: q) = (step state b).1 ++ scan (step state b).2 q :=
  List.append_assoc _ _ _

theorem feed_append : feed state (p ++ q) =
    ((feed state p).1 ++ (feed (feed state p).2 q).1, (feed (feed state p).2 q).2) := by
  induction p generalizing state with
  | nil => simp [feed]
  | cons b rest ih => simp [feed, ih]

theorem scan_append : scan state (p ++ q) = (feed state p).1 ++ scan (feed state p).2 q := by
  simp [scan, feed_append]

theorem step_holds (holds : held.next.Holds b) : step (some held) b = held.extend b :=
  if_pos holds

theorem step_fails (fails : ¬ held.next.Holds b) :
    step (some held) b = (replacement :: (step none b).1, (step none b).2) :=
  if_neg fails

theorem step_continuation (holds : held.next.Holds b) :
    step none b = ([replacement], none) := by
  have above : 0x80 ≤ b := UInt8.le_trans held.next.low_continues holds.1
  have below : b ≤ 0xBF := UInt8.le_trans holds.2 held.next.high_continues
  have no_lead : lead b = none := by
    grind [lead]
  have large : ¬ b < 0x80 := UInt8.not_lt.mpr above
  simp [step, begin, large, no_lead]

theorem scan_pending_ne (held : Pending) (q : List UInt8) : scan (some held) q ≠ [] := by
  induction q generalizing held with
  | nil => simp [flush]
  | cons b rest ih =>
    rw [scan_cons]
    by_cases holds : held.next.Holds b
    · rw [step_holds holds]
      cases more : held.later with
      | nil => simp [Pending.extend, more]
      | cons next later => simpa [Pending.extend, more] using ih _
    · simp [step_fails holds]

theorem begin_open (b : UInt8) :
    (∃ c, begin b = ([c], none)) ∨ ∃ held, lead b = some held ∧ begin b = ([], some held) := by
  by_cases ascii : b < 0x80
  · exact Or.inl ⟨_, if_pos ascii⟩
  · cases begun : lead b with
    | none => exact Or.inl ⟨replacement, by simp [begin, ascii, begun]⟩
    | some held => exact Or.inr ⟨held, rfl, by simp [begin, ascii, begun]⟩

theorem scan_cons_ne (state : Option Pending) (b : UInt8) (q : List UInt8) :
    scan state (b :: q) ≠ [] := by
  cases state with
  | none =>
    rw [scan_cons]
    rcases begin_open b with ⟨c, alone⟩ | ⟨held, -, begun⟩
    · simp [step, alone]
    · simpa [step, begun] using scan_pending_ne held q
  | some held => exact scan_pending_ne held (b :: q)

@[simp]
theorem lossy_eq_nil : fromUtf8Lossy bytes = [] ↔ bytes = [] := by
  cases bytes with
  | nil => simp [fromUtf8Lossy, flush]
  | cons b rest => simp [fromUtf8Lossy, scan_cons_ne]

theorem lossy_append (outside : ¬ Inside p q) :
    fromUtf8Lossy (p ++ q) = fromUtf8Lossy p ++ fromUtf8Lossy q := by
  have later : scan (feed none p).2 q = flush (feed none p).2 ++ scan none q := by
    cases reached : (feed none p).2 with
    | none => rfl
    | some held =>
      cases q with
      | nil => simp [flush]
      | cons b rest =>
        have fails : ¬ held.next.Holds b := fun holds =>
          outside ⟨held, reached, b, rfl, holds⟩
        simp [scan_cons, step_fails fails, flush]
  simp only [fromUtf8Lossy, scan_append, later]
  simp [scan]

section ascii

/-- Whatever the sequence goes on with, it stands for no character of one byte. -/
def Pending.Long (held : Pending) : Prop :=
  0x80 ≤ (held.value * 64 + (held.next.low.toNat - 0x80)) * 64 ^ held.later.length

theorem lead_long (begun : lead b = some held) : held.Long := by
  simp only [lead] at begun
  split_ifs at begun with two e0 low_three ed high_three f0 four f4 <;>
    obtain rfl := Option.some.inj begun
  · have floor : 0xC2 ≤ b.toNat := two.1
    simp only [Pending.Long, Continuation.any, List.length_nil]
    omega
  · simp [Pending.Long]
  · have floor : 0xE1 ≤ b.toNat := low_three.1
    simp only [Pending.Long, Continuation.any, List.length_cons, List.length_nil]
    omega
  · simp [Pending.Long]
  · have floor : 0xEE ≤ b.toNat := high_three.1
    simp only [Pending.Long, Continuation.any, List.length_cons, List.length_nil]
    omega
  · simp [Pending.Long]
  · have floor : 0xF1 ≤ b.toNat := four.1
    simp only [Pending.Long, Continuation.any, List.length_cons, List.length_nil]
    omega
  · simp [Pending.Long]

theorem extend_long (long : held.Long) (holds : held.next.Holds b) :
    ∀ after ∈ (held.extend b).2, after.Long := by
  intro after member
  obtain ⟨value, range, later⟩ := held
  cases later with
  | nil => exact absurd member (by simp [Pending.extend])
  | cons next rest =>
    obtain rfl : _ = after := Option.some.inj member
    have low : range.low.toNat ≤ b.toNat := holds.1
    have enough : value * 64 + (range.low.toNat - 0x80) ≤ value * 64 + (b.toNat - 0x80) := by
      omega
    have long' : 0x80 ≤ (value * 64 + (range.low.toNat - 0x80)) * 64 ^ (rest.length + 1) := by
      simpa only [Pending.Long, List.length_cons] using long
    have shifted : 0x80 ≤ (value * 64 + (b.toNat - 0x80)) * 64 * 64 ^ rest.length := by
      rw [Nat.mul_assoc, ← Nat.pow_succ']
      exact Nat.le_trans long' (Nat.mul_le_mul_right _ enough)
    exact Nat.le_trans shifted (Nat.mul_le_mul_right _ (Nat.le_add_right _ _))

theorem step_long (long : ∀ held ∈ state, held.Long) : ∀ after ∈ (step state b).2, after.Long := by
  have begun : ∀ after ∈ (begin b).2, after.Long := by
    intro after member
    by_cases ascii : b < 0x80
    · exact absurd member (by simp [begin, ascii])
    · exact lead_long (by simpa [begin, ascii] using member)
  cases state with
  | none => exact begun
  | some held =>
    by_cases holds : held.next.Holds b
    · rw [step_holds holds]
      exact extend_long (long held rfl) holds
    · rw [step_fails holds]
      exact begun

theorem feed_long (long : ∀ held ∈ state, held.Long) :
    ∀ after ∈ (feed state bytes).2, after.Long := by
  induction bytes generalizing state with
  | nil => exact long
  | cons b rest ih => exact ih (step_long long)

theorem toNat_ofNat {n : Nat} (valid : n.isValidChar) : (Char.ofNat n).toNat = n := by
  have whole : Char.ofNat n = Char.ofNatAux n valid := dif_pos valid
  rw [whole]
  rfl

theorem ofNat_large {n : Nat} (large : 0x80 ≤ n) (small : (Char.ofNat n).toNat < 0x80) :
    (Char.ofNat n).toNat = 0 := by
  by_cases valid : n.isValidChar
  · rw [toNat_ofNat valid] at small
    omega
  · simp [Char.ofNat, valid]

theorem begin_ascii (member : c ∈ (begin b).1) (small : c.toNat < 0x80) :
    b.toNat = c.toNat := by
  by_cases ascii : b < 0x80
  · obtain rfl : c = Char.ofNat b.toNat := by simpa [begin, ascii] using member
    have below : b.toNat < 0x80 := ascii
    exact (toNat_ofNat (Or.inl (by omega))).symm
  · have wrong : c = replacement := by
      cases begun : lead b with
      | none => simpa [begin, ascii, begun] using member
      | some held => exact absurd member (by simp [begin, ascii, begun])
    rw [wrong] at small
    exact absurd small (by decide)

theorem step_ascii (long : ∀ held ∈ state, held.Long) (member : c ∈ (step state b).1)
    (small : c.toNat < 0x80) (real : c.toNat ≠ 0) : b.toNat = c.toNat := by
  cases state with
  | none => exact begin_ascii member small
  | some held =>
    by_cases holds : held.next.Holds b
    · rw [step_holds holds] at member
      cases more : held.later with
      | cons next later => exact absurd member (by simp [Pending.extend, more])
      | nil =>
        have same : c = Char.ofNat (held.value * 64 + (b.toNat - 0x80)) := by
          simpa [Pending.extend, more] using member
        have low : held.next.low.toNat ≤ b.toNat := holds.1
        have multibyte := long held rfl
        rw [Pending.Long, more, List.length_nil, Nat.pow_zero, Nat.mul_one] at multibyte
        have large : 0x80 ≤ held.value * 64 + (b.toNat - 0x80) := by omega
        rw [same] at small real
        exact absurd (ofNat_large large small) real
    · rw [step_fails holds] at member
      rcases List.mem_cons.mp member with wrong | later
      · rw [wrong] at small
        exact absurd small (by decide)
      · exact begin_ascii later small

theorem scan_ascii (long : ∀ held ∈ state, held.Long) (member : c ∈ scan state bytes)
    (small : c.toNat < 0x80) (real : c.toNat ≠ 0) : ∃ b ∈ bytes, b.toNat = c.toNat := by
  induction bytes generalizing state with
  | nil =>
    have wrong : c = replacement := by
      cases state with
      | none => exact absurd member (by simp [flush])
      | some held => simpa [flush] using member
    rw [wrong] at small
    exact absurd small (by decide)
  | cons b rest ih =>
    rw [scan_cons] at member
    rcases List.mem_append.mp member with here | later
    · exact ⟨b, List.mem_cons_self, step_ascii long here small real⟩
    · obtain ⟨a, found, same⟩ := ih (step_long long) later
      exact ⟨a, List.mem_cons_of_mem _ found, same⟩

theorem lossy_ascii (member : c ∈ fromUtf8Lossy bytes) (small : c.toNat < 0x80)
    (real : c.toNat ≠ 0) : ∃ b ∈ bytes, b.toNat = c.toNat :=
  scan_ascii (fun _ none => absurd none (by simp)) member small real

theorem lossy_ascii_cut (small : b < 0x80) :
    fromUtf8Lossy (p ++ b :: q) = fromUtf8Lossy p ++ Char.ofNat b.toNat :: fromUtf8Lossy q := by
  have outside : ¬ Inside p (b :: q) := by
    rintro ⟨held, -, a, first, holds⟩
    obtain rfl : b = a := Option.some.inj first
    have large := UInt8.le_trans held.next.low_continues holds.1
    exact absurd small (UInt8.not_lt.mpr large)
  rw [lossy_append outside]
  simp [fromUtf8Lossy, scan_cons, step, begin, small]

theorem lossy_trim (small : b < 0x80) (real : b ≠ 0) :
    (fromUtf8Lossy bytes).rdropWhile (· == Char.ofNat b.toNat) =
      fromUtf8Lossy (bytes.rdropWhile (· == b)) := by
  have below : b.toNat < 0x80 := small
  have number : (Char.ofNat b.toNat).toNat = b.toNat := toNat_ofNat (Or.inl (by omega))
  have positive : b.toNat ≠ 0 := fun zero => real (UInt8.toNat_inj.mp zero)
  induction bytes using List.reverseRecOn with
  | nil => rfl
  | append_singleton front last ih =>
    by_cases same : last = b
    · subst same
      rw [lossy_ascii_cut small, lossy_eq_nil.mpr rfl, List.rdropWhile_concat_pos _ _ _ (by simp),
        List.rdropWhile_concat_pos _ _ _ (by simp)]
      exact ih
    · have ends_otherwise : ∀ c ∈ scan (feed none front).2 [last], c ≠ Char.ofNat b.toNat := by
        rintro c member rfl
        have long := @feed_long none front (fun _ none => absurd none (by simp))
        obtain ⟨a, found, value⟩ :=
          scan_ascii long member (by rwa [number]) (by rwa [number])
        obtain rfl := List.mem_singleton.mp found
        exact same (UInt8.toNat_inj.mp (value.trans number))
      rw [List.rdropWhile_concat_neg _ _ _ (by simpa using same), List.rdropWhile_eq_self_iff]
      intro some_char
      have ending : (fromUtf8Lossy (front ++ [last])).getLast some_char =
          (scan (feed none front).2 [last]).getLast (scan_cons_ne _ _ _) := by
        simp only [fromUtf8Lossy, scan_append]
        rw [List.getLast_append_of_ne_nil]
      rw [ending]
      simpa using ends_otherwise _ (List.getLast_mem _)

end ascii

section counts

def replacements (text : List Char) : Nat := text.count replacement

theorem replacements_append (xs ys : List Char) :
    replacements (xs ++ ys) = replacements xs + replacements ys := List.count_append

theorem continued_count {rest : List UInt8} (holds : held.next.Holds b)
    (later_count : ∀ after, replacements (scan (some after) rest) ≤
      1 + replacements (scan none rest)) :
    replacements (scan (some held) (b :: rest)) + 1 ≤
      1 + replacements (scan none (b :: rest)) := by
  have alone : replacements (scan none (b :: rest)) = 1 + replacements (scan none rest) := by
    rw [scan_cons, step_continuation holds, replacements_append]
    rfl
  rw [alone, scan_cons, step_holds holds]
  cases more : held.later with
  | nil =>
    have one : replacements [Char.ofNat (held.value * 64 + (b.toNat - 0x80))] ≤ 1 :=
      List.count_le_length
    simp only [Pending.extend, more, replacements_append]
    omega
  | cons next later =>
    have bound := later_count ⟨held.value * 64 + (b.toNat - 0x80), next, later⟩
    simp only [Pending.extend, more, List.nil_append]
    omega

theorem pending_count (held : Pending) (q : List UInt8) :
    replacements (scan (some held) q) ≤ 1 + replacements (scan none q) := by
  induction q generalizing held with
  | nil => exact Nat.le_refl 1
  | cons b rest ih =>
    by_cases holds : held.next.Holds b
    · exact Nat.le_of_succ_le (continued_count holds ih)
    · rw [scan_cons, step_fails holds, ← List.singleton_append, List.append_assoc,
        ← scan_cons, replacements_append]
      rfl

theorem inside_count (inside : Inside p q) :
    replacements (fromUtf8Lossy (p ++ q)) <
      replacements (fromUtf8Lossy p) + replacements (fromUtf8Lossy q) := by
  obtain ⟨held, reached, b, first, holds⟩ := inside
  obtain ⟨rest, rfl⟩ : ∃ rest, q = b :: rest := List.head?_eq_some_iff.mp first
  have reached' : (feed none p).2 = some held := reached
  have bound := continued_count holds (fun after => pending_count after rest)
  have before : replacements (fromUtf8Lossy p) = replacements (feed none p).1 + 1 := by
    rw [fromUtf8Lossy, scan, reached', replacements_append]
    rfl
  rw [before, fromUtf8Lossy, scan_append, reached', replacements_append, fromUtf8Lossy]
  omega

theorem cut_count (p q : List UInt8) :
    replacements (fromUtf8Lossy (p ++ q)) ≤
      replacements (fromUtf8Lossy p) + replacements (fromUtf8Lossy q) := by
  by_cases inside : Inside p q
  · exact Nat.le_of_lt (inside_count inside)
  · rw [lossy_append inside, replacements_append]

theorem flatten_count (pieces : List (List UInt8)) :
    replacements (fromUtf8Lossy pieces.flatten) ≤
      replacements (pieces.flatMap fromUtf8Lossy) := by
  induction pieces with
  | nil => exact Nat.le_refl 0
  | cons p rest ih =>
    have cut := cut_count p rest.flatten
    simp only [List.flatten_cons, List.flatMap_cons, replacements_append]
    omega

end counts

section pieces

/-- No two pieces that follow each other are cut inside a sequence of what they make up. -/
def Whole (pieces : List (List UInt8)) : Prop :=
  ∀ front back, front ++ back = pieces → ¬ Inside front.flatten back.flatten

theorem not_inside_nil : ¬ Inside [] q := by
  rintro ⟨held, none, -⟩
  exact absurd none (by simp [feed])

theorem inside_append (outside : ¬ Inside p (q ++ r)) : Inside (p ++ q) r ↔ Inside q r := by
  cases q with
  | nil =>
    rw [List.append_nil]
    exact iff_of_false outside not_inside_nil
  | cons b rest =>
    have same : (feed none (p ++ b :: rest)).2 = (feed none (b :: rest)).2 := by
      rw [feed_append]
      cases reached : (feed none p).2 with
      | none => rfl
      | some held =>
        have fails : ¬ held.next.Holds b := fun holds =>
          outside ⟨held, reached, b, rfl, holds⟩
        simp [feed, step_fails fails]
    rw [Inside, same]
    rfl

theorem whole_nil : Whole [] := by
  intro front back split
  obtain ⟨rfl, rfl⟩ := List.append_eq_nil_iff.mp split
  exact not_inside_nil

theorem whole_cons : Whole (p :: pieces) ↔ ¬ Inside p pieces.flatten ∧ Whole pieces := by
  constructor
  · intro whole
    have outside : ¬ Inside p pieces.flatten := by
      simpa using whole [p] pieces rfl
    refine ⟨outside, ?_⟩
    rintro front back rfl
    rw [List.flatten_append] at outside
    rw [← inside_append outside]
    exact whole (p :: front) back rfl
  · rintro ⟨outside, whole⟩ front back split
    cases front with
    | nil => exact not_inside_nil
    | cons first front =>
      obtain ⟨same, parts⟩ := List.cons.inj split
      subst same
      have later := whole front back parts
      rw [← parts, List.append_eq, List.flatten_append] at outside
      rwa [List.flatten_cons, inside_append outside]

theorem whole_flatten (whole : Whole pieces) :
    pieces.flatMap fromUtf8Lossy = fromUtf8Lossy pieces.flatten := by
  induction pieces with
  | nil => rfl
  | cons p rest ih =>
    obtain ⟨outside, later⟩ := whole_cons.mp whole
    rw [List.flatten_cons, lossy_append outside, List.flatMap_cons, ih later]

theorem whole_of_count (enough : replacements (pieces.flatMap fromUtf8Lossy) ≤
    replacements (fromUtf8Lossy pieces.flatten)) : Whole pieces := by
  induction pieces with
  | nil => exact whole_nil
  | cons p rest ih =>
    have later := flatten_count rest
    simp only [List.flatten_cons, List.flatMap_cons, replacements_append] at enough
    by_cases inside : Inside p rest.flatten
    · have lost := inside_count inside
      omega
    · rw [lossy_append inside, replacements_append] at enough
      exact whole_cons.mpr ⟨inside, ih (by omega)⟩

theorem replacements_trim (text : List Char) (other : c ≠ replacement) :
    replacements (text.rdropWhile (· == c)) = replacements text := by
  have none : replacements (text.rtakeWhile (· == c)) = 0 := by
    refine List.count_eq_zero.mpr fun member => other ?_
    have equal := List.mem_rtakeWhile_imp member
    exact (beq_iff_eq.mp equal).symm
  have parts := replacements_append (text.rdropWhile (· == c)) (text.rtakeWhile (· == c))
  rw [List.rdropWhile_append_rtakeWhile, none] at parts
  exact parts.symm

theorem trimmed_pieces_iff (small : b < 0x80) (real : b ≠ 0) :
    (pieces.flatMap fromUtf8Lossy).rdropWhile (· == Char.ofNat b.toNat) =
      fromUtf8Lossy (pieces.flatten.rdropWhile (· == b)) ↔ Whole pieces := by
  rw [← lossy_trim small real]
  constructor
  · intro same
    have below : b.toNat < 0x80 := small
    have other : Char.ofNat b.toNat ≠ replacement := fun wrong => by
      have value := congrArg Char.toNat wrong
      rw [toNat_ofNat (Or.inl (by omega))] at value
      exact absurd (value ▸ below) (by decide)
    have counts := congrArg replacements same
    rw [replacements_trim _ other, replacements_trim _ other] at counts
    exact whole_of_count counts.le
  · intro whole
    rw [whole_flatten whole]

theorem pieces_iff :
    pieces.flatMap fromUtf8Lossy = fromUtf8Lossy pieces.flatten ↔ Whole pieces :=
  ⟨fun same => whole_of_count (congrArg replacements same).le, whole_flatten⟩

example : [[0x61, 0xC3], [0x9F]].flatMap fromUtf8Lossy = "a\uFFFD\uFFFD".toList ∧
    fromUtf8Lossy [[0x61, 0xC3], [0x9F]].flatten = "aß".toList := by decide

-- These cuts follow sequences that led nowhere.
example : [[0x61, 0xF1, 0x80, 0x80], [0xE1, 0x80], [0xC2, 0x62, 0x80, 0x63, 0x80, 0xBF,
      0x64]].flatMap fromUtf8Lossy =
    fromUtf8Lossy [0x61, 0xF1, 0x80, 0x80, 0xE1, 0x80, 0xC2, 0x62, 0x80, 0x63, 0x80, 0xBF,
      0x64] := by decide

end pieces

end LossyUtf8
