import Mathlib.Data.List.DropRight
import Mathlib.Data.List.Infix

/-!
Multipart bodies as a streaming parser reads them. It starts behind the first two dashes and
boundary; two more dashes close the body. Otherwise a line ends, header lines follow up to
an empty line, and the content goes on to the first delimiter in it: an end of line, two
dashes and the boundary. The end of line of the empty line belongs to no delimiter.
-/
namespace Multipart
universe u
variable {α : Type u}

theorem prefix_before {x : α} {ds a b : List α} (once : x ∉ ds)
    (met : (x :: ds) <+: a ++ ((x :: ds) ++ b)) (some_before : a ≠ []) : (x :: ds) <+: a := by
  rcases List.prefix_or_prefix_of_prefix met (List.prefix_append a _) with inside | ⟨t, longer⟩
  · exact inside
  · obtain ⟨y, rest, rfl⟩ := List.exists_cons_of_ne_nil some_before
    cases t with
    | nil =>
      rw [List.append_nil] at longer
      exact longer ▸ List.prefix_rfl
    | cons z t =>
      obtain ⟨-, tail⟩ := List.cons.inj longer
      have again : z ∈ ds := tail ▸ by simp
      rw [← longer, List.prefix_append_right_inj, longer] at met
      obtain rfl : z = x := (List.cons_prefix_cons.mp met).1
      exact absurd again once

variable [DecidableEq α]

/-- What stands between the occurrences of a delimiter; of one that was just met, so many
elements are still to be passed over. -/
def cutAt (d : List α) : Nat → List α → List (List α)
  | _, [] => [[]]
  | skip + 1, _ :: rest => cutAt d skip rest
  | 0, x :: rest =>
    if d <+: x :: rest then [] :: cutAt d (d.length - 1) rest
    else (cutAt d 0 rest).modifyHead (x :: ·)

section cuts
variable {d ds a b xs : List α} {x : α} {skip : Nat} {pieces : List (List α)}

theorem cutAt_met (met : d <+: x :: xs) :
    cutAt d 0 (x :: xs) = [] :: cutAt d (d.length - 1) xs := if_pos met

theorem cutAt_passed (passed : ¬ d <+: x :: xs) :
    cutAt d 0 (x :: xs) = (cutAt d 0 xs).modifyHead (x :: ·) := if_neg passed

theorem cutAt_ne (d : List α) (skip : Nat) (xs : List α) : cutAt d skip xs ≠ [] := by
  induction xs generalizing skip with
  | nil => simp [cutAt]
  | cons x rest ih =>
    cases skip with
    | succ n => exact ih n
    | zero =>
      by_cases met : d <+: x :: rest
      · rw [cutAt_met met]
        exact List.cons_ne_nil _ _
      · simpa [cutAt_passed met] using ih 0

theorem cutAt_skip (a b : List α) : cutAt d a.length (a ++ b) = cutAt d 0 b := by
  induction a with
  | nil => rfl
  | cons x rest ih => exact ih

theorem cutAt_free (free : ¬ d <:+: a) : cutAt d 0 a = [a] := by
  induction a with
  | nil => rfl
  | cons x rest ih =>
    rw [List.infix_cons_iff, not_or] at free
    rw [cutAt_passed free.1, ih free.2]
    rfl

theorem cutAt_join_skip (once : x ∉ ds) (a b : List α) (short : skip ≤ a.length) :
    cutAt (x :: ds) skip (a ++ ((x :: ds) ++ b)) =
      cutAt (x :: ds) skip a ++ cutAt (x :: ds) 0 b := by
  induction a generalizing skip with
  | nil =>
    obtain rfl : skip = 0 := Nat.le_zero.mp short
    have met : (x :: ds) <+: x :: (ds ++ b) := List.prefix_append (x :: ds) b
    rw [List.nil_append, List.cons_append, cutAt_met met, List.length_cons,
      Nat.add_sub_cancel, cutAt_skip]
    rfl
  | cons y rest ih =>
    cases skip with
    | succ n => exact ih (Nat.le_of_succ_le_succ short)
    | zero =>
      have same : (x :: ds) <+: y :: (rest ++ ((x :: ds) ++ b)) ↔ (x :: ds) <+: y :: rest :=
        ⟨fun met => prefix_before once met (List.cons_ne_nil _ _),
          fun met => met.trans (List.prefix_append (y :: rest) _)⟩
      rw [List.cons_append]
      by_cases met : (x :: ds) <+: y :: rest
      · have enough : (x :: ds).length - 1 ≤ rest.length := by
          have length := met.length_le
          simp only [List.length_cons] at length ⊢
          omega
        rw [cutAt_met (same.mpr met), cutAt_met met, ih enough, List.cons_append]
      · obtain ⟨first, more, head⟩ := List.exists_cons_of_ne_nil (cutAt_ne (x :: ds) 0 rest)
        rw [cutAt_passed (mt same.mp met), cutAt_passed met, ih (Nat.zero_le _), head]
        rfl

theorem cutAt_join (once : x ∉ ds) (a b : List α) :
    cutAt (x :: ds) 0 (a ++ ((x :: ds) ++ b)) =
      cutAt (x :: ds) 0 a ++ cutAt (x :: ds) 0 b :=
  cutAt_join_skip once a b (Nat.zero_le _)

theorem cutAt_first (d xs : List α) :
    ∃ first more, cutAt d 0 xs = first :: more ∧ first <+: xs := by
  induction xs with
  | nil => exact ⟨[], [], rfl, List.prefix_rfl⟩
  | cons x rest ih =>
    obtain ⟨first, more, head, before⟩ := ih
    by_cases met : d <+: x :: rest
    · exact ⟨[], _, cutAt_met met, List.nil_prefix⟩
    · refine ⟨x :: first, more, ?_, List.cons_prefix_cons.mpr ⟨rfl, before⟩⟩
      rw [cutAt_passed met, head]
      rfl

theorem intercalate_cutAt_skip (some_delimiter : d ≠ []) (skip : Nat) (xs : List α) :
    d.intercalate (cutAt d skip xs) = xs.drop skip := by
  induction xs generalizing skip with
  | nil => simp [cutAt]
  | cons x rest ih =>
    cases skip with
    | succ n => exact ih n
    | zero =>
      by_cases met : d <+: x :: rest
      · rw [cutAt_met met]
        obtain ⟨after, whole⟩ := met
        have length : d.length - 1 + 1 = d.length :=
          Nat.sub_add_cancel (List.length_pos_iff.mpr some_delimiter)
        have rest_drop : rest.drop (d.length - 1) = (x :: rest).drop d.length := by
          rw [← length]
          rfl
        rw [List.intercalate_cons_of_ne_nil (cutAt_ne _ _ _), ih, rest_drop, ← whole]
        simp
      · obtain ⟨first, more, head, -⟩ := cutAt_first d rest
        have joined := ih 0
        rw [head] at joined
        rw [cutAt_passed met, head]
        exact List.intercalate_cons_cons_left.trans (congrArg (x :: ·) joined)

theorem intercalate_cutAt (some_delimiter : d ≠ []) (xs : List α) :
    d.intercalate (cutAt d 0 xs) = xs :=
  intercalate_cutAt_skip some_delimiter 0 xs

end cuts

/-- What stands before the first occurrence of a delimiter, and what follows it. -/
def breakOn (d : List α) : List α → Option (List α × List α)
  | [] => none
  | x :: rest =>
    if d <+: x :: rest then some ([], (x :: rest).drop d.length)
    else (breakOn d rest).map fun found => (x :: found.1, found.2)

section breaks
variable {d ds a b xs : List α} {x : α}

theorem breakOn_sound (found : breakOn d xs = some (a, b)) :
    xs = a ++ (d ++ b) ∧ (d ≠ [] → ¬ d <:+: a) := by
  induction xs generalizing a b with
  | nil => exact absurd found (by simp [breakOn])
  | cons x rest ih =>
    rw [breakOn] at found
    split_ifs at found with met
    · obtain ⟨rfl, rfl⟩ := Prod.mk.inj (Option.some.inj found)
      refine ⟨?_, fun some_delimiter => by simpa using some_delimiter⟩
      rw [List.nil_append]
      exact List.prefix_append_drop met
    · obtain ⟨⟨front, back⟩, later, same⟩ := Option.map_eq_some_iff.mp found
      obtain ⟨rfl, rfl⟩ := Prod.mk.inj same
      obtain ⟨whole, free⟩ := ih later
      constructor
      · rw [List.cons_append, ← whole]
      · intro some_delimiter
        rw [List.infix_cons_iff, not_or]
        refine ⟨fun here => met ?_, free some_delimiter⟩
        rw [whole]
        exact here.trans (List.prefix_append (x :: front) _)

theorem breakOn_met (d b : List α) (some_delimiter : d ≠ []) :
    breakOn d (d ++ b) = some ([], b) := by
  obtain ⟨x, ds, rfl⟩ := List.exists_cons_of_ne_nil some_delimiter
  have met : (x :: ds) <+: x :: (ds ++ b) := List.prefix_append (x :: ds) b
  rw [List.cons_append, breakOn, if_pos met]
  simp

theorem breakOn_join (once : x ∉ ds) (free : ¬ (x :: ds) <:+: a) (b : List α) :
    breakOn (x :: ds) (a ++ ((x :: ds) ++ b)) = some (a, b) := by
  induction a with
  | nil => exact breakOn_met (x :: ds) b (List.cons_ne_nil x ds)
  | cons y rest ih =>
    rw [List.infix_cons_iff, not_or] at free
    have passed : ¬ (x :: ds) <+: y :: (rest ++ ((x :: ds) ++ b)) := fun met =>
      free.1 (prefix_before once met (List.cons_ne_nil y rest))
    rw [List.cons_append, breakOn, if_neg passed, ih free.2]
    rfl

theorem breakOn_skip (none : x ∉ a) (xs : List α) :
    breakOn (x :: ds) (a ++ xs) =
      (breakOn (x :: ds) xs).map fun found => (a ++ found.1, found.2) := by
  induction a with
  | nil => simp
  | cons y rest ih =>
    obtain ⟨other, none⟩ : x ≠ y ∧ x ∉ rest := by simpa using none
    have passed : ¬ (x :: ds) <+: y :: (rest ++ xs) := fun met =>
      other (List.cons_prefix_cons.mp met).1
    rw [List.cons_append, breakOn, if_neg passed, ih none, Option.map_map]
    rfl

end breaks

section parts

def crlf : List UInt8 := [13, 10]

def dashes : List UInt8 := [45, 45]

def delimiter (boundary : List UInt8) : List UInt8 := crlf ++ dashes ++ boundary

structure BodyPart where
  headers : List (List UInt8)
  content : List UInt8
deriving DecidableEq, Repr

def isBlank (b : UInt8) : Bool := b == 32 || b == 9

def isLetterOrDigit (b : UInt8) : Bool :=
  (48 ≤ b && b ≤ 57) || (65 ≤ b && b ≤ 90) || (97 ≤ b && b ≤ 122)

def isToken (b : UInt8) : Bool :=
  isLetterOrDigit b || [33, 35, 36, 37, 38, 39, 42, 43, 45, 46, 94, 95, 96, 124, 126].contains b

def isValueByte (b : UInt8) : Bool := b == 9 || (32 ≤ b && b != 127)

def isHeader (line : List UInt8) : Bool :=
  match cutAt [58] 0 line with
  | name :: _ :: _ => name ≠ [] && name.all isToken && line.all isValueByte
  | _ => false

def withoutCr (line : List UInt8) : List UInt8 :=
  if line.getLast? = some 13 then line.dropLast else line

/-- The lines of a header block up to its first empty line; one that is no header cannot be
    read. A line may also end without the carriage return. -/
def headerLines (block : List UInt8) : Option (List (List UInt8)) :=
  let lines := ((cutAt [10] 0 (block ++ crlf)).map withoutCr).takeWhile (· ≠ [])
  if lines.all isHeader then some lines else none

def lineEnd (rest : List UInt8) : Option (List UInt8) :=
  let line := rest.dropWhile isBlank
  if crlf <+: line then some (line.drop crlf.length) else none

/-- The part that follows a boundary, and what stands behind the boundary that ends it. -/
def readPart (boundary rest : List UInt8) : Option (BodyPart × List UInt8) :=
  (lineEnd rest).bind fun block =>
  (breakOn (crlf ++ crlf) block).bind fun (head, body) =>
  (headerLines head).bind fun headers =>
  (breakOn (delimiter boundary) body).map fun (content, rest) => (⟨headers, content⟩, rest)

/-- The parts up to the closing boundary; a part that cannot be read ends them. -/
def readParts (boundary : List UInt8) : Nat → List UInt8 → List (Option BodyPart)
  | 0, _ => [none]
  | fuel + 1, rest =>
    if dashes <+: rest then []
    else
      match readPart boundary rest with
      | none => [none]
      | some (part, rest) => some part :: readParts boundary fuel rest

def parts (boundary body : List UInt8) : List (Option BodyPart) :=
  match breakOn (dashes ++ boundary) body with
  | none => [none]
  | some (_, rest) => readParts boundary (rest.length + 1) rest

def toLower (b : UInt8) : UInt8 := if 65 ≤ b ∧ b ≤ 90 then b + 32 else b

def trimBlanks (text : List UInt8) : List UInt8 :=
  (text.dropWhile isBlank).rdropWhile isBlank

def quotedValue (key parameter : List UInt8) : Option (List UInt8) :=
  let start := key ++ [61, 34]
  let value := parameter.drop start.length
  if start <+: parameter ∧ [34] <:+ value then some value.dropLast else none

def headerParameters (field line : List UInt8) : List (List UInt8) :=
  match cutAt [58] 0 line with
  | [] => []
  | name :: value =>
    if name.map toLower = field then (cutAt [59] 0 ([58].intercalate value)).map trimBlanks else []

def BodyPart.name (part : BodyPart) (disposition key : List UInt8) : Option (List UInt8) :=
  part.headers.findSome? fun line =>
    (headerParameters disposition line).findSome? (quotedValue key)

end parts

section bodies
variable {boundary content rest closing : List UInt8} {headers : List (List UInt8)}
  {part : BodyPart} {ps : List BodyPart} {fuel : Nat}

def pieceOf (headers : List (List UInt8)) (content : List UInt8) : List UInt8 :=
  crlf ++ (headers.flatMap (· ++ crlf) ++ (crlf ++ content))

def assemble (boundary : List UInt8) (pieces : List (List UInt8)) (closing : List UInt8) :
    List UInt8 :=
  pieces.flatMap (fun piece => dashes ++ boundary ++ piece ++ crlf) ++
    (dashes ++ boundary ++ closing)

def assembleRest (boundary : List UInt8) (pieces : List (List UInt8)) (closing : List UInt8) :
    List UInt8 :=
  pieces.foldr (fun piece rest => piece ++ (delimiter boundary ++ rest)) closing

theorem assemble_eq (boundary : List UInt8) (pieces : List (List UInt8)) (closing : List UInt8) :
    assemble boundary pieces closing =
      (dashes ++ boundary) ++ assembleRest boundary pieces closing := by
  induction pieces with
  | nil => rfl
  | cons piece rest ih =>
    have later := congrArg (fun body => dashes ++ boundary ++ piece ++ crlf ++ body) ih
    simp only [assemble, assembleRest, delimiter, List.flatMap_cons, List.foldr_cons,
      List.append_assoc] at later ⊢
    exact later

theorem parts_assemble (boundary : List UInt8) (pieces : List (List UInt8))
    (closing : List UInt8) : parts boundary (assemble boundary pieces closing) =
      readParts boundary ((assembleRest boundary pieces closing).length + 1)
        (assembleRest boundary pieces closing) := by
  rw [parts, assemble_eq, breakOn_met _ _ (by simp [dashes])]

theorem length_assembleRest (boundary : List UInt8) (pieces : List (List UInt8))
    (closing : List UInt8) :
    pieces.length ≤ (assembleRest boundary pieces closing).length := by
  induction pieces with
  | nil => exact Nat.zero_le _
  | cons piece rest ih =>
    simp only [assembleRest, List.foldr_cons, List.length_append, List.length_cons] at ih ⊢
    have some_byte : 0 < (delimiter boundary).length := by simp [delimiter, crlf]
    omega

theorem isHeader_bytes {line : List UInt8} (header : isHeader line = true) :
    line ≠ [] ∧ 13 ∉ line ∧ 10 ∉ line := by
  unfold isHeader at header
  split at header
  · next name value others cut =>
    simp only [Bool.and_eq_true, decide_eq_true_eq] at header
    have bytes := List.all_eq_true.mp header.2
    refine ⟨?_, fun member => ?_, fun member => ?_⟩
    · rintro rfl
      simp [cutAt] at cut
    · exact absurd (bytes 13 member) (by decide)
    · exact absurd (bytes 10 member) (by decide)
  · exact absurd header (by simp)

theorem withoutCr_line (line : List UInt8) : withoutCr (line ++ [13]) = line := by
  simp [withoutCr]

theorem cutAt_block (lines : ∀ line ∈ headers, isHeader line = true) :
    cutAt [10] 0 (headers.flatMap (· ++ crlf)) = headers.map (· ++ [13]) ++ [[]] := by
  induction headers with
  | nil => rfl
  | cons line headers ih =>
    obtain ⟨-, -, whole⟩ := isHeader_bytes (lines line List.mem_cons_self)
    have free : ¬ [10] <:+: line ++ [13] := by
      intro found
      have member : 10 ∈ line ++ [13] := found.subset List.mem_cons_self
      simp [whole] at member
    have later := ih fun line member => lines line (List.mem_cons_of_mem _ member)
    have split : (line :: headers).flatMap (· ++ crlf) =
        (line ++ [13]) ++ ([10] ++ headers.flatMap (· ++ crlf)) := by
      simp [crlf]
    rw [split, cutAt_join (by simp), cutAt_free free, later]
    rfl

theorem headerLines_block {block : List UInt8} (lines : ∀ line ∈ headers, isHeader line = true)
    (joined : block ++ crlf = headers.flatMap (· ++ crlf)) :
    headerLines block = some headers := by
  have some_line : ∀ line ∈ headers, decide (line ≠ []) = true := fun line member =>
    decide_eq_true (isHeader_bytes (lines line member)).1
  have cut : (cutAt [10] 0 (block ++ crlf)).map withoutCr = headers ++ [[]] := by
    rw [joined, cutAt_block lines, List.map_append, List.map_map]
    congr 1
    exact (List.map_congr_left fun line _ => withoutCr_line line).trans (List.map_id _)
  have taken : (headers ++ [[]]).takeWhile (fun line => decide (line ≠ [])) = headers := by
    rw [List.takeWhile_append_of_pos some_line]
    simp
  have all : headers.all isHeader = true := List.all_eq_true.mpr lines
  simp only [headerLines, cut, taken, all, if_true]

/-- The end of a line that another line follows is no empty line. -/
theorem breakOn_crlf {first : UInt8} (other : first ≠ 13) (xs : List UInt8) :
    breakOn (crlf ++ crlf) (crlf ++ first :: xs) =
      (breakOn (crlf ++ crlf) (first :: xs)).map fun found => (crlf ++ found.1, found.2) := by
  have one : ¬ (crlf ++ crlf) <+: 13 :: 10 :: first :: xs := by
    intro met
    have third := (List.cons_prefix_cons.mp (List.cons_prefix_cons.mp met).2).2
    exact other (List.cons_prefix_cons.mp third).1.symm
  have two : ¬ (crlf ++ crlf) <+: 10 :: first :: xs := fun met =>
    absurd (List.cons_prefix_cons.mp met).1 (by decide)
  show breakOn (crlf ++ crlf) (13 :: 10 :: first :: xs) = _
  rw [breakOn, if_neg one, breakOn, if_neg two, Option.map_map]
  rfl

theorem breakOn_headers (some_header : headers ≠ [])
    (lines : ∀ line ∈ headers, isHeader line = true) (content : List UInt8) :
    ∃ block, block ++ crlf = headers.flatMap (· ++ crlf) ∧
      breakOn (crlf ++ crlf) (headers.flatMap (· ++ crlf) ++ (crlf ++ content)) =
        some (block, content) := by
  induction headers with
  | nil => exact absurd rfl some_header
  | cons line headers ih =>
    obtain ⟨-, free, -⟩ := isHeader_bytes (lines line List.mem_cons_self)
    have skip : ∀ xs, breakOn (crlf ++ crlf) (line ++ xs) =
        (breakOn (crlf ++ crlf) xs).map fun found => (line ++ found.1, found.2) :=
      fun xs => breakOn_skip free xs
    by_cases last : headers = []
    · subst last
      refine ⟨line, by simp, ?_⟩
      have whole : [line].flatMap (· ++ crlf) ++ (crlf ++ content) =
          line ++ ((crlf ++ crlf) ++ content) := by simp
      rw [whole]
      have met := breakOn_met (crlf ++ crlf) content (by decide)
      rw [skip, met]
      simp
    · obtain ⟨block, joined, found⟩ :=
        ih last fun line member => lines line (List.mem_cons_of_mem _ member)
      obtain ⟨next, more, rfl⟩ := List.exists_cons_of_ne_nil last
      obtain ⟨some_byte, byte, -⟩ :=
        isHeader_bytes (lines next (List.mem_cons_of_mem _ List.mem_cons_self))
      obtain ⟨first, tail, rfl⟩ := List.exists_cons_of_ne_nil some_byte
      have other : first ≠ 13 := fun same => byte (same ▸ List.mem_cons_self)
      refine ⟨line ++ crlf ++ block, by simp [← joined], ?_⟩
      have whole : (line :: (first :: tail) :: more).flatMap (· ++ crlf) ++ (crlf ++ content) =
          line ++ (crlf ++ first :: (tail ++ (crlf ++
            (more.flatMap (· ++ crlf) ++ (crlf ++ content))))) := by
        simp
      have rest : ((first :: tail) :: more).flatMap (· ++ crlf) ++ (crlf ++ content) =
          first :: (tail ++ (crlf ++ (more.flatMap (· ++ crlf) ++ (crlf ++ content)))) := by
        simp
      rw [rest] at found
      rw [whole, skip, breakOn_crlf other, found]
      simp

theorem readPart_piece (once : 13 ∉ boundary) (some_header : part.headers ≠ [])
    (lines : ∀ line ∈ part.headers, isHeader line = true)
    (free : ¬ delimiter boundary <:+: part.content) (rest : List UInt8) :
    readPart boundary (pieceOf part.headers part.content ++ (delimiter boundary ++ rest)) =
      some (part, rest) := by
  obtain ⟨block, joined, found⟩ :=
    breakOn_headers some_header lines (part.content ++ (delimiter boundary ++ rest))
  have ends : lineEnd (pieceOf part.headers part.content ++ (delimiter boundary ++ rest)) =
      some (part.headers.flatMap (· ++ crlf) ++
        (crlf ++ (part.content ++ (delimiter boundary ++ rest)))) := by
    simp [lineEnd, pieceOf, crlf, isBlank]
  have body : breakOn (delimiter boundary) (part.content ++ (delimiter boundary ++ rest)) =
      some (part.content, rest) :=
    breakOn_join (x := 13) (by simpa [dashes] using once) free rest
  rw [readPart, ends, Option.bind_some, found, Option.bind_some]
  dsimp only
  rw [headerLines_block lines joined, Option.bind_some, body]
  rfl

theorem readParts_pieces (once : 13 ∉ boundary) (closes : dashes <+: closing)
    (headed : ∀ part ∈ ps, part.headers ≠ [] ∧ ∀ line ∈ part.headers, isHeader line = true)
    (free : ∀ part ∈ ps, ¬ delimiter boundary <:+: part.content) (enough : ps.length < fuel) :
    readParts boundary fuel
      (assembleRest boundary (ps.map fun part => pieceOf part.headers part.content) closing) =
        ps.map some := by
  induction ps generalizing fuel with
  | nil =>
    obtain ⟨fuel, rfl⟩ := Nat.exists_eq_succ_of_ne_zero (Nat.ne_of_gt enough)
    exact if_pos closes
  | cons part rest ih =>
    obtain ⟨fuel, rfl⟩ := Nat.exists_eq_succ_of_ne_zero (Nat.ne_zero_of_lt enough)
    obtain ⟨some_header, lines⟩ := headed part List.mem_cons_self
    have opens : ¬ dashes <+: pieceOf part.headers part.content ++ (delimiter boundary ++
        assembleRest boundary (rest.map fun part => pieceOf part.headers part.content) closing) :=
      fun met => absurd (List.cons_prefix_cons.mp met).1 (by decide)
    have later := @ih fuel (fun part member => headed part (List.mem_cons_of_mem _ member))
      (fun part member => free part (List.mem_cons_of_mem _ member))
      (by simpa using enough)
    rw [List.map_cons, assembleRest, List.foldr_cons, ← assembleRest, readParts, if_neg opens,
      readPart_piece once some_header lines (free part List.mem_cons_self)]
    exact congrArg (some part :: ·) later

/-- What a part that was read takes up: its front ends the empty line, its content is free of
    delimiters and one follows. -/
theorem readPart_sound (read : readPart boundary rest = some (part, closing)) :
    ∃ front, rest = (front ++ (crlf ++ crlf)) ++ (part.content ++ (delimiter boundary ++ closing)) ∧
      2 ≤ front.length ∧ ¬ delimiter boundary <:+: part.content := by
  obtain ⟨block, ended, read⟩ := Option.bind_eq_some_iff.mp read
  obtain ⟨⟨head, body⟩, broken, read⟩ := Option.bind_eq_some_iff.mp read
  obtain ⟨headers, -, read⟩ := Option.bind_eq_some_iff.mp read
  obtain ⟨⟨content, behind⟩, found, same⟩ := Option.map_eq_some_iff.mp read
  obtain ⟨rfl, rfl⟩ := Prod.mk.inj same
  have line : rest = rest.takeWhile isBlank ++ (crlf ++ block) := by
    simp only [lineEnd] at ended
    split_ifs at ended with met
    obtain rfl := Option.some.inj ended
    rw [← List.prefix_append_drop met]
    exact List.takeWhile_append_dropWhile.symm
  refine ⟨rest.takeWhile isBlank ++ (crlf ++ head), ?_, ?_, ?_⟩
  · conv_lhs => rw [line, (breakOn_sound broken).1, (breakOn_sound found).1]
    simp
  · simp only [List.length_append]
    have ends : crlf.length = 2 := rfl
    omega
  · exact (breakOn_sound found).2 (by simp [delimiter, crlf])

theorem readParts_induction (Holds : List UInt8 → Prop) {P : BodyPart → Prop}
    (step : ∀ {rest part behind}, Holds rest → readPart boundary rest = some (part, behind) →
      P part ∧ Holds behind) (start : Holds rest) :
    ∀ part, some part ∈ readParts boundary fuel rest → P part := by
  induction fuel generalizing rest with
  | zero => exact fun part member => absurd member (by simp [readParts])
  | succ fuel ih =>
    intro part member
    rw [readParts] at member
    split_ifs at member
    · exact absurd member List.not_mem_nil
    · cases read : readPart boundary rest with
      | none => simp [read] at member
      | some found =>
        obtain ⟨first, behind⟩ := found
        obtain ⟨here, later⟩ := step start read
        rw [read] at member
        rcases List.mem_cons.mp member with same | member
        · exact Option.some.inj same ▸ here
        · exact ih later part member

theorem content_free (member : some part ∈ readParts boundary fuel rest) :
    ¬ delimiter boundary <:+: part.content :=
  readParts_induction (fun _ => True)
    (fun _ read => ⟨(readPart_sound read).choose_spec.2.2, trivial⟩) trivial part member

theorem readPart_shorter (read : readPart boundary rest = some (part, closing)) :
    part.content.length + (delimiter boundary).length + closing.length + 6 ≤ rest.length := by
  obtain ⟨front, whole, some_front, -⟩ := readPart_sound read
  have length := congrArg List.length whole
  simp only [List.length_append] at length ⊢
  have ends : crlf.length = 2 := rfl
  omega

theorem readParts_length (member : some part ∈ readParts boundary fuel rest) :
    part.content.length + (delimiter boundary).length + 6 ≤ rest.length := by
  refine readParts_induction (·.length ≤ rest.length)
    (P := fun part => part.content.length + (delimiter boundary).length + 6 ≤ rest.length)
    (fun short read => ?_) le_rfl part member
  have shorter := readPart_shorter read
  omega

end bodies
end Multipart
