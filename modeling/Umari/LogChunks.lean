import Umari.LogOutput

/-!
When the log does not depend on how output is cut into writes. The code's state and the
state that the written bytes call for are images of one: each line as the list of its
pieces, which the code decodes one by one and the other all at once.
-/
namespace UmariLogChunks
open LineBuffers LossyUtf8 UmariLogOutput

variable {maxEntries : Nat} {stream : LogStream} {inner : OutputInner}
  {s : Buffers LogStream LogEntry Char} {l r : List Char} {acts : List Act}

section ring

theorem push_newest (entries : List LogEntry) (entry : LogEntry) :
    (if maxEntries ≤ (entries.rtake (max 1 maxEntries)).length
      then (entries.rtake (max 1 maxEntries)).tail
      else entries.rtake (max 1 maxEntries)) ++ [entry] =
    (entries ++ [entry]).rtake (max 1 maxEntries) := by
  simp only [List.rtake, List.length_drop, List.length_append, List.length_singleton,
    List.tail_drop]
  rw [List.drop_append_of_le_length (by omega)]
  split_ifs with full
  · by_cases some_kept : max 1 maxEntries ≤ entries.length
    · rw [Nat.sub_add_comm some_kept]
    · have empty : entries = [] := List.length_eq_zero_iff.mp (by omega)
      simp [empty]
  · rw [Nat.sub_eq_zero_of_le (by omega), Nat.sub_eq_zero_of_le (by omega)]

theorem newest_filter (p : LogEntry → Bool) (n : Nat) (entries : List LogEntry) :
    (entries.rtake n).filter p <:+ (entries.filter p).rtake n := by
  have suffix : (entries.rtake n).filter p <:+ entries.filter p :=
    (List.drop_suffix _ _).filter p
  have short : ((entries.rtake n).filter p).length ≤ n := by
    have kept := List.length_filter_le p (entries.rtake n)
    have all : (entries.rtake n).length ≤ n := by
      simp only [List.rtake, List.length_drop]
      omega
    omega
  have least : ((entries.rtake n).filter p).length ≤ (entries.filter p).length := suffix.length_le
  have length : ((entries.filter p).rtake n).length =
      (entries.filter p).length - ((entries.filter p).length - n) := List.length_drop
  exact List.suffix_of_suffix_length_le suffix (List.drop_suffix _ _) (by omega)

end ring

section loop

def charEntry : LogEntry ⊕ LogStream × List Char → LogEntry
  | .inl entry => entry
  | .inr (stream, line) => ⟨stream, trimEndMatches '\r' line⟩

/-- The state of the code, by the lines as characters. -/
def stateOf (maxEntries : Nat) (s : Buffers LogStream LogEntry Char) : OutputInner :=
  ⟨maxEntries, s.pending .stdout, s.pending .stderr,
    (s.finished.map charEntry).rtake (max 1 maxEntries)⟩

theorem drain_none (found : (inner.buf stream).findIdx? (· == '\n') = none) :
    inner.drainLines stream = inner := by
  rw [OutputInner.drainLines]
  split
  · rfl
  · next pos other => exact absurd (found.symm.trans other) (by simp)

theorem drain_some {pos : Nat} (found : (inner.buf stream).findIdx? (· == '\n') = some pos) :
    inner.drainLines stream = OutputInner.drainLines stream
      ((inner.setBuf stream ((inner.buf stream).drop (pos + 1))).pushEntry
        ⟨stream, trimEndMatches '\r' ((inner.buf stream).take pos)⟩) := by
  conv_lhs => rw [OutputInner.drainLines]
  split
  · next other => exact absurd (found.symm.trans other) (by simp)
  · next other first =>
    obtain rfl := Option.some.inj (found.symm.trans first)
    rfl

theorem drain_free (free : '\n' ∉ inner.buf stream) : inner.drainLines stream = inner := by
  refine drain_none (List.findIdx?_eq_none_iff.mpr fun c member => ?_)
  exact beq_eq_false_iff_ne.mpr fun same => free (same ▸ member)

theorem drain_line (free : '\n' ∉ l) (held : inner.buf stream = l ++ '\n' :: r) :
    inner.drainLines stream = OutputInner.drainLines stream
      ((inner.setBuf stream r).pushEntry ⟨stream, trimEndMatches '\r' l⟩) := by
  have none : l.findIdx? (· == '\n') = none :=
    List.findIdx?_eq_none_iff.mpr fun c member =>
      beq_eq_false_iff_ne.mpr fun same => free (same ▸ member)
  have found : (inner.buf stream).findIdx? (· == '\n') = some l.length := by
    simp [held, List.findIdx?_append, none, List.findIdx?_cons]
  rw [drain_some found, held]
  simp

theorem buf_stateOf (piped : stream ≠ .system) :
    (stateOf maxEntries s).buf stream = s.pending stream := by
  cases stream with
  | stdout => rfl
  | stderr => rfl
  | system => exact absurd rfl piped

theorem setBuf_setBuf (inner : OutputInner) (old new : List Char) :
    (inner.setBuf stream old).setBuf stream new = inner.setBuf stream new := by
  cases stream <;> rfl

theorem setBuf_pushEntry (inner : OutputInner) (text : List Char) (entry : LogEntry) :
    (inner.setBuf stream text).pushEntry entry = (inner.pushEntry entry).setBuf stream text := by
  cases stream <;> rfl

theorem stateOf_put (piped : stream ≠ .system) : stateOf maxEntries (s.put stream l) =
    (stateOf maxEntries s).setBuf stream (s.pending stream ++ l) := by
  cases stream with
  | stdout => simp [stateOf, Buffers.put, OutputInner.setBuf]
  | stderr => simp [stateOf, Buffers.put, OutputInner.setBuf]
  | system => exact absurd rfl piped

theorem stateOf_item (item : LogEntry ⊕ LogStream × List Char) :
    stateOf maxEntries { s with finished := s.finished ++ [item] } =
      (stateOf maxEntries s).pushEntry (charEntry item) := by
  have kept := @push_newest maxEntries (s.finished.map charEntry) (charEntry item)
  simp only [stateOf, List.map_append, List.map_singleton, ← kept]
  rfl

theorem stateOf_endLine (piped : stream ≠ .system) : stateOf maxEntries (s.endLine stream) =
    ((stateOf maxEntries s).setBuf stream []).pushEntry
      ⟨stream, trimEndMatches '\r' (s.pending stream)⟩ := by
  have item := @stateOf_item maxEntries
    { s with pending := Function.update s.pending stream [] } (.inr (stream, s.pending stream))
  have emptied : stateOf maxEntries
      { s with pending := Function.update s.pending stream [] } =
        (stateOf maxEntries s).setBuf stream [] := by
    cases stream with
    | stdout => simp [stateOf, OutputInner.setBuf]
    | stderr => simp [stateOf, OutputInner.setBuf]
    | system => exact absurd rfl piped
  rw [emptied] at item
  exact item

theorem push_free (piped : stream ≠ .system) (free : '\n' ∉ s.pending stream) (new : '\n' ∉ l) :
    (stateOf maxEntries s).pushText stream l = stateOf maxEntries (s.put stream l) := by
  rw [OutputInner.pushText, buf_stateOf piped, stateOf_put piped]
  refine drain_free ?_
  rw [buf_setBuf, List.mem_append]
  exact not_or.mpr ⟨free, new⟩

theorem push_line (piped : stream ≠ .system) (free : '\n' ∉ s.pending stream) (new : '\n' ∉ l) :
    (stateOf maxEntries s).pushText stream (l ++ '\n' :: r) =
      (stateOf maxEntries ((s.put stream l).endLine stream)).pushText stream r := by
  have line_free : '\n' ∉ s.pending stream ++ l := by
    rw [List.mem_append]
    exact not_or.mpr ⟨free, new⟩
  have held : ((stateOf maxEntries s).setBuf stream
      (s.pending stream ++ (l ++ '\n' :: r))).buf stream =
        (s.pending stream ++ l) ++ '\n' :: r := by
    rw [buf_setBuf, List.append_assoc]
  have put : (s.put stream l).pending stream = s.pending stream ++ l := by
    simp [Buffers.put]
  rw [OutputInner.pushText, buf_stateOf piped, drain_line line_free held, OutputInner.pushText,
    stateOf_endLine piped, stateOf_put piped, put]
  simp only [setBuf_setBuf, buf_pushEntry, buf_setBuf, ← setBuf_pushEntry, List.nil_append]

def charChunk : Chunk LogStream LogEntry (List UInt8) → Chunk LogStream LogEntry Char :=
  Chunk.map fromUtf8Lossy

def Free (s : Buffers LogStream LogEntry Char) : Prop := ∀ stream, '\n' ∉ s.pending stream

theorem free_put {source : LogStream} (free : Free s) (new : '\n' ∉ l) :
    Free (s.put source l) := by
  intro other
  by_cases same : other = source
  · subst same
    simpa [Buffers.put] using ⟨free other, new⟩
  · simpa [Buffers.put, same] using free other

theorem free_endLine {source : LogStream} (free : Free s) : Free (s.endLine source) := by
  intro other
  by_cases same : other = source
  · subst same
    simp [Buffers.endLine]
  · simpa [Buffers.endLine, same] using free other

theorem lossy_free {bytes : List UInt8} (free : newline ∉ bytes) :
    '\n' ∉ fromUtf8Lossy bytes := by
  intro member
  obtain ⟨b, found, value⟩ := lossy_ascii member (by decide) (by decide)
  obtain rfl : b = newline := UInt8.toNat_inj.mp value
  exact free found

theorem push_bytes (piped : stream ≠ .system) (free : Free s) (bytes : List UInt8) :
    (stateOf maxEntries s).pushText stream (fromUtf8Lossy bytes) =
      stateOf maxEntries (s.run ((cut newline stream bytes).map charChunk)) ∧
    Free (s.run ((cut newline stream bytes).map charChunk)) := by
  induction bytes using @line_induction _ _ newline generalizing s with
  | last l none =>
    have step : s.run ((cut newline stream l).map charChunk) = s.put stream (fromUtf8Lossy l) := by
      simp [cut_last none, charChunk, Chunk.map, Buffers.step]
    rw [step]
    exact ⟨push_free piped (free stream) (lossy_free none), free_put free (lossy_free none)⟩
  | line l r none ih =>
    have step : s.run ((cut newline stream (l ++ newline :: r)).map charChunk) =
        ((s.put stream (fromUtf8Lossy l)).endLine stream).run
          ((cut newline stream r).map charChunk) := by
      simp [cut_line none, charChunk, Chunk.map, Buffers.step]
    have text : fromUtf8Lossy (l ++ newline :: r) =
        fromUtf8Lossy l ++ '\n' :: fromUtf8Lossy r := lossy_ascii_cut (by decide)
    rw [step, text, push_line piped (free stream) (lossy_free none)]
    exact ih (free_endLine (free_put free (lossy_free none)))

theorem act_chars (free : Free s) (act : Act) :
    (stateOf maxEntries s).act act = stateOf maxEntries (s.run (act.pieces.map charChunk)) ∧
    Free (s.run (act.pieces.map charChunk)) := by
  cases act with
  | write pipe bytes =>
    have written : pipe.doWrite (stateOf maxEntries s) bytes =
        (stateOf maxEntries s).pushText pipe.stream (fromUtf8Lossy bytes) := by
      rcases pipe with ⟨_ | _ | _, piped⟩
      · rfl
      · rfl
      · exact absurd rfl piped
    rw [OutputInner.act, written]
    exact push_bytes pipe.piped free bytes
  | pushStderr message =>
    have added := @stateOf_item maxEntries s (.inl ⟨.stderr, message⟩)
    exact ⟨added.symm, free⟩
  | pushSystem message =>
    have added := @stateOf_item maxEntries s (.inl ⟨.system, message⟩)
    exact ⟨added.symm, free⟩

theorem foldl_chars (free : Free s) : acts.foldl OutputInner.act (stateOf maxEntries s) =
    stateOf maxEntries (s.run ((acts.flatMap Act.pieces).map charChunk)) := by
  induction acts generalizing s with
  | nil => rfl
  | cons act rest ih =>
    obtain ⟨stepped, free'⟩ := @act_chars maxEntries s free act
    rw [List.foldl_cons, stepped, ih free', List.flatMap_cons, List.map_append, run_append]

theorem run_chars : runOutput maxEntries acts =
    stateOf maxEntries ((cutLines acts).map fromUtf8Lossy) := by
  have start : Free (Buffers.empty : Buffers LogStream LogEntry Char) := fun _ =>
    List.not_mem_nil
  have new : stateOf maxEntries Buffers.empty = .new maxEntries := by
    simp [stateOf, Buffers.empty, OutputInner.new]
  rw [cutLines, ← run_map, map_empty, runOutput, ← new]
  exact foldl_chars start

end loop

section spec

theorem run_written : Buffers.empty.run (written acts) = (cutLines acts).map id := by
  have act_written : ∀ (act : Act) (s : Buffers LogStream LogEntry UInt8),
      s.run act.written = s.run (act.pieces.map (Chunk.map id)) := by
    intro act s
    cases act with
    | write pipe bytes => exact run_single bytes
    | pushStderr message => rfl
    | pushSystem message => rfl
  have run : ∀ (acts : List Act) (s : Buffers LogStream LogEntry UInt8),
      s.run (written acts) = s.run ((acts.flatMap Act.pieces).map (Chunk.map id)) := by
    intro acts
    induction acts with
    | nil => exact fun _ => rfl
    | cons act rest ih =>
      intro s
      have next := ih (s.run act.written)
      rw [written] at next ⊢
      rw [List.flatMap_cons, run_append, next, act_written, List.flatMap_cons, List.map_append,
        run_append]
  rw [run acts, cutLines, ← run_map, map_empty]

end spec

section entries
variable {piece : List (List UInt8)}

def bufferEntry (stream : LogStream) (text : List Char) : List LogEntry :=
  if text = [] then [] else [⟨stream, text⟩]

theorem entries_stateOf : moduleEntries (stateOf maxEntries s) =
    ((s.finished.map charEntry).rtake (max 1 maxEntries)) ++
      bufferEntry .stdout (s.pending .stdout) ++ bufferEntry .stderr (s.pending .stderr) := by
  by_cases out : s.pending .stdout = [] <;> by_cases err : s.pending .stderr = [] <;>
    simp [moduleEntries, stateOf, bufferEntry, out, err]

theorem newest_map {α β : Type} (f : α → β) (n : Nat) (xs : List α) :
    (xs.map f).rtake n = (xs.rtake n).map f := by
  simp [List.rtake, List.map_drop]

theorem item_iff (item : LogEntry ⊕ LogStream × List (List UInt8)) :
    charEntry (mapItem fromUtf8Lossy item) = lineEntry (mapItem id item) ↔
      ∀ stream line, .inr (stream, line) = item → Whole line := by
  rcases item with entry | ⟨stream, line⟩
  · simp [mapItem, charEntry, lineEntry]
  · have trimmed := @trimmed_pieces_iff carriageReturn line (by decide) (by decide)
    rw [mapItem, mapItem, charEntry, lineEntry, List.flatMap_id, LogEntry.mk.injEq]
    constructor
    · rintro ⟨-, same⟩ other found equal
      obtain ⟨rfl, rfl⟩ := Prod.mk.inj (Sum.inr.inj equal)
      exact trimmed.mp same
    · exact fun whole => ⟨rfl, trimmed.mpr (whole stream line rfl)⟩

theorem lossy_pieces_nil : piece.flatMap fromUtf8Lossy = [] ↔ piece.flatten = [] := by
  simp [List.flatMap_eq_nil_iff, List.flatten_eq_nil_iff]

theorem partial_length : (bufferEntry stream (piece.flatMap fromUtf8Lossy)).length =
    (partialEntry stream (piece.flatMap id)).length := by
  rw [bufferEntry, partialEntry, List.flatMap_id]
  by_cases none : piece.flatten = []
  · rw [if_pos none, if_pos (lossy_pieces_nil.mpr none)]
  · rw [if_neg none, if_neg (mt lossy_pieces_nil.mp none)]
    rfl

theorem partial_iff : bufferEntry stream (piece.flatMap fromUtf8Lossy) =
    partialEntry stream (piece.flatMap id) ↔ Whole piece := by
  rw [bufferEntry, partialEntry, List.flatMap_id, ← pieces_iff]
  by_cases none : piece.flatten = []
  · rw [if_pos none, if_pos (lossy_pieces_nil.mpr none), none, lossy_pieces_nil.mpr none]
    simp
  · rw [if_neg none, if_neg (mt lossy_pieces_nil.mp none)]
    simp

theorem newest_iff (items : List (LogEntry ⊕ LogStream × List (List UInt8))) :
    (items.rtake (max 1 maxEntries)).map (charEntry ∘ mapItem fromUtf8Lossy) =
        (items.rtake maxEntries).map (lineEntry ∘ mapItem id) ↔
      (maxEntries = 0 → items = []) ∧
      ∀ stream line, .inr (stream, line) ∈ items.rtake maxEntries → Whole line := by
  cases maxEntries with
  | zero =>
    have last : items.rtake 1 = [] ↔ items = [] := by
      rw [List.rtake, List.drop_eq_nil_iff]
      constructor
      · intro none
        exact List.length_eq_zero_iff.mp (by omega)
      · rintro rfl
        exact Nat.le_refl 0
    simp [last]
  | succ n =>
    have some_kept : max 1 (n + 1) = n + 1 := by omega
    rw [some_kept, List.map_inj_left]
    simp only [Function.comp_apply, item_iff]
    constructor
    · intro whole
      exact ⟨fun zero => absurd zero (by simp), fun stream line member =>
        whole _ member stream line rfl⟩
    · rintro ⟨-, whole⟩ item member stream line rfl
      exact whole stream line member

end entries

section independence

theorem entries_iff : moduleEntries (runOutput maxEntries acts) =
    expected maxEntries (written acts) ↔ CutsOutside maxEntries acts := by
  rw [run_chars, entries_stateOf, expected, run_written]
  simp only [Buffers.map, newest_map, List.map_map]
  rw [CutsOutside, ← and_assoc, ← newest_iff]
  constructor
  · intro same
    obtain ⟨front, err⟩ := List.append_inj' same partial_length
    obtain ⟨newest, out⟩ := List.append_inj' front partial_length
    refine ⟨newest, fun pipe => ?_⟩
    rcases pipe with ⟨_ | _ | _, piped⟩
    · exact partial_iff.mp out
    · exact partial_iff.mp err
    · exact absurd rfl piped
  · rintro ⟨newest, whole⟩
    have out : Whole ((cutLines acts).pending .stdout) := whole stdoutPipe
    have err : Whole ((cutLines acts).pending .stderr) := whole stderrPipe
    rw [newest, partial_iff.mpr out, partial_iff.mpr err]

def ofStream (stream : LogStream) (entry : LogEntry) : Bool := entry.stream = stream

theorem act_pieces_kept (act : Act) (part : Chunk LogStream LogEntry (List UInt8))
    (member : part ∈ act.pieces) :
    part.kept (fun source => source = stream) (ofStream stream) = act.concerns stream := by
  cases act with
  | write pipe bytes => exact cut_kept member
  | pushStderr message =>
    obtain rfl := List.mem_singleton.mp member
    rfl
  | pushSystem message =>
    obtain rfl := List.mem_singleton.mp member
    rfl

theorem cutLines_filter : cutLines (acts.filter (Act.concerns stream)) =
    (cutLines acts).restrict (fun source => source = stream) (ofStream stream) := by
  have parts : (acts.filter (Act.concerns stream)).flatMap Act.pieces =
      (acts.flatMap Act.pieces).filter
        (Chunk.kept (fun source => source = stream) (ofStream stream)) := by
    induction acts with
    | nil => rfl
    | cons act rest ih =>
      have same := @act_pieces_kept stream act
      rw [List.flatMap_cons, List.filter_append, ← ih]
      cases kept : act.concerns stream with
      | true =>
        rw [List.filter_cons_of_pos kept, List.flatMap_cons,
          List.filter_eq_self.mpr fun part member => (same part member).trans kept]
      | false =>
        have none : act.pieces.filter
            (Chunk.kept (fun source => source = stream) (ofStream stream)) = [] :=
          List.filter_eq_nil_iff.mpr fun part member => by
            rw [same part member, kept]
            exact Bool.false_ne_true
        rw [List.filter_cons_of_neg (by simp [kept]), none, List.nil_append]
  rw [cutLines, parts, cutLines, ← run_restrict, restrict_empty]

theorem buffer_filter (source : LogStream) (text : List Char) :
    (bufferEntry source text).filter (ofStream stream) =
      if source = stream then bufferEntry source text else [] := by
  rw [bufferEntry]
  split_ifs with empty same same
  · rfl
  · rfl
  · exact List.filter_eq_self.mpr (by simp [ofStream, same])
  · exact List.filter_eq_nil_iff.mpr (by simp [ofStream, same])

theorem entries_of_stream (maxEntries : Nat) (acts : List Act) (stream : LogStream) :
    (moduleEntries (runOutput maxEntries acts)).filter (ofStream stream) <:+
      moduleEntries (runOutput maxEntries (acts.filter (Act.concerns stream))) := by
  rw [run_chars, run_chars, cutLines_filter, entries_stateOf, entries_stateOf]
  generalize cutLines acts = lines
  have items : (((lines.restrict (fun source => source = stream) (ofStream stream)).map
      fromUtf8Lossy).finished.map charEntry) =
        ((lines.map fromUtf8Lossy).finished.map charEntry).filter (ofStream stream) := by
    have same : keptItem (fun source => source = stream) (ofStream stream) =
        ofStream stream ∘ charEntry ∘ mapItem fromUtf8Lossy := by
      funext item
      rcases item with entry | ⟨source, line⟩ <;> rfl
    simp only [Buffers.map, Buffers.restrict, List.map_map, List.filter_map, same]
  have partials : ∀ source, bufferEntry source
      (((lines.restrict (fun source => source = stream) (ofStream stream)).map
        fromUtf8Lossy).pending source) =
      (bufferEntry source ((lines.map fromUtf8Lossy).pending source)).filter
        (ofStream stream) := by
    intro source
    rw [buffer_filter]
    by_cases same : source = stream
    · simp [Buffers.map, Buffers.restrict, same]
    · simp [Buffers.map, Buffers.restrict, same, bufferEntry]
  rw [items, partials, partials, List.filter_append, List.filter_append]
  obtain ⟨older, evicted⟩ := newest_filter (ofStream stream) (max 1 maxEntries)
    ((lines.map fromUtf8Lossy).finished.map charEntry)
  rw [← evicted]
  exact ⟨older, by simp⟩

/-- A run's entries are those its bytes call for exactly when no two writes cut a shown
line inside a UTF-8 sequence, and no writes to the other pipe change a line's text. -/
theorem chunks_agree_iff (maxEntries : Nat) (acts : List Act) :
    (moduleEntries (runOutput maxEntries acts) = expected maxEntries (written acts) ↔
      CutsOutside maxEntries acts) ∧
    ∀ stream, (moduleEntries (runOutput maxEntries acts)).filter (·.stream = stream) <:+
      moduleEntries (runOutput maxEntries (acts.filter (Act.concerns stream))) :=
  ⟨entries_iff, entries_of_stream maxEntries acts⟩

/-- The two bytes of one letter in two writes, and the whole line in one. -/
theorem split_letter_fails :
    written [.write stdoutPipe [0xC3], .write stdoutPipe [0xA9, 0x0A]] =
      written [.write stdoutPipe [0xC3, 0xA9, 0x0A]] ∧
    moduleEntries (runOutput 16
      [.write stdoutPipe [0xC3], .write stdoutPipe [0xA9, 0x0A]]) =
        [⟨.stdout, "\uFFFD\uFFFD".toList⟩] ∧
    moduleEntries (runOutput 16 [.write stdoutPipe [0xC3, 0xA9, 0x0A]]) =
      [⟨.stdout, "é".toList⟩] ∧
    expected 16 (written [.write stdoutPipe [0xC3], .write stdoutPipe [0xA9, 0x0A]]) =
      [⟨.stdout, "é".toList⟩] := by
  refine ⟨rfl, ?_, ?_, by decide +kernel⟩
  · rw [run_chars]
    decide +kernel
  · rw [run_chars]
    decide +kernel

end independence

end UmariLogChunks
