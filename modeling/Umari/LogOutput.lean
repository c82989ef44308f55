import Umari.LineBuffers
import Umari.LossyUtf8

/-!
The log of a module's output. Each write to one of the two pipes is decoded on its own and
joins its pipe's buffer; the lines that are complete move into a ring buffer, and `entries`
puts what is left of the two buffers behind it. Entries have no time stamps here, and the
log file that may be kept besides is left out.
-/
namespace UmariLogOutput
open LineBuffers LossyUtf8

inductive LogStream where
  | stdout
  | stderr
  | system
deriving DecidableEq, Repr

structure LogEntry where
  stream : LogStream
  message : List Char
deriving DecidableEq, Repr

section code

structure OutputInner where
  maxEntries : Nat
  stdoutBuf : List Char
  stderrBuf : List Char
  entries : List LogEntry
deriving DecidableEq, Repr

def OutputInner.pushEntry (inner : OutputInner) (entry : LogEntry) : OutputInner :=
  let kept := if inner.maxEntries ≤ inner.entries.length then inner.entries.tail
    else inner.entries
  { inner with entries := kept ++ [entry] }

/-- The buffer of a stream; only the two pipes have one of their own. -/
def OutputInner.buf (inner : OutputInner) : LogStream → List Char
  | .stdout => inner.stdoutBuf
  | .stderr | .system => inner.stderrBuf

def OutputInner.setBuf (inner : OutputInner) (stream : LogStream) (text : List Char) :
    OutputInner :=
  match stream with
  | .stdout => { inner with stdoutBuf := text }
  | .stderr | .system => { inner with stderrBuf := text }

def trimEndMatches (c : Char) (text : List Char) : List Char := text.rdropWhile (· == c)

theorem buf_setBuf (inner : OutputInner) (stream : LogStream) (text : List Char) :
    (inner.setBuf stream text).buf stream = text := by
  cases stream <;> rfl

theorem buf_pushEntry (inner : OutputInner) (entry : LogEntry) (stream : LogStream) :
    (inner.pushEntry entry).buf stream = inner.buf stream := by
  cases stream <;> rfl

def OutputInner.drainLines (stream : LogStream) (inner : OutputInner) : OutputInner :=
  match found : (inner.buf stream).findIdx? (· == '\n') with
  | none => inner
  | some pos =>
    let line := trimEndMatches '\r' ((inner.buf stream).take pos)
    let drained := inner.setBuf stream ((inner.buf stream).drop (pos + 1))
    OutputInner.drainLines stream (drained.pushEntry ⟨stream, line⟩)
termination_by (inner.buf stream).length
decreasing_by
  have inside := (List.findIdx?_eq_some_iff_getElem.mp found).1
  simp only [buf_pushEntry, buf_setBuf, List.length_drop]
  omega

def OutputInner.pushText (stream : LogStream) (inner : OutputInner) (text : List Char) :
    OutputInner :=
  OutputInner.drainLines stream (inner.setBuf stream (inner.buf stream ++ text))

def OutputInner.pushStdout (inner : OutputInner) (text : List Char) : OutputInner :=
  inner.pushText .stdout text

def OutputInner.pushStderr (inner : OutputInner) (text : List Char) : OutputInner :=
  inner.pushText .stderr text

def OutputInner.new (maxEntries : Nat) : OutputInner := ⟨maxEntries, [], [], []⟩

def moduleEntries (inner : OutputInner) : List LogEntry :=
  let entries := inner.entries
  let entries := if inner.stdoutBuf ≠ [] then entries ++ [⟨.stdout, inner.stdoutBuf⟩] else entries
  if inner.stderrBuf ≠ [] then entries ++ [⟨.stderr, inner.stderrBuf⟩] else entries

/-- No pipe is made for the stream of the system. -/
structure ModuleOutputPipe where
  stream : LogStream
  piped : stream ≠ .system

def stdoutPipe : ModuleOutputPipe := ⟨.stdout, by decide⟩

def stderrPipe : ModuleOutputPipe := ⟨.stderr, by decide⟩

def ModuleOutputPipe.doWrite (pipe : ModuleOutputPipe) (inner : OutputInner)
    (bytes : List UInt8) : OutputInner :=
  let text := fromUtf8Lossy bytes
  match pipe.stream with
  | .stdout => inner.pushStdout text
  | .stderr | .system => inner.pushStderr text

/-- What happens to a module's output: the module writes, or the host adds an entry. -/
inductive Act where
  | write (pipe : ModuleOutputPipe) (bytes : List UInt8)
  | pushStderr (message : List Char)
  | pushSystem (message : List Char)

def OutputInner.act (inner : OutputInner) : Act → OutputInner
  | .write pipe bytes => pipe.doWrite inner bytes
  | .pushStderr message => inner.pushEntry ⟨.stderr, message⟩
  | .pushSystem message => inner.pushEntry ⟨.system, message⟩

def runOutput (maxEntries : Nat) (acts : List Act) : OutputInner :=
  acts.foldl OutputInner.act (.new maxEntries)

end code

section purpose

def newline : UInt8 := 10

def carriageReturn : UInt8 := 13

/-- What an act says however it was cut: its bytes one by one, each with its stream. -/
def Act.written : Act → List (Chunk LogStream LogEntry UInt8)
  | .write pipe bytes => bytes.map (single newline pipe.stream)
  | .pushStderr message => [.entry ⟨.stderr, message⟩]
  | .pushSystem message => [.entry ⟨.system, message⟩]

def written (acts : List Act) : List (Chunk LogStream LogEntry UInt8) := acts.flatMap Act.written

/-- The entry of a line: its bytes without the carriage returns at the end, decoded. -/
def lineEntry : LogEntry ⊕ LogStream × List UInt8 → LogEntry
  | .inl entry => entry
  | .inr (stream, line) => ⟨stream, fromUtf8Lossy (line.rdropWhile (· == carriageReturn))⟩

def partialEntry (stream : LogStream) (line : List UInt8) : List LogEntry :=
  if line = [] then [] else [⟨stream, fromUtf8Lossy line⟩]

/-- The entries that the written bytes call for: the newest of the finished lines, and the
lines the two pipes have begun. -/
def expected (maxEntries : Nat) (parts : List (Chunk LogStream LogEntry UInt8)) :
    List LogEntry :=
  let lines := Buffers.empty.run parts
  (lines.finished.rtake maxEntries).map lineEntry ++
    partialEntry .stdout (lines.pending .stdout) ++ partialEntry .stderr (lines.pending .stderr)

def Act.pieces : Act → List (Chunk LogStream LogEntry (List UInt8))
  | .write pipe bytes => cut newline pipe.stream bytes
  | .pushStderr message => [.entry ⟨.stderr, message⟩]
  | .pushSystem message => [.entry ⟨.system, message⟩]

def cutLines (acts : List Act) : Buffers LogStream LogEntry (List UInt8) :=
  Buffers.empty.run (acts.flatMap Act.pieces)

/-- Of the lines that `entries` shows, no two writes cut one inside a UTF-8 sequence; and a
ring buffer that may hold nothing has been given nothing, for it would keep one entry. -/
def CutsOutside (maxEntries : Nat) (acts : List Act) : Prop :=
  (maxEntries = 0 → (cutLines acts).finished = []) ∧
  (∀ stream line, .inr (stream, line) ∈ (cutLines acts).finished.rtake maxEntries →
    Whole line) ∧
  ∀ pipe : ModuleOutputPipe, Whole ((cutLines acts).pending pipe.stream)

def Act.concerns (stream : LogStream) : Act → Bool
  | .write pipe _ => pipe.stream = stream
  | .pushStderr _ => LogStream.stderr = stream
  | .pushSystem _ => LogStream.system = stream

end purpose

end UmariLogOutput
