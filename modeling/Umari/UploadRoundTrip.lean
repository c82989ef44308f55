import Umari.UploadBodies

/-!
When the server reads from the CLI's body what went into it: exactly where no value and not
the bytes hold a delimiter and no value begins with a byte order mark. A part that is read
holds no delimiter, so that whatever the rest of a value is read as, it cannot make up for
the part that was cut. A value that is read is one that stood in a part of valid UTF-8: only
the bytes of the module are not, and the part that ends with them ends the body.
-/
namespace UmariUploadRoundTrip
open KeyedMaps Multipart UmariUploads UmariUploadBodies
open UmariFolds (stripPrefix stripPrefix_eq)
open UmariJsonCodec (fromUTF8_toUTF8)

variable {texts : Texts} {text : List UInt8 → Option String} {env : KeyedMap String String}
  {wasmBytes content : List UInt8} {key value : String} {fields : List (Option Field)}

section carried

theorem carriedEnv_part (found : carriedEnv texts fields key = some value) :
    ∃ field ∈ fields, envVar texts field = some (key, value) := by
  induction fields with
  | nil => exact absurd found (by simp [carriedEnv])
  | cons field rest ih =>
    rw [carriedEnv, Option.or_eq_some_iff] at found
    rcases found with later | ⟨-, here⟩
    · obtain ⟨other, member, names⟩ := ih later
      exact ⟨other, List.mem_cons_of_mem _ member, names⟩
    · obtain ⟨⟨name, text⟩, names, same⟩ := Option.bind_eq_some_iff.mp here
      split_ifs at same with named
      obtain rfl := Option.some.inj same
      exact ⟨field, List.mem_cons_self, by rw [names, ← named]⟩

theorem carriedEnv_none (none : carriedEnv texts fields key = none) :
    ∀ field ∈ fields, envVar texts field ≠ some (key, value) := by
  induction fields with
  | nil => exact fun field member => absurd member List.not_mem_nil
  | cons field rest ih =>
    rw [carriedEnv, Option.or_eq_none_iff] at none
    intro other member names
    rcases List.mem_cons.mp member with rfl | later
    · simp [names] at none
    · exact ih none.1 other later names

theorem carriedWasm_part (found : carriedWasm fields = some wasmBytes) :
    ∃ field, some field ∈ fields ∧ field.name = some "wasm" ∧ field.bytes = some wasmBytes := by
  induction fields with
  | nil => exact absurd found (by simp [carriedWasm])
  | cons field rest ih =>
    rw [carriedWasm, Option.or_eq_some_iff] at found
    rcases found with later | ⟨-, here⟩
    · obtain ⟨other, member, named, bytes⟩ := ih later
      exact ⟨other, List.mem_cons_of_mem _ member, named, bytes⟩
    · obtain ⟨field, rfl, bytes⟩ := Option.bind_eq_some_iff.mp here
      split_ifs at bytes with named
      exact ⟨field, List.mem_cons_self, named, bytes⟩

theorem carriedWasm_last {field : Field} (named : field.name = some "wasm")
    (bytes : field.bytes = some wasmBytes) :
    carriedWasm (fields ++ [some field]) = some wasmBytes := by
  induction fields with
  | nil => simp [carriedWasm, named, bytes]
  | cons first rest ih => rw [List.cons_append, carriedWasm, ih, Option.some_or]

theorem readForm_ok (readable : ∀ field ∈ fields, ∀ form, ∃ form',
    readField texts form field = .ok form') : ∃ form, readForm texts fields = .ok form := by
  have from_any : ∀ form, ∃ form', fields.foldlM (readField texts) form = .ok form' := by
    induction fields with
    | nil => exact fun form => ⟨form, rfl⟩
    | cons field rest ih =>
      intro form
      obtain ⟨next, here⟩ := readable field List.mem_cons_self form
      obtain ⟨last, later⟩ :=
        ih (fun field member => readable field (List.mem_cons_of_mem _ member)) next
      refine ⟨last, ?_⟩
      rw [List.foldlM_cons, here]
      exact later
  exact from_any ⟨∅, none⟩

theorem readForm_carried {form : Form} (read : readForm texts fields = .ok form) :
    (∀ key, form.envVars.lookup key = carriedEnv texts fields key) ∧
      form.wasmBytes = carriedWasm fields := by
  obtain ⟨env, wasm⟩ := readFields_carried read
  exact ⟨fun key => (env key).trans Option.or_none, wasm.trans Option.or_none⟩

end carried

section pieces

def UpperNames (env : KeyedMap String String) : Prop :=
  ∀ key value, env.lookup key = some value → IsUpperName key

/-- The text of a content that is UTF-8: a byte order mark at its beginning is removed. -/
def ReadsText (text : List UInt8 → Option String) : Prop :=
  ∀ value, text (utf8 value) = some (withoutMark value)

theorem once_boundary : 13 ∉ utf8 boundary := by decide

def envPart (entry : String × String) : BodyPart :=
  ⟨[envHeader entry.1], utf8 entry.2⟩

def uploadRest (env : KeyedMap String String) (wasmBytes : List UInt8) : List UInt8 :=
  assembleRest (utf8 boundary) ((inOrder env).map envPiece ++ [pieceOf wasmHeaders wasmBytes])
    closing

theorem parts_upload : parts (utf8 boundary) (uploadWasm env wasmBytes) =
    readParts (utf8 boundary) ((uploadRest env wasmBytes).length + 1)
      (uploadRest env wasmBytes) := by
  rw [uploadWasm_eq, parts_assemble]
  rfl

def envFieldRead (text : List UInt8 → Option String) (entry : String × String) : Field :=
  ⟨some ("env[" ++ entry.1 ++ "]"), some (utf8 entry.2), text (utf8 entry.2)⟩

theorem uploadFields_eq (names : UpperNames env)
    (values : ∀ key value, env.lookup key = some value → NoDelimiter (utf8 value))
    (bytes : NoDelimiter wasmBytes) :
    uploadFields text (uploadWasm env wasmBytes) =
      (inOrder env).map (fun entry => some (envFieldRead text entry)) ++
        [some ⟨some "wasm", some wasmBytes, text wasmBytes⟩] := by
  let ps := (inOrder env).map envPart ++ [⟨wasmHeaders, wasmBytes⟩]
  have pieces : (inOrder env).map envPiece ++ [pieceOf wasmHeaders wasmBytes] =
      ps.map fun part => pieceOf part.headers part.content := by
    simp [ps, envPart, Function.comp_def, envPiece]
  have headed : ∀ part ∈ ps,
      part.headers ≠ [] ∧ ∀ line ∈ part.headers, isHeader line = true := by
    intro part member
    rcases List.mem_append.mp member with stored | wasm
    · obtain ⟨entry, inside, rfl⟩ := List.mem_map.mp stored
      refine ⟨List.cons_ne_nil _ _, fun line member => ?_⟩
      obtain rfl := List.mem_singleton.mp member
      exact envHeader_isHeader (names entry.1 entry.2 (mem_inOrder.mp inside))
    · obtain rfl := List.mem_singleton.mp wasm
      exact ⟨by simp [wasmHeaders], wasmHeaders_isHeader⟩
  have free : ∀ part ∈ ps, NoDelimiter part.content := by
    intro part member
    rcases List.mem_append.mp member with stored | wasm
    · obtain ⟨entry, inside, rfl⟩ := List.mem_map.mp stored
      exact values _ _ (mem_inOrder.mp inside)
    · obtain rfl := List.mem_singleton.mp wasm
      exact bytes
  have enough : ps.length < (uploadRest env wasmBytes).length + 1 := by
    rw [uploadRest, pieces]
    exact Nat.lt_succ_of_le ((List.length_map _).symm.le.trans (length_assembleRest _ _ _))
  have closes : dashes <+: closing := List.prefix_append _ _
  have read := readParts_pieces once_boundary closes headed free enough
  rw [← pieces, ← uploadRest] at read
  rw [uploadFields, parts_upload, read, List.map_map, List.map_append, List.map_map]
  have variables_read : (inOrder env).map (Option.map (fieldOf text) ∘ some ∘ envPart) =
      (inOrder env).map fun entry => some (envFieldRead text entry) := by
    refine List.map_congr_left fun entry member => ?_
    have upper := names entry.1 entry.2 (mem_inOrder.mp member)
    exact congrArg some (fieldOf_env text upper)
  have bytes_read := congrArg (fun field => [some field])
    (@fieldOf_wasm wasmBytes text)
  exact congrArg₂ (· ++ ·) variables_read bytes_read

theorem readForm_upload (names : UpperNames env) (reads : ReadsText text)
    (upper : ∀ key, IsUpperName key → texts.toUppercase key = key)
    (values : ∀ key value, env.lookup key = some value → NoDelimiter (utf8 value))
    (bytes : NoDelimiter wasmBytes) :
    ∃ form, readForm texts (uploadFields text (uploadWasm env wasmBytes)) = .ok form ∧
      (∀ key, form.envVars.lookup key = (env.lookup key).map withoutMark) ∧
      form.wasmBytes = some wasmBytes := by
  rw [uploadFields_eq names values bytes]
  have named : ∀ entry ∈ inOrder env, texts.toUppercase entry.1 = entry.1 := fun entry member =>
    upper _ (names entry.1 entry.2 (mem_inOrder.mp member))
  have carries : ∀ entry ∈ inOrder env, envVar texts (some (envFieldRead text entry)) =
      some (entry.1, withoutMark entry.2) := by
    intro entry member
    rw [envFieldRead, envVar_env texts (named entry member), reads]
    rfl
  have readable : ∀ field ∈ (inOrder env).map (fun entry => some (envFieldRead text entry)) ++
      [some ⟨some "wasm", some wasmBytes, text wasmBytes⟩], ∀ form, ∃ form',
        readField texts form field = .ok form' := by
    intro field member form
    rcases List.mem_append.mp member with named | wasm
    · obtain ⟨entry, -, rfl⟩ := List.mem_map.mp named
      rw [envFieldRead, reads]
      exact ⟨_, readField_env texts form⟩
    · obtain rfl := List.mem_singleton.mp wasm
      exact ⟨_, readField_wasm texts form⟩
  obtain ⟨form, read⟩ := readForm_ok readable
  obtain ⟨envVars, wasm⟩ := readForm_carried read
  refine ⟨form, read, ?_, wasm.trans (carriedWasm_last rfl rfl)⟩
  intro key
  rw [envVars]
  generalize listed : (inOrder env).map (fun entry => some (envFieldRead text entry)) ++
    [some ⟨some "wasm", some wasmBytes, text wasmBytes⟩] = fields
  have source : ∀ value, carriedEnv texts fields key = some value →
      ∃ stored, env.lookup key = some stored ∧ withoutMark stored = value := by
    intro value found
    obtain ⟨field, member, names⟩ := carriedEnv_part found
    rcases List.mem_append.mp (listed ▸ member) with named | wasm
    · obtain ⟨entry, inside, rfl⟩ := List.mem_map.mp named
      rw [carries entry inside] at names
      obtain ⟨rfl, rfl⟩ := Prod.mk.inj (Option.some.inj names)
      exact ⟨entry.2, mem_inOrder.mp inside, rfl⟩
    · obtain rfl := List.mem_singleton.mp wasm
      rw [envVar_wasm] at names
      exact absurd names (by simp)
  cases found : carriedEnv texts fields key with
  | some value =>
    obtain ⟨stored, held, same⟩ := source value found
    rw [held, Option.map_some, same]
  | none =>
    cases held : env.lookup key with
    | none => rfl
    | some stored =>
      have inside : (key, stored) ∈ inOrder env := mem_inOrder.mpr held
      have member : some (envFieldRead text (key, stored)) ∈ fields :=
        listed ▸ List.mem_append_left _ (List.mem_map_of_mem inside)
      exact absurd (carries _ inside) (carriedEnv_none found _ member)

end pieces

section recovered

theorem isUtf8_behind {front more : List UInt8} (valid : IsUtf8 (front ++ (crlf ++ crlf) ++ more)) :
    IsUtf8 more := by
  have split : front ++ (crlf ++ crlf) ++ more = (front ++ [13, 10, 13]) ++ 10 :: more := by
    simp [crlf]
  rw [split] at valid
  exact (isUtf8_cut valid (by decide)).2

theorem isUtf8_part {front behind : List UInt8}
    (valid : IsUtf8 (front ++ (crlf ++ crlf) ++
      (content ++ (delimiter (utf8 boundary) ++ behind)))) :
    IsUtf8 content ∧ IsUtf8 behind := by
  obtain ⟨inside, rest⟩ : IsUtf8 content ∧ IsUtf8 (10 :: (dashes ++ utf8 boundary) ++ behind) :=
    isUtf8_cut (isUtf8_behind valid) (by decide)
  exact ⟨inside, isUtf8_drop (List.forall_iff_forall_mem.mp (by decide)) rest⟩

theorem readParts_utf8 {rest : List UInt8} {fuel : Nat} {part : BodyPart} (valid : IsUtf8 rest)
    (member : some part ∈ readParts (utf8 boundary) fuel rest) : IsUtf8 part.content := by
  refine readParts_induction IsUtf8 (P := fun part => IsUtf8 part.content) ?_ valid part member
  intro rest part behind valid read
  obtain ⟨front, rfl, -⟩ := readPart_sound read
  exact isUtf8_part valid

theorem isUtf8_again {bytes again x y : List UInt8} (valid : IsUtf8 again) (some_byte : again ≠ [])
    (same : bytes ++ 13 :: x = again ++ (bytes ++ 13 :: y)) : IsUtf8 bytes := by
  induction length : bytes.length using Nat.strong_induction_on generalizing bytes with
  | _ n ih =>
    rcases List.append_eq_append_iff.mp same with ⟨more, rfl, behind⟩ | ⟨more, rfl, behind⟩
    · cases more with
      | nil => simpa using valid
      | cons first more =>
        obtain ⟨rfl, -⟩ := List.cons.inj behind
        exact (isUtf8_cut valid (by decide)).1
    · have shorter : more.length < n := by
        have some_length := List.length_pos_iff.mpr some_byte
        rw [← length, List.length_append]
        omega
      refine isUtf8_append valid (ih more.length shorter ?_ rfl)
      rw [← behind, List.append_assoc]

theorem parted_before {a b u v : List UInt8} (before : a.length ≤ u.length)
    (same : a ++ b = u ++ v) : ∃ more, u = a ++ more ∧ b = more ++ v := by
  rcases List.append_eq_append_iff.mp same with ⟨more, whole, rest⟩ | ⟨more, whole, rest⟩
  · exact ⟨more, whole, rest⟩
  · have none : more = [] := by
      rw [whole, List.length_append] at before
      exact List.length_eq_zero_iff.mp (by omega)
    subst none
    exact ⟨[], by simpa using whole.symm, by simpa using rest.symm⟩

theorem readParts_beside {u rest : List UInt8} {fuel : Nat} {part wasm : BodyPart}
    (valid : IsUtf8 u) (other : ¬ IsUtf8 wasmBytes)
    (whole : rest = u ++ (wasmBytes ++ (delimiter (utf8 boundary) ++ closing)))
    (member : some part ∈ readParts (utf8 boundary) fuel rest)
    (last : some wasm ∈ readParts (utf8 boundary) fuel rest) (bytes : wasm.content = wasmBytes) :
    part = wasm ∨ IsUtf8 part.content := by
  induction fuel generalizing u rest with
  | zero => exact absurd member (by simp [readParts])
  | succ fuel ih =>
    rw [readParts] at member last
    split_ifs at member last
    · exact absurd member List.not_mem_nil
    cases read : readPart (utf8 boundary) rest with
    | none => simp [read] at member
    | some found =>
      obtain ⟨first, behind⟩ := found
      rw [read] at member last
      obtain ⟨front, parted, -⟩ := readPart_sound read
      have same := parted.symm.trans whole
      have lengths := congrArg List.length same
      have four : closing.length = 4 := rfl
      simp only [List.length_append] at lengths
      by_cases inside : (front ++ (crlf ++ crlf) ++ (first.content ++
          delimiter (utf8 boundary))).length ≤ u.length
      · obtain ⟨more, rfl, behind_more⟩ := parted_before inside (by simpa using same)
        obtain ⟨here, later⟩ := isUtf8_part (by simpa using valid)
        rcases List.mem_cons.mp member with this | member
        · exact .inr (Option.some.inj this ▸ here)
        rcases List.mem_cons.mp last with this | last
        · obtain rfl := Option.some.inj this
          exact absurd (bytes ▸ here) other
        · exact ih later behind_more member last
      · -- what stands behind this part is shorter than the bytes
        simp only [List.length_append] at inside
        have here : wasm = first := by
          rcases List.mem_cons.mp last with here | later
          · exact Option.some.inj here
          · have long := readParts_length later
            rw [bytes] at long
            omega
        rcases List.mem_cons.mp member with this | later
        · exact .inl ((Option.some.inj this).trans here.symm)
        · have long := readParts_length later
          have before : (front ++ (crlf ++ crlf)).length < u.length := by
            rw [here] at bytes
            rw [bytes] at lengths
            simp only [List.length_append]
            omega
          obtain ⟨again, rfl, repeats⟩ := parted_before before.le same
          rw [here] at bytes
          rw [bytes] at repeats
          refine absurd (isUtf8_again (isUtf8_behind valid) ?_ repeats) other
          rintro rfl
          simp at before

theorem uploadRest_eq (env : KeyedMap String String) (wasmBytes : List UInt8) :
    ∃ u, IsUtf8 u ∧ uploadRest env wasmBytes =
      u ++ (wasmBytes ++ (delimiter (utf8 boundary) ++ closing)) := by
  have line : IsUtf8 crlf := ⟨"\r\n", utf8_crlf⟩
  have ending : IsUtf8 (delimiter (utf8 boundary)) := ⟨"\r\n--" ++ boundary, by decide⟩
  have piece : ∀ entry, IsUtf8 (envPiece entry) := fun entry => by
    have header : IsUtf8 (envHeader entry.1) :=
      isUtf8_append (isUtf8_append ⟨_, rfl⟩ ⟨_, rfl⟩) ⟨_, rfl⟩
    have whole := isUtf8_append line (isUtf8_append (isUtf8_append header line)
      (isUtf8_append line ⟨entry.2, rfl⟩))
    simpa [envPiece, pieceOf] using whole
  rw [uploadRest]
  induction inOrder env with
  | nil =>
    have headers : IsUtf8 (pieceOf wasmHeaders []) := by
      refine isUtf8_append line (isUtf8_append ?_ (isUtf8_append line ⟨"", rfl⟩))
      refine ⟨"Content-Disposition: form-data; name=\"wasm\"; filename=\"module.wasm\"\r\n" ++
        "Content-Type: application/wasm\r\n", by decide⟩
    exact ⟨_, headers, by simp [assembleRest, pieceOf]⟩
  | cons entry rest ih =>
    obtain ⟨u, valid, whole⟩ := ih
    refine ⟨envPiece entry ++ (delimiter (utf8 boundary) ++ u),
      isUtf8_append (piece entry) (isUtf8_append ending valid), ?_⟩
    rw [List.map_cons, List.cons_append, assembleRest, List.foldr_cons, ← assembleRest, whole]
    simp

theorem recovered_bytes (recovered : Recovers texts text env wasmBytes) :
    ∃ part, some part ∈ parts (utf8 boundary) (uploadWasm env wasmBytes) ∧
      (fieldOf text part).name = some "wasm" ∧ part.content = wasmBytes := by
  obtain ⟨form, read, -, bytes⟩ := recovered
  obtain ⟨field, member, named, content⟩ :=
    carriedWasm_part ((readForm_carried read).2 ▸ bytes)
  obtain ⟨found, part, asked⟩ := List.mem_map.mp member
  cases found with
  | none => exact absurd asked (by simp)
  | some found =>
    obtain rfl := Option.some.inj asked
    exact ⟨found, part, named, Option.some.inj content⟩

theorem recovered_value (recovered : Recovers texts text env wasmBytes)
    (held : env.lookup key = some value) :
    ∃ part, some part ∈ parts (utf8 boundary) (uploadWasm env wasmBytes) ∧
      envVar texts (some (fieldOf text part)) = some (key, value) := by
  obtain ⟨form, read, envVars, -⟩ := recovered
  have carried : carriedEnv texts (uploadFields text (uploadWasm env wasmBytes)) key =
      some value := by
    rw [← (readForm_carried read).1, envVars, held]
  obtain ⟨field, member, names⟩ := carriedEnv_part carried
  obtain ⟨found, part, rfl⟩ := List.mem_map.mp member
  cases found with
  | none => exact absurd names (by simp [envVar])
  | some found => exact ⟨found, part, names⟩

theorem recovered_utf8 (recovered : Recovers texts text env wasmBytes) {part : BodyPart}
    (member : some part ∈ parts (utf8 boundary) (uploadWasm env wasmBytes))
    (names : envVar texts (some (fieldOf text part)) = some (key, value)) :
    IsUtf8 part.content := by
  obtain ⟨wasm, last, named, bytes⟩ := recovered_bytes recovered
  obtain ⟨u, valid, whole⟩ := uploadRest_eq env wasmBytes
  rw [parts_upload] at member last
  by_cases text_bytes : IsUtf8 wasmBytes
  · refine readParts_utf8 ?_ member
    rw [whole]
    exact isUtf8_append valid (isUtf8_append text_bytes
      ⟨"\r\n--" ++ boundary ++ "--\r\n", by decide⟩)
  · rcases readParts_beside valid text_bytes whole member last bytes with rfl | inside
    · have none := @envVar_wasm texts (fieldOf text part).bytes (fieldOf text part).text
      rw [← named] at none
      exact absurd (none.symm.trans names) (by simp)
    · exact inside

theorem withoutMark_suffix (value : String) : utf8 (withoutMark value) <:+ utf8 value := by
  rw [withoutMark]
  cases marked : stripPrefix byteOrderMark value with
  | none => exact List.suffix_rfl
  | some rest =>
    rw [stripPrefix_eq.mp marked, utf8_append]
    exact List.suffix_append _ _

theorem envVar_text {field : Field} (names : envVar texts (some field) = some (key, value)) :
    field.text = some value := by
  simp only [envVar, Option.bind_eq_bind, Option.bind_eq_some_iff] at names
  obtain ⟨name, -, tail, -, envName, -, found, text, same⟩ := names
  obtain ⟨-, rfl⟩ := Prod.mk.inj (Option.some.inj same)
  exact text

theorem recovered_clean (recovered : Recovers texts text env wasmBytes) (reads : ReadsText text)
    (held : env.lookup key = some value) : NoDelimiter (utf8 value) := by
  obtain ⟨part, member, names⟩ := recovered_value recovered held
  obtain ⟨stored, content⟩ := recovered_utf8 recovered member names
  have same : text part.content = some value := envVar_text names
  rw [← content, reads] at same
  obtain rfl := Option.some.inj same
  rw [parts_upload] at member
  have free := content_free member
  exact fun found => free (content ▸ found.trans (withoutMark_suffix stored).isInfix)

end recovered

/-- The server reads from the CLI's body what went into it exactly when no value and not
the bytes hold a delimiter and no value begins with a byte order mark. -/
theorem upload_recovers_iff (texts : Texts) (text : List UInt8 → Option String)
    (env : KeyedMap String String) (wasmBytes : List UInt8) (names : UpperNames env)
    (upper : ∀ key, IsUpperName key → texts.toUppercase key = key) (reads : ReadsText text) :
    Recovers texts text env wasmBytes ↔ Clean env wasmBytes := by
  constructor
  · intro recovered
    have values : ∀ key value, env.lookup key = some value → NoDelimiter (utf8 value) :=
      fun _ _ held => recovered_clean recovered reads held
    have bytes : NoDelimiter wasmBytes := by
      obtain ⟨part, member, -, rfl⟩ := recovered_bytes recovered
      rw [parts_upload] at member
      exact content_free member
    refine ⟨fun key value held => ⟨values key value held, ?_⟩, bytes⟩
    obtain ⟨form, read, envVars, -⟩ := recovered
    obtain ⟨form', read', unmarked, -⟩ := readForm_upload names reads upper values bytes
    obtain rfl := Except.ok.inj (read.symm.trans read')
    have kept := (envVars key).symm.trans (unmarked key)
    rw [held, Option.map_some] at kept
    exact (Option.some.inj kept).symm
  · rintro ⟨values, bytes⟩
    obtain ⟨form, read, envVars, wasm⟩ := readForm_upload names reads upper
      (fun key value held => (values key value held).1) bytes
    refine ⟨form, read, fun key => (envVars key).trans ?_, wasm⟩
    cases held : env.lookup key with
    | none => rfl
    | some value => rw [Option.map_some, (values key value held).2]

section sample

def validText (content : List UInt8) : Option String :=
  (String.fromUTF8? ⟨content.toArray⟩).map withoutMark

theorem validText_reads : ReadsText validText := fun value =>
  congrArg (Option.map withoutMark) (fromUTF8_toUTF8 value)

theorem toUpper_upperName (key : String) (upper : IsUpperName key) : key.toUpper = key := by
  have each : ∀ c ∈ key.toList, c.toUpper = c := by
    intro c member
    refine dif_neg fun lower => ?_
    have low : 97 ≤ c.toNat := lower.1
    rcases upper c member with ⟨-, high⟩ | ⟨-, high⟩ | rfl
    · have high : c.toNat ≤ 90 := high
      omega
    · have high : c.toNat ≤ 57 := high
      omega
    · exact absurd low (by decide)
  apply String.toList_inj.mp
  rw [String.toUpper, String.toList_map, List.map_congr_left each, List.map_id']

def magic : List UInt8 := [0x00, 0x61, 0x73, 0x6D, 0x01, 0x00, 0x00, 0x00]

def greeting : KeyedMap String String :=
  (∅ : KeyedMap String String).insert "A_1" "------UmariCLIBoundary\r\n--"

theorem greeting_entry {value : String} (held : greeting.lookup key = some value) :
    key = "A_1" ∧ value = "------UmariCLIBoundary\r\n--" := by
  rcases lookup_insert_some.mp held with ⟨rfl, rfl⟩ | ⟨-, none⟩
  · exact ⟨rfl, rfl⟩
  · exact absurd none (by simp)

/-- A value whose first line is what begins a delimiter's second line. -/
theorem greeting_recovers : Recovers sampleTexts validText greeting magic := by
  have names : UpperNames greeting := by
    intro key value held
    obtain ⟨rfl, -⟩ := greeting_entry held
    decide
  have clean : Clean greeting magic := by
    refine ⟨fun key value held => ?_, by decide⟩
    obtain ⟨-, rfl⟩ := greeting_entry held
    decide
  exact (upload_recovers_iff sampleTexts validText greeting magic names toUpper_upperName
    validText_reads).mpr clean

/-- Bytes that hold the closing delimiter reach the server without what follows it. -/
theorem delimiter_in_bytes_fails :
    (readForm sampleTexts (uploadFields validText (uploadWasm ∅
      (magic ++ utf8 "\r\n------UmariCLIBoundary--")))).map Form.wasmBytes = .ok (some magic) ∧
    ¬ Recovers sampleTexts validText ∅ (magic ++ utf8 "\r\n------UmariCLIBoundary--") := by
  have read : (readForm sampleTexts (uploadFields validText (uploadWasm ∅
      (magic ++ utf8 "\r\n------UmariCLIBoundary--")))).map Form.wasmBytes =
        .ok (some magic) := by
    decide +kernel
  refine ⟨read, ?_⟩
  rintro ⟨form, found, -, bytes⟩
  rw [found] at read
  have short : form.wasmBytes = some magic := Except.ok.inj read
  exact absurd (bytes.symm.trans short) (by decide)

end sample

end UmariUploadRoundTrip
