import Umari.JsonCodec
import Umari.Multipart
import Umari.Uploads

/-!
The multipart body that the CLI builds for an upload, and the form that the server reads
from it. The boundary is fixed and values and bytes are put in as they are, so that a
value may hold a delimiter.
-/
namespace UmariUploadBodies
open KeyedMaps Multipart UmariUploads
open UmariJsonCodec (fromUTF8_toUTF8)
open UmariFolds (stripPrefix stripPrefix_eq)

def utf8 (text : String) : List UInt8 := text.toUTF8.data.toList

section cli

def boundary : String := "----UmariCLIBoundary"

def envField (key value : String) : List UInt8 :=
  utf8 ("--" ++ boundary ++ "\r\n") ++
    utf8 ("Content-Disposition: form-data; name=\"env[" ++ key ++ "]\"\r\n\r\n") ++
    utf8 value ++ utf8 "\r\n"

def wasmField (wasmBytes : List UInt8) : List UInt8 :=
  utf8 ("--" ++ boundary ++ "\r\n") ++
    utf8 "Content-Disposition: form-data; name=\"wasm\"; filename=\"module.wasm\"\r\n" ++
    utf8 "Content-Type: application/wasm\r\n\r\n" ++ wasmBytes ++ utf8 "\r\n"

/-- The entries of a `BTreeMap` in its order. -/
def inOrder (env : KeyedMap String String) : List (String × String) :=
  (pairs env).mergeSort fun a b => a.1 ≤ b.1

def uploadWasm (env : KeyedMap String String) (wasmBytes : List UInt8) : List UInt8 :=
  (inOrder env).flatMap (fun entry => envField entry.1 entry.2) ++ wasmField wasmBytes ++
    utf8 ("--" ++ boundary ++ "--\r\n")

end cli

section server
variable (texts : Texts) (text : List UInt8 → Option String)

/-- A part as the server's loop asks for it; `text` is what the parser makes of the content
of a part that names no charset. -/
def fieldOf (part : BodyPart) : Field where
  name := (part.name (utf8 "content-disposition") (utf8 "name")).bind fun name =>
    String.fromUTF8? ⟨name.toArray⟩
  bytes := some part.content
  text := text part.content

def uploadFields (body : List UInt8) : List (Option Field) :=
  (parts (utf8 boundary) body).map (Option.map (fieldOf text))

def readForm (fields : List (Option Field)) : Except ApiError Form :=
  fields.foldlM (readField texts) ⟨∅, none⟩

theorem parseRequest_form (request : Request) (parsed : Parsed) :
    parseRequest texts request = .ok parsed ↔
      texts.parseVersion request.version = some parsed.version ∧
      readForm texts request.fields = .ok ⟨parsed.envVars, some parsed.wasmBytes⟩ := by
  unfold parseRequest readForm
  cases version : texts.parseVersion request.version with
  | none => simp
  | some version =>
    cases read : request.fields.foldlM (readField texts) ⟨∅, none⟩ with
    | error err => simp [bind, Except.bind]
    | ok form =>
      obtain ⟨envVars, wasmBytes⟩ := form
      obtain ⟨version', envVars', wasmBytes'⟩ := parsed
      cases wasmBytes <;> simp [bind, Except.bind]

def IsUpperName (name : String) : Prop :=
  ∀ c ∈ name.toList, ('A' ≤ c ∧ c ≤ 'Z') ∨ ('0' ≤ c ∧ c ≤ '9') ∨ c = '_'

instance (name : String) : Decidable (IsUpperName name) :=
  List.decidableBAll _ _

def byteOrderMark : String := "\uFEFF"

def withoutMark (value : String) : String := (stripPrefix byteOrderMark value).getD value

/-- The server reads from the CLI's body the variables and the bytes that went into it. -/
def Recovers (env : KeyedMap String String) (wasmBytes : List UInt8) : Prop :=
  ∃ form, readForm texts (uploadFields text (uploadWasm env wasmBytes)) = .ok form ∧
    (∀ key, form.envVars.lookup key = env.lookup key) ∧ form.wasmBytes = some wasmBytes

/-- No line of a content after the first begins with two dashes and the boundary. -/
def NoDelimiter (content : List UInt8) : Prop :=
  ¬ delimiter (utf8 boundary) <:+: content

instance (content : List UInt8) : Decidable (NoDelimiter content) :=
  inferInstanceAs (Decidable (¬ _ <:+: _))

/-- No value and not the bytes hold a delimiter, and no value begins with a mark that the
parser removes. -/
def Clean (env : KeyedMap String String) (wasmBytes : List UInt8) : Prop :=
  (∀ key value, env.lookup key = some value →
    NoDelimiter (utf8 value) ∧ withoutMark value = value) ∧
  NoDelimiter wasmBytes

end server

section utf8
variable {b : UInt8} {c : Char} {p q bytes : List UInt8}

def IsUtf8 (bytes : List UInt8) : Prop := ∃ text, utf8 text = bytes

theorem utf8_eq (text : String) : utf8 text = text.toList.flatMap String.utf8EncodeChar := by
  rw [utf8, String.toUTF8_eq_toByteArray, ← String.utf8Encode_toList, List.utf8Encode]
  simp

@[simp]
theorem utf8_append (a b : String) : utf8 (a ++ b) = utf8 a ++ utf8 b := by
  simp [utf8, String.toByteArray_append]

theorem encoded_ascii (member : b ∈ String.utf8EncodeChar c) (small : b < 0x80) :
    String.utf8EncodeChar c = [b] ∧ c.toNat = b.toNat := by
  have below : b.toNat < 0x80 := small
  have large : ∀ n, 0x80 ≤ n → n < 256 → b ≠ UInt8.ofNat n := by
    rintro n least most rfl
    rw [UInt8.toNat_ofNat', Nat.mod_eq_of_lt most] at below
    omega
  dsimp only [String.utf8EncodeChar] at member ⊢
  split_ifs at member ⊢ with one two three
  · obtain rfl := List.mem_singleton.mp member
    refine ⟨rfl, ?_⟩
    rw [UInt8.toNat_ofNat', Nat.mod_eq_of_lt (by omega)]
    rfl
  · simp only [List.mem_cons, List.not_mem_nil, or_false] at member
    rcases member with wrong | wrong <;> exact absurd wrong (large _ (by omega) (by omega))
  · simp only [List.mem_cons, List.not_mem_nil, or_false] at member
    rcases member with wrong | wrong | wrong <;>
      exact absurd wrong (large _ (by omega) (by omega))
  · simp only [List.mem_cons, List.not_mem_nil, or_false] at member
    rcases member with wrong | wrong | wrong | wrong <;>
      exact absurd wrong (large _ (by omega) (by omega))

theorem chars_cut {chars : List Char} (small : b < 0x80)
    (whole : chars.flatMap String.utf8EncodeChar = p ++ b :: q) :
    ∃ before after : List Char, before.flatMap String.utf8EncodeChar = p ∧
      after.flatMap String.utf8EncodeChar = q := by
  induction chars generalizing p with
  | nil => exact absurd whole (by simp)
  | cons c rest ih =>
    rw [List.flatMap_cons] at whole
    have later : ∀ {more}, p = String.utf8EncodeChar c ++ more →
        rest.flatMap String.utf8EncodeChar = more ++ b :: q →
        ∃ before after : List Char, before.flatMap String.utf8EncodeChar = p ∧
          after.flatMap String.utf8EncodeChar = q := by
      intro more here behind
      obtain ⟨before, after, left, right⟩ := ih behind
      exact ⟨c :: before, after, by rw [List.flatMap_cons, left, here], right⟩
    rcases List.append_eq_append_iff.mp whole with ⟨more, here, behind⟩ | ⟨more, here, behind⟩
    · exact later here behind
    · cases more with
      | nil => exact @later [] (by simpa using here.symm) behind.symm
      | cons first more =>
        obtain ⟨rfl, tail⟩ := List.cons.inj behind
        have member : b ∈ String.utf8EncodeChar c := by simp [here]
        have single : [b] = p ++ b :: more := (encoded_ascii member small).1.symm.trans here
        have none : p = [] ∧ more = [] := by
          have length := congrArg List.length single
          simp only [List.length_cons, List.length_append, List.length_nil] at length
          exact ⟨List.length_eq_zero_iff.mp (by omega), List.length_eq_zero_iff.mp (by omega)⟩
        exact ⟨[], rest, none.1.symm, by rw [tail, none.2]; rfl⟩

theorem isUtf8_cut (valid : IsUtf8 (p ++ b :: q)) (small : b < 0x80) : IsUtf8 p ∧ IsUtf8 q := by
  obtain ⟨text, whole⟩ := valid
  rw [utf8_eq] at whole
  obtain ⟨before, after, left, right⟩ := chars_cut small whole
  exact ⟨⟨String.ofList before, by rw [utf8_eq, String.toList_ofList, left]⟩,
    ⟨String.ofList after, by rw [utf8_eq, String.toList_ofList, right]⟩⟩

theorem isUtf8_append (left : IsUtf8 p) (right : IsUtf8 q) : IsUtf8 (p ++ q) := by
  obtain ⟨a, rfl⟩ := left
  obtain ⟨b, rfl⟩ := right
  exact ⟨a ++ b, utf8_append a b⟩

theorem isUtf8_drop (small : ∀ b ∈ p, b < 0x80) (valid : IsUtf8 (p ++ q)) : IsUtf8 q := by
  induction p with
  | nil => exact valid
  | cons b rest ih =>
    have behind := (isUtf8_cut (p := []) valid (small b List.mem_cons_self)).2
    exact ih (fun b member => small b (List.mem_cons_of_mem _ member)) behind

end utf8

section pieces
variable {env : KeyedMap String String} {wasmBytes content : List UInt8} {key value : String}
  {b : UInt8}

def envHeader (key : String) : List UInt8 :=
  utf8 "Content-Disposition: form-data; name=\"env[" ++ utf8 key ++ utf8 "]\""

def wasmHeaders : List (List UInt8) :=
  [utf8 "Content-Disposition: form-data; name=\"wasm\"; filename=\"module.wasm\"",
    utf8 "Content-Type: application/wasm"]

def closing : List UInt8 := dashes ++ crlf

def envPiece (entry : String × String) : List UInt8 :=
  pieceOf [envHeader entry.1] (utf8 entry.2)

theorem utf8_crlf : utf8 "\r\n" = crlf := by decide

theorem utf8_dashes : utf8 "--" = dashes := by decide

theorem envField_eq : envField key value =
    dashes ++ utf8 boundary ++ envPiece (key, value) ++ crlf := by
  have ending : utf8 "]\"\r\n\r\n" = utf8 "]\"" ++ crlf ++ crlf := by decide
  simp [envField, envPiece, pieceOf, envHeader, utf8_crlf, utf8_dashes, ending]

theorem wasmField_eq : wasmField wasmBytes =
    dashes ++ utf8 boundary ++ pieceOf wasmHeaders wasmBytes ++ crlf := by
  have first : utf8 "Content-Disposition: form-data; name=\"wasm\"; filename=\"module.wasm\"\r\n" =
      utf8 "Content-Disposition: form-data; name=\"wasm\"; filename=\"module.wasm\"" ++ crlf := by
    decide
  have second : utf8 "Content-Type: application/wasm\r\n\r\n" =
      utf8 "Content-Type: application/wasm" ++ crlf ++ crlf := by
    decide
  simp [wasmField, pieceOf, wasmHeaders, utf8_crlf, utf8_dashes, first, second]

theorem uploadWasm_eq (env : KeyedMap String String) (wasmBytes : List UInt8) :
    uploadWasm env wasmBytes = assemble (utf8 boundary)
      ((inOrder env).map envPiece ++ [pieceOf wasmHeaders wasmBytes]) closing := by
  have last : utf8 ("--" ++ boundary ++ "--\r\n") = dashes ++ utf8 boundary ++ closing := by
    decide
  have fields : (fun entry : String × String => envField entry.1 entry.2) =
      fun entry => dashes ++ utf8 boundary ++ envPiece entry ++ crlf :=
    funext fun _ => envField_eq
  simp only [uploadWasm, assemble, last, wasmField_eq, fields, List.flatMap_append,
    List.flatMap_map, List.flatMap_singleton]

theorem mem_inOrder {entry : String × String} :
    entry ∈ inOrder env ↔ env.lookup entry.1 = some entry.2 := by
  rw [inOrder, List.mem_mergeSort, mem_pairs]

theorem upperName_byte (upper : IsUpperName key) (member : b ∈ utf8 key) :
    isValueByte b = true ∧ b ≠ 59 := by
  by_cases small : b < 0x80
  · rw [utf8_eq] at member
    obtain ⟨c, inside, encoded⟩ := List.mem_flatMap.mp member
    have value := (encoded_ascii encoded small).2
    have range : (48 ≤ b.toNat ∧ b.toNat ≤ 57) ∨ (65 ≤ b.toNat ∧ b.toNat ≤ 95) := by
      rcases upper c inside with ⟨low, high⟩ | ⟨low, high⟩ | rfl
      · have low : 65 ≤ c.toNat := low
        have high : c.toNat ≤ 90 := high
        omega
      · have low : 48 ≤ c.toNat := low
        have high : c.toNat ≤ 57 := high
        omega
      · rw [← value]
        decide
    have least : (32 : UInt8) ≤ b := UInt8.le_iff_toNat_le.mpr (by
      have bound : (32 : UInt8).toNat = 32 := rfl
      omega)
    constructor
    · have other : b ≠ 127 := by
        rintro rfl
        revert range
        decide
      simp [isValueByte, least, other]
    · rintro rfl
      revert range
      decide
  · have large : (128 : UInt8) ≤ b := UInt8.not_lt.mp small
    have least : (32 : UInt8) ≤ b := UInt8.le_trans (by decide) large
    have others : b ≠ 127 ∧ b ≠ 59 := by
      constructor <;> rintro rfl <;> exact absurd large (by decide)
    simp [isValueByte, least, others]

theorem wasmHeaders_isHeader : ∀ line ∈ wasmHeaders, isHeader line = true := by decide

def nameParameter (key : String) : List UInt8 :=
  utf8 "name=\"" ++ utf8 ("env[" ++ key ++ "]") ++ [34]

theorem cutAt_envHeader (key : String) : cutAt [58] 0 (envHeader key) =
    utf8 "Content-Disposition" ::
      cutAt [58] 0 (utf8 " form-data" ++ ([59] ++ (32 :: nameParameter key))) := by
  have field : envHeader key = utf8 "Content-Disposition" ++
      ([58] ++ (utf8 " form-data" ++ ([59] ++ (32 :: nameParameter key)))) := by
    have before : utf8 "Content-Disposition: form-data; name=\"env[" =
        utf8 "Content-Disposition" ++ [58] ++ utf8 " form-data" ++ [59] ++
          (32 :: utf8 "name=\"") ++ utf8 "env[" := by decide
    have behind : utf8 "]\"" = utf8 "]" ++ [34] := by decide
    simp [envHeader, nameParameter, before, behind]
  rw [field, cutAt_join (by decide), cutAt_free (by decide)]
  rfl

theorem envHeader_isHeader (upper : IsUpperName key) : isHeader (envHeader key) = true := by
  obtain ⟨first, more, behind⟩ := List.exists_cons_of_ne_nil
    (cutAt_ne [58] 0 (utf8 " form-data" ++ ([59] ++ (32 :: nameParameter key))))
  have name : (utf8 "Content-Disposition").all isToken = true := by decide
  have some_name : utf8 "Content-Disposition" ≠ [] := by decide
  have values : (envHeader key).all isValueByte = true := by
    have before : (utf8 "Content-Disposition: form-data; name=\"env[").all isValueByte = true := by
      decide
    have ending : (utf8 "]\"").all isValueByte = true := by decide
    have inside : (utf8 key).all isValueByte = true :=
      List.all_eq_true.mpr fun b member => (upperName_byte upper member).1
    simp only [envHeader, List.all_append, before, ending, inside, Bool.and_self]
  simp only [isHeader, cutAt_envHeader, behind, name, some_name, values, ne_eq, not_false_eq_true,
    decide_true, Bool.and_self]

theorem envHeader_parameters (upper : IsUpperName key) :
    headerParameters (utf8 "content-disposition") (envHeader key) =
      [utf8 "form-data", nameParameter key] := by
  have free : ¬ [59] <:+: 32 :: nameParameter key := by
    have before : 59 ∉ 32 :: utf8 "name=\"env[" := by decide
    have behind : 59 ∉ utf8 "]" ++ [34] := by decide
    have inside : 59 ∉ utf8 key := fun member => (upperName_byte upper member).2 rfl
    have whole : 32 :: nameParameter key =
        (32 :: utf8 "name=\"env[") ++ utf8 key ++ (utf8 "]" ++ [34]) := by
      have start : utf8 "name=\"env[" = utf8 "name=\"" ++ utf8 "env[" := by decide
      simp [nameParameter, start]
    intro found
    have member : 59 ∈ 32 :: nameParameter key := found.subset List.mem_cons_self
    rw [whole, List.mem_append, List.mem_append] at member
    rcases member with (first | second) | third
    · exact before first
    · exact inside second
    · exact behind third
  have semicolon : cutAt [59] 0 (utf8 " form-data" ++ ([59] ++ (32 :: nameParameter key))) =
      [utf8 " form-data", 32 :: nameParameter key] := by
    rw [cutAt_join (by decide), cutAt_free (by decide), cutAt_free free]
    rfl
  have first : trimBlanks (utf8 " form-data") = utf8 "form-data" := by decide
  have second : trimBlanks (32 :: nameParameter key) = nameParameter key := by
    have letter : utf8 "name=\"" = 110 :: utf8 "ame=\"" := by decide
    have start : (32 :: nameParameter key).dropWhile isBlank = nameParameter key := by
      rw [nameParameter, letter]
      rfl
    rw [trimBlanks, start, nameParameter]
    exact List.rdropWhile_concat_neg _ _ _ (by decide)
  have named : (utf8 "Content-Disposition").map toLower = utf8 "content-disposition" := by
    decide
  rw [headerParameters, cutAt_envHeader]
  simp only [named, if_true]
  rw [intercalate_cutAt (by decide), semicolon, List.map_cons, List.map_cons, first, second]
  rfl

theorem quotedValue_name : quotedValue (utf8 "name") (nameParameter key) =
    some (utf8 ("env[" ++ key ++ "]")) := by
  have start : utf8 "name" ++ [61, 34] = utf8 "name=\"" := by decide
  have value : (nameParameter key).drop (utf8 "name=\"").length =
      utf8 ("env[" ++ key ++ "]") ++ [34] := by
    rw [nameParameter, List.append_assoc]
    exact List.drop_left
  have leads : utf8 "name=\"" <+: nameParameter key := by
    rw [nameParameter, List.append_assoc]
    exact List.prefix_append _ _
  simp only [quotedValue, start, value]
  rw [if_pos ⟨leads, List.suffix_append _ _⟩, List.dropLast_concat]

theorem envPart_name (upper : IsUpperName key) :
    (BodyPart.mk [envHeader key] content).name (utf8 "content-disposition") (utf8 "name") =
      some (utf8 ("env[" ++ key ++ "]")) := by
  have other : quotedValue (utf8 "name") (utf8 "form-data") = none := by decide
  simp only [BodyPart.name, List.findSome?_cons, envHeader_parameters upper, other,
    quotedValue_name]

theorem wasmPart_name :
    (BodyPart.mk wasmHeaders content).name (utf8 "content-disposition") (utf8 "name") =
      some (utf8 "wasm") := by
  have named : (wasmHeaders.findSome? fun line =>
      (headerParameters (utf8 "content-disposition") line).findSome?
        (quotedValue (utf8 "name"))) = some (utf8 "wasm") := by
    decide
  exact named

theorem fieldOf_env (text : List UInt8 → Option String) (upper : IsUpperName key) :
    fieldOf text ⟨[envHeader key], content⟩ =
      ⟨some ("env[" ++ key ++ "]"), some content, text content⟩ := by
  rw [fieldOf, envPart_name upper]
  simp only [Option.bind_some]
  rw [utf8, fromUTF8_toUTF8]

theorem fieldOf_wasm (text : List UInt8 → Option String) :
    fieldOf text ⟨wasmHeaders, content⟩ = ⟨some "wasm", some content, text content⟩ := by
  rw [fieldOf, wasmPart_name]
  simp only [Option.bind_some]
  rw [utf8, fromUTF8_toUTF8]

theorem stripSuffix_append (front ending : String) :
    stripSuffix ending (front ++ ending) = some front := by
  simp [stripSuffix]

theorem envVar_env (texts : Texts) {bytes : Option (List UInt8)} {value : Option String}
    (upper : texts.toUppercase key = key) :
    envVar texts (some ⟨some ("env[" ++ key ++ "]"), bytes, value⟩) =
      value.map fun value => (key, value) := by
  have stripped : stripPrefix "env[" ("env[" ++ key ++ "]") = some (key ++ "]") :=
    stripPrefix_eq.mpr String.append_assoc
  cases value <;> simp [envVar, stripped, stripSuffix_append, upper]

theorem envVar_wasm (texts : Texts) {bytes : Option (List UInt8)} {value : Option String} :
    envVar texts (some ⟨some "wasm", bytes, value⟩) = none := by
  have stripped : stripPrefix "env[" "wasm" = none := by decide
  simp [envVar, stripped]

theorem readField_env (texts : Texts) (form : Form) {bytes : Option (List UInt8)} :
    readField texts form (some ⟨some ("env[" ++ key ++ "]"), bytes, some value⟩) =
      .ok { form with envVars := form.envVars.insert (texts.toUppercase key) value } := by
  have stripped : stripPrefix "env[" ("env[" ++ key ++ "]") = some (key ++ "]") :=
    stripPrefix_eq.mpr String.append_assoc
  have other : "env[" ++ key ++ "]" ≠ "wasm" := by
    intro same
    rw [same] at stripped
    exact absurd stripped (by simp [show stripPrefix "env[" "wasm" = none by decide])
  simp [readField, other, stripped, stripSuffix_append]

theorem readField_wasm (texts : Texts) (form : Form) {text : Option String} :
    readField texts form (some ⟨some "wasm", some content, text⟩) =
      .ok { form with wasmBytes := some content } := rfl

end pieces

end UmariUploadBodies
