import Umari.DcbQueries
import Umari.FallibleFolds
import Umari.StableClasses

/-!
The derived `from_domain_ids`. The macro parts a struct's fields into domain ids and others,
sorts the others, numbers the arguments and writes one list after the other; the compiler
then reads the fields of a named struct by their names and those of a tuple struct by their
places.
-/
namespace UmariDerivedConstructors
open FallibleFolds StableClasses UmariDcbQueries

section input

inductive Meta where
  | path
  | list (tokens : List String)
  | nameValue (literal : Option String)
deriving DecidableEq, Repr

structure Attribute where
  path : String
  content : Meta
deriving DecidableEq, Repr

/-- A field; its type is known by its tokens. -/
structure Field where
  ident : Option String
  ty : String
  attrs : List Attribute
deriving DecidableEq, Repr

/-- A struct that compiles; one without any fields may be a unit struct. -/
structure Struct where
  isUnnamed : Bool
  fields : List Field
  unnamed : isUnnamed = true → ∀ field ∈ fields, field.ident = none
  named : isUnnamed = false →
    (∀ field ∈ fields, field.ident.isSome = true) ∧ (fields.map Field.ident).Nodup

inductive NonDomainIdField where
  | explicit (ty : String)
  | default
deriving DecidableEq, Repr

structure DomainIdAttrs where
  domainIds : List (Option String × String)
  nonDomainIds : List (Option String × NonDomainIdField)
deriving DecidableEq, Repr

def parseDefault : List String → Except String NonDomainIdField
  | [] => .error "unexpected end of input, expected `default`"
  | token :: rest =>
    if token ≠ "default" then .error "expected `default`"
    else if rest ≠ [] then .error "unexpected token"
    else .ok .default

def nonDomainIdField (field : Field) : Except String NonDomainIdField :=
  match field.attrs.find? fun attr => attr.path == "from_domain_id" with
  | some attr =>
    match attr.content with
    | .list tokens => parseDefault tokens
    | .path => .error "expected `#[from_domain_id(default)]`"
    | .nameValue _ => .error "expected `#[from_domain_id(default)]`"
  | none => .ok (.explicit field.ty)

inductive Entry where
  | domainId (ident : Option String) (domainId : String)
  | nonDomainId (ident : Option String) (field : NonDomainIdField)
deriving DecidableEq, Repr

def Entry.ident : Entry → Option String
  | .domainId ident _ => ident
  | .nonDomainId ident _ => ident

/-- The loop body; `from_domain_id` is looked at before `domain_id`. -/
def parseField (field : Field) : Except String Entry :=
  (nonDomainIdField field).bind fun other =>
  match field.attrs.find? fun attr => attr.path == "domain_id" with
  | some attr =>
    match attr.content with
    | .path =>
      match field.ident with
      | none => .error "unnamed fields must specify the domain name manually"
      | some ident => .ok (.domainId (some ident) ident)
    | .list _ => .error "expected optional string literal"
    | .nameValue (some domainId) => .ok (.domainId field.ident domainId)
    | .nameValue none => .error "expected string literal"
  | none => .ok (.nonDomainId field.ident other)

def DomainIdAttrs.push (attrs : DomainIdAttrs) : Entry → DomainIdAttrs
  | .domainId ident domainId => { attrs with domainIds := attrs.domainIds ++ [(ident, domainId)] }
  | .nonDomainId ident field =>
    { attrs with nonDomainIds := attrs.nonDomainIds ++ [(ident, field)] }

def DomainIdAttrs.parse (fields : List Field) : Except String DomainIdAttrs :=
  fields.foldlM (fun attrs field => (parseField field).map attrs.push) ⟨[], []⟩

end input

section expand

inductive Expr where
  | args
  | argsAt (i : Nat)
  | default
  | fromStr (domainId : String)
deriving DecidableEq, Repr

inductive ArgsTokens where
  | bare (items : List String)
  | tuple (items : List String)
deriving DecidableEq, Repr

structure Generated where
  args : ArgsTokens
  isUnnamed : Bool
  body : List (Option String × Expr)
deriving DecidableEq, Repr

def compareFields : NonDomainIdField → NonDomainIdField → Ordering
  | .explicit _, .explicit _ => .eq
  | .explicit _, .default => .lt
  | .default, .explicit _ => .gt
  | .default, .default => .eq

def sortFields (fields : List (Option String × NonDomainIdField)) :
    List (Option String × NonDomainIdField) :=
  fields.mergeSort fun a b => (compareFields a.2 b.2).isLE

def argsItems (fields : List (Option String × NonDomainIdField)) : List String :=
  fields.filterMap fun field =>
    match field.2 with
    | .explicit ty => some ty
    | .default => none

def expand (isUnnamed : Bool) (attrs : DomainIdAttrs) : Generated :=
  let nonDomainIds := sortFields attrs.nonDomainIds
  let args :=
    if nonDomainIds.length = 1 then .bare (argsItems nonDomainIds)
    else .tuple (argsItems nonDomainIds)
  let argFields := nonDomainIds.zipIdx.map fun ((ident, field), i) =>
    match field with
    | .explicit _ => (ident, if nonDomainIds.length = 1 then .args else .argsAt i)
    | .default => (ident, .default)
  let bindingFields := attrs.domainIds.map fun (ident, domainId) => (ident, Expr.fromStr domainId)
  ⟨args, isUnnamed, argFields ++ bindingFields⟩

def derive (s : Struct) : Except String Generated :=
  (DomainIdAttrs.parse s.fields).map (expand s.isUnnamed)

end expand

/-- `type Args = ;` is no type. -/
def ArgsTokens.argTypes : ArgsTokens → Except String (List String)
  | .bare [ty] => .ok [ty]
  | .bare [] => .error "expected type, found `;`"
  | .bare (_ :: _ :: _) => .error "expected `;`"
  | .tuple items => .ok items

inductive FromDomainIdsError where
  | missingDomainId (domainId : String)
  | parseDomainId (error : String)
deriving DecidableEq, Repr

/-- What the types of the fields stand for, and their impls of `Default` and `FromStr`; two
    spellings may be one type. -/
structure Types where
  Resolved : Type
  decEq : DecidableEq Resolved
  resolve : String → Resolved
  Carrier : Resolved → Type
  default : ∀ r, Option (Carrier r)
  fromStr : ∀ r, Option (String → Except String (Carrier r))

instance (types : Types) : DecidableEq types.Resolved := types.decEq

section compile
variable (types : Types)

abbrev Val : Type := Σ r, types.Carrier r

abbrev Args (tys : List String) : Type :=
  ∀ i : Fin tys.length, types.Carrier (types.resolve (tys.get i))

abbrev Run (tys : List String) (α : Type) : Type :=
  Args types tys → DomainIdBindings → Except FromDomainIdsError α

def argument (tys : List String) (ty : String) (i : Nat) :
    Except String (Run types tys (Val types)) :=
  if within : i < tys.length then
    if types.resolve (tys.get ⟨i, within⟩) = types.resolve ty then
      .ok fun args _ => .ok ⟨_, args ⟨i, within⟩⟩
    else .error "mismatched types"
  else .error "no field on type"

def elabExpr (tokens : ArgsTokens) (tys : List String) (ty : String) :
    Expr → Except String (Run types tys (Val types))
  | .args =>
    match tokens with
    | .bare _ => argument types tys ty 0
    | .tuple _ => .error "mismatched types"
  | .argsAt i =>
    match tokens with
    | .bare _ => .error "no field on type"
    | .tuple _ => argument types tys ty i
  | .default =>
    match types.default (types.resolve ty) with
    | none => .error "the trait bound `Default` is not satisfied"
    | some value => .ok fun _ _ => .ok ⟨_, value⟩
  | .fromStr domainId =>
    match types.fromStr (types.resolve ty) with
    | none => .error "the trait bound `FromStr` is not satisfied"
    | some parse => .ok fun _ bindings =>
      match bindings.get domainId with
      | none => .error (.missingDomainId domainId)
      | some text => ((parse text).mapError .parseDomainId).map fun value => ⟨_, value⟩

def constructTuple (tokens : ArgsTokens) (tys : List String) (fields : List Field)
    (body : List (Option String × Expr)) : Except String (Run types tys (List (Val types))) :=
  if fields.length = body.length then
    ((fields.zip body).mapM fun pair => elabExpr types tokens tys pair.1.ty pair.2.2).map
      fun runs args bindings => runs.mapM fun run => run args bindings
  else .error "this struct takes another number of arguments"

def elabItem (tokens : ArgsTokens) (tys : List String) (fields : List Field)
    (item : Option String × Expr) :
    Except String (Option String × Run types tys (Val types)) :=
  match fields.find? fun field => field.ident == item.1 with
  | none => .error "struct has no field of that name"
  | some field => (elabExpr types tokens tys field.ty item.2).map fun run => (item.1, run)

/-- A struct expression: the values are computed as they are written, and go to the fields
    of their names. -/
def constructNamed (tokens : ArgsTokens) (tys : List String) (fields : List Field)
    (body : List (Option String × Expr)) : Except String (Run types tys (List (Val types))) :=
  (body.mapM fun item => elabItem types tokens tys fields item).bind fun runs =>
  if (body.map Prod.fst).isPerm (fields.map Field.ident) then
    .ok fun args bindings =>
      (runs.mapM fun item : Option String × Run types tys (Val types) =>
        (item.2 args bindings).map fun value => (item.1, value)).map
          fun values => fields.filterMap fun field => values.lookup field.ident
  else .error "missing fields or fields specified more than once"

structure Compiled where
  args : List String
  fromDomainIds : Run types args (List (Val types))

def compile (s : Struct) (g : Generated) : Except String (Compiled types) :=
  g.args.argTypes.bind fun tys =>
    (if g.isUnnamed then constructTuple types g.args tys s.fields g.body
      else constructNamed types g.args tys s.fields g.body).map fun run => ⟨tys, run⟩

end compile

section property
variable {types : Types} {tys : List String}

def Entry.explicitType : Entry → Option String
  | .nonDomainId _ (.explicit ty) => some ty
  | .nonDomainId _ .default => none
  | .domainId _ _ => none

/-- The domain ids can be parsed to the types of their fields, and the default fields have a
    default. -/
def Implements (types : Types) (field : Field) : Entry → Prop
  | .nonDomainId _ (.explicit _) => True
  | .nonDomainId _ .default => (types.default (types.resolve field.ty)).isSome = true
  | .domainId _ _ => (types.fromStr (types.resolve field.ty)).isSome = true

inductive Holds (args : Args types tys) (bindings : DomainIdBindings) (k : Nat) (field : Field) :
    Entry → Val types → Prop
  | explicit {ident ty} (within : k < tys.length) :
      Holds args bindings k field (.nonDomainId ident (.explicit ty)) ⟨_, args ⟨k, within⟩⟩
  | default {ident value} (known : types.default (types.resolve field.ty) = some value) :
      Holds args bindings k field (.nonDomainId ident .default) ⟨_, value⟩
  | domainId {ident domainId text parse value} (bound : bindings.get domainId = some text)
      (known : types.fromStr (types.resolve field.ty) = some parse)
      (parsed : parse text = .ok value) :
      Holds args bindings k field (.domainId ident domainId) ⟨_, value⟩

def Entry.next (k : Nat) (entry : Entry) : Nat :=
  if entry.explicitType.isSome then k + 1 else k

inductive Built (args : Args types tys) (bindings : DomainIdBindings) :
    Nat → List Field → List Entry → List (Val types) → Prop
  | nil {k} : Built args bindings k [] [] []
  | cons {k field entry value fields entries values}
      (here : Holds args bindings k field entry value)
      (later : Built args bindings (entry.next k) fields entries values) :
      Built args bindings k (field :: fields) (entry :: entries) (value :: values)

inductive Unbound (types : Types) (bindings : DomainIdBindings) (field : Field) : Entry → Prop
  | missing {ident domainId} (free : bindings.get domainId = none) :
      Unbound types bindings field (.domainId ident domainId)
  | unparsed {ident domainId text parse err} (bound : bindings.get domainId = some text)
      (known : types.fromStr (types.resolve field.ty) = some parse)
      (refused : parse text = .error err) :
      Unbound types bindings field (.domainId ident domainId)

/-- The constructor takes the explicit fields' types in their order, puts every value in its
    own field, and fails exactly on domain ids that are missing or do not parse. -/
structure Right (s : Struct) (entries : List Entry) (c : Compiled types) : Prop where
  args : c.args = entries.filterMap Entry.explicitType
  built : ∀ args bindings values, c.fromDomainIds args bindings = .ok values →
    Built args bindings 0 s.fields entries values
  fails : ∀ args bindings, (∃ err, c.fromDomainIds args bindings = .error err) ↔
    ∃ pair ∈ s.fields.zip entries, Unbound types bindings pair.1 pair.2

def PutsRight (s : Struct) (entries : List Entry) (g : Generated) : Prop :=
  ∀ types : Types, (∀ pair ∈ s.fields.zip entries, Implements types pair.1 pair.2) →
    ∃ c, compile types s g = .ok c ∧ Right s entries c

def Entry.place : Entry → Nat
  | .nonDomainId _ (.explicit _) => 0
  | .nonDomainId _ .default => 1
  | .domainId _ _ => 2

def Entry.nonDomainIdField : Entry → Option NonDomainIdField
  | .nonDomainId _ field => some field
  | .domainId _ _ => none

/-- What is left besides the domain ids is not one default field alone, and a tuple struct has
    its fields in the order that the body is written in. -/
def Orderly (s : Struct) (entries : List Entry) : Prop :=
  entries.filterMap Entry.nonDomainIdField ≠ [.default] ∧
    (s.isUnnamed = true → InClasses Entry.place entries)

end property

section parsing

def Entry.binding : Entry → Option (Option String × String)
  | .domainId ident name => some (ident, name)
  | .nonDomainId _ _ => none

def Entry.other : Entry → Option (Option String × NonDomainIdField)
  | .domainId _ _ => none
  | .nonDomainId ident field => some (ident, field)

theorem push_eq (attrs : DomainIdAttrs) (entry : Entry) : attrs.push entry =
    ⟨attrs.domainIds ++ entry.binding.toList, attrs.nonDomainIds ++ entry.other.toList⟩ := by
  cases entry <;> simp [DomainIdAttrs.push, Entry.binding, Entry.other]

theorem filterMap_first {α β : Type} (f : α → Option β) (x : α) (rest : List α) :
    (x :: rest).filterMap f = (f x).toList ++ rest.filterMap f := by
  cases found : f x <;> simp [found]

theorem parse_ok {fields : List Field} {attrs : DomainIdAttrs} :
    DomainIdAttrs.parse fields = .ok attrs ↔ ∃ entries,
      List.Forall₂ (fun field entry => parseField field = .ok entry) fields entries ∧
        attrs = ⟨entries.filterMap Entry.binding, entries.filterMap Entry.other⟩ := by
  have pushed : ∀ start : DomainIdAttrs,
      fields.foldlM (fun attrs field => (parseField field).map attrs.push) start = .ok attrs ↔
        ∃ entries, List.Forall₂ (fun field entry => parseField field = .ok entry) fields entries ∧
          attrs = ⟨start.domainIds ++ entries.filterMap Entry.binding,
            start.nonDomainIds ++ entries.filterMap Entry.other⟩ := by
    induction fields with
    | nil =>
      intro start
      constructor
      · intro done
        obtain rfl := Except.ok.inj done
        exact ⟨[], List.Forall₂.nil, by simp⟩
      · rintro ⟨entries, none, rfl⟩
        cases none
        simp [pure, Except.pure]
    | cons field rest ih =>
      intro start
      rw [foldlM_cons_ok]
      constructor
      · rintro ⟨next, stepped, later⟩
        obtain ⟨entry, parsed, rfl⟩ := mapped_ok.mp stepped
        obtain ⟨entries, related, rfl⟩ := (ih _).mp later
        refine ⟨entry :: entries, List.Forall₂.cons parsed related, ?_⟩
        simp only [push_eq, filterMap_first, List.append_assoc]
      · rintro ⟨all, related, rfl⟩
        obtain ⟨entry, entries, parsed, later, rfl⟩ := List.forall₂_cons_left_iff.mp related
        refine ⟨start.push entry, mapped_ok.mpr ⟨entry, parsed, rfl⟩,
          (ih _).mpr ⟨entries, later, ?_⟩⟩
        simp only [push_eq, filterMap_first, List.append_assoc]
  exact pushed ⟨[], []⟩

theorem parseDefault_ok {tokens : List String} {field : NonDomainIdField}
    (parsed : parseDefault tokens = .ok field) : field = .default := by
  unfold parseDefault at parsed
  split at parsed
  · exact absurd parsed (by simp)
  · split at parsed
    · exact absurd parsed (by simp)
    · split at parsed
      · exact absurd parsed (by simp)
      · exact (Except.ok.inj parsed).symm

theorem nonDomainIdField_ok {field : Field} {other : NonDomainIdField}
    (parsed : nonDomainIdField field = .ok other) : ∀ ty, other = .explicit ty → ty = field.ty := by
  rintro ty rfl
  unfold nonDomainIdField at parsed
  split at parsed
  · split at parsed
    · exact absurd (parseDefault_ok parsed) (by simp)
    · exact absurd parsed (by simp)
    · exact absurd parsed (by simp)
  · exact (NonDomainIdField.explicit.inj (Except.ok.inj parsed)).symm

theorem parseField_ok {field : Field} {entry : Entry} (parsed : parseField field = .ok entry) :
    entry.ident = field.ident ∧ ∀ ty, entry.explicitType = some ty → ty = field.ty := by
  obtain ⟨other, read, placed⟩ := bind_ok.mp parsed
  split at placed
  · split at placed
    · split at placed
      · exact absurd placed (by simp)
      · rename_i ident named
        obtain rfl := Except.ok.inj placed
        exact ⟨named.symm, nofun⟩
    · exact absurd placed (by simp)
    · obtain rfl := Except.ok.inj placed
      exact ⟨rfl, nofun⟩
    · exact absurd placed (by simp)
  · obtain rfl := Except.ok.inj placed
    refine ⟨rfl, fun ty explicit => nonDomainIdField_ok read ty ?_⟩
    cases other with
    | explicit _ => exact congrArg NonDomainIdField.explicit (Option.some.inj explicit)
    | default => exact absurd explicit (by simp [Entry.explicitType])

end parsing

end UmariDerivedConstructors
