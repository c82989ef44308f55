import Mathlib.Data.List.Dedup
import Mathlib.Data.List.Perm.Basic
import Umari.DerivedConstructors
import Umari.NumberedLists

/-!
What the derived constructor's body is, seen from the declaration: every field has its own
source, and the body has the sources class by class. By their names they are found again;
by their places only where the declaration has the same order.
-/
namespace UmariConstructorSources
open FallibleFolds StableClasses UmariDcbQueries UmariDerivedConstructors

section body

def source (single : Bool) (k : Nat) : Entry → Option String × Expr
  | .nonDomainId ident (.explicit _) => (ident, if single then .args else .argsAt k)
  | .nonDomainId ident .default => (ident, .default)
  | .domainId ident name => (ident, .fromStr name)

def sources (single : Bool) : Nat → List Entry → List (Option String × Expr)
  | _, [] => []
  | k, entry :: rest => source single k entry :: sources single (entry.next k) rest

def sourcePlace (item : Option String × Expr) : Nat :=
  match item.2 with
  | .args => 0
  | .argsAt _ => 0
  | .default => 1
  | .fromStr _ => 2

def fieldPlace (field : Option String × NonDomainIdField) : Nat :=
  match field.2 with
  | .explicit _ => 0
  | .default => 1

def argField (single : Bool) (entry : (Option String × NonDomainIdField) × Nat) :
    Option String × Expr :=
  match entry with
  | ((ident, field), i) =>
    match field with
    | .explicit _ => (ident, if single then .args else .argsAt i)
    | .default => (ident, .default)

theorem source_place (single : Bool) (k : Nat) (entry : Entry) :
    sourcePlace (source single k entry) = entry.place := by
  rcases entry with ⟨ident, name⟩ | ⟨ident, ty | _⟩
  · rfl
  · cases single <;> rfl
  · rfl

theorem sources_explicit (single : Bool) (k : Nat) (entries : List Entry) :
    (sources single k entries).filter (fun item => sourcePlace item == 0) =
      (((entries.filterMap Entry.other).filter fun field => fieldPlace field == 0).zipIdx k).map
        (argField single) := by
  induction entries generalizing k with
  | nil => rfl
  | cons entry rest ih =>
    have place := source_place single k entry
    rcases entry with ⟨ident, name⟩ | ⟨ident, ty | _⟩
    · rw [sources, List.filter_cons_of_neg (by simp [place, Entry.place]), ih]
      rfl
    · rw [sources, List.filter_cons_of_pos (by simp [place, Entry.place]), ih]
      rfl
    · rw [sources, List.filter_cons_of_neg (by simp [place, Entry.place]), ih]
      rfl

theorem sources_default (single : Bool) (k n : Nat) (entries : List Entry) :
    (sources single k entries).filter (fun item => sourcePlace item == 1) =
      (((entries.filterMap Entry.other).filter fun field => fieldPlace field == 1).zipIdx n).map
        (argField single) := by
  induction entries generalizing k n with
  | nil => rfl
  | cons entry rest ih =>
    have place := source_place single k entry
    rcases entry with ⟨ident, name⟩ | ⟨ident, ty | _⟩
    · rw [sources, List.filter_cons_of_neg (by simp [place, Entry.place]), ih _ n]
      rfl
    · rw [sources, List.filter_cons_of_neg (by simp [place, Entry.place]), ih _ n]
      rfl
    · rw [sources, List.filter_cons_of_pos (by simp [place, Entry.place]), ih _ (n + 1)]
      rfl

theorem sources_bindings (single : Bool) (k : Nat) (entries : List Entry) :
    (sources single k entries).filter (fun item => sourcePlace item == 2) =
      (entries.filterMap Entry.binding).map fun (ident, name) => (ident, Expr.fromStr name) := by
  induction entries generalizing k with
  | nil => rfl
  | cons entry rest ih =>
    have place := source_place single k entry
    rcases entry with ⟨ident, name⟩ | ⟨ident, ty | _⟩
    · rw [sources, List.filter_cons_of_pos (by simp [place, Entry.place]), ih]
      rfl
    · rw [sources, List.filter_cons_of_neg (by simp [place, Entry.place]), ih]
      rfl
    · rw [sources, List.filter_cons_of_neg (by simp [place, Entry.place]), ih]
      rfl

theorem sortFields_eq (fields : List (Option String × NonDomainIdField)) :
    sortFields fields = byClass fieldPlace 2 fields := by
  apply mergeSort_byClass
  · rintro ⟨_, _ | _⟩ ⟨_, _ | _⟩ <;> rfl
  · rintro ⟨_, _ | _⟩ _
    · exact Nat.zero_lt_two
    · exact Nat.one_lt_two

theorem sortFields_length (fields : List (Option String × NonDomainIdField)) :
    (sortFields fields).length = fields.length := List.length_mergeSort fields

def alone (entries : List Entry) : Bool := decide ((entries.filterMap Entry.other).length = 1)

theorem expand_body (isUnnamed : Bool) (entries : List Entry) :
    (expand isUnnamed ⟨entries.filterMap Entry.binding, entries.filterMap Entry.other⟩).body =
      byClass sourcePlace 3 (sources (alone entries) 0 entries) := by
  have body : (expand isUnnamed ⟨entries.filterMap Entry.binding,
      entries.filterMap Entry.other⟩).body =
        ((sortFields (entries.filterMap Entry.other)).zipIdx.map (argField (alone entries))) ++
          (entries.filterMap Entry.binding).map
            fun (ident, name) => (ident, Expr.fromStr name) := by
    unfold expand
    dsimp only
    rw [sortFields_length]
    congr 1
    apply List.map_congr_left
    rintro ⟨⟨ident, ty | _⟩, i⟩ _
    · simp only [argField, alone, decide_eq_true_eq]
    · rfl
  rw [body, sortFields_eq, byClass, byClass, byClass, byClass, byClass, byClass, byClass,
    List.nil_append, List.nil_append, List.zipIdx_append, List.map_append, sources_explicit,
    ← sources_bindings, sources_default _ _ _ _]

theorem argsItems_sorted (entries : List Entry) :
    argsItems (sortFields (entries.filterMap Entry.other)) =
      entries.filterMap Entry.explicitType := by
  have explicit : argsItems ((entries.filterMap Entry.other).filter fun field =>
      fieldPlace field == 0) = entries.filterMap Entry.explicitType := by
    induction entries with
    | nil => rfl
    | cons entry rest ih =>
      rcases entry with ⟨ident, name⟩ | ⟨ident, ty | _⟩
      · exact ih
      · exact congrArg (ty :: ·) ih
      · exact ih
  have none : argsItems ((entries.filterMap Entry.other).filter fun field =>
      fieldPlace field == 1) = [] := by
    apply List.filterMap_eq_nil_iff.mpr
    rintro ⟨ident, ty | _⟩ member
    · exact absurd (List.mem_filter.mp member).2 (by simp [fieldPlace])
    · rfl
  rw [sortFields_eq, byClass, byClass, byClass, List.nil_append, argsItems, List.filterMap_append,
    ← argsItems, ← argsItems, explicit, none, List.append_nil]

theorem expand_args (isUnnamed : Bool) (entries : List Entry) :
    (expand isUnnamed ⟨entries.filterMap Entry.binding, entries.filterMap Entry.other⟩).args =
      if alone entries then .bare (entries.filterMap Entry.explicitType)
      else .tuple (entries.filterMap Entry.explicitType) := by
  unfold expand
  dsimp only
  rw [sortFields_length, argsItems_sorted]
  simp only [alone, decide_eq_true_eq]

theorem other_fields (entries : List Entry) :
    entries.filterMap Entry.nonDomainIdField = (entries.filterMap Entry.other).map Prod.snd := by
  rw [List.map_filterMap]
  apply List.filterMap_congr
  rintro (⟨ident, name⟩ | ⟨ident, field⟩) _
  · rfl
  · rfl

theorem explicit_types (entries : List Entry) :
    entries.filterMap Entry.explicitType = argsItems (entries.filterMap Entry.other) := by
  rw [argsItems, List.filterMap_filterMap]
  apply List.filterMap_congr
  rintro (⟨ident, name⟩ | ⟨ident, ty | _⟩) _
  · rfl
  · rfl
  · rfl

theorem argTypes_ok {isUnnamed : Bool} {entries : List Entry} {tys : List String} :
    (expand isUnnamed ⟨entries.filterMap Entry.binding,
      entries.filterMap Entry.other⟩).args.argTypes = .ok tys ↔
    entries.filterMap Entry.nonDomainIdField ≠ [.default] ∧
      tys = entries.filterMap Entry.explicitType := by
  rw [expand_args, other_fields, explicit_types, alone]
  generalize entries.filterMap Entry.other = others
  rcases others with _ | ⟨⟨ident, field⟩, _ | ⟨next, rest⟩⟩
  · simp [argsItems, ArgsTokens.argTypes, eq_comm]
  · cases field with
    | explicit ty => simp [argsItems, ArgsTokens.argTypes, eq_comm]
    | default => simp [argsItems, ArgsTokens.argTypes]
  · rw [if_neg (by simp)]
    constructor
    · intro made
      exact ⟨by simp, (Except.ok.inj made).symm⟩
    · rintro ⟨_, rfl⟩
      rfl

theorem alone_explicit {entries : List Entry}
    (more : entries.filterMap Entry.nonDomainIdField ≠ [.default]) (one : alone entries = true) :
    (entries.filterMap Entry.explicitType).length = 1 := by
  rw [other_fields] at more
  rw [alone, decide_eq_true_eq] at one
  rw [explicit_types]
  obtain ⟨⟨ident, field⟩, single⟩ := List.length_eq_one_iff.mp one
  rw [single] at more ⊢
  cases field with
  | explicit ty => rfl
  | default => exact absurd rfl more

end body

section elaboration
variable {types : Types} {tys : List String} {single : Bool}

/-- The tokens of `type Args`, as the macro writes them. -/
def argsTokens (single : Bool) (tys : List String) : ArgsTokens :=
  if single then .bare tys else .tuple tys

/-- What a run of a field's source does: it gives the field's value, unless the field's
    domain id is missing or does not parse. -/
structure Gives (k : Nat) (field : Field) (entry : Entry) (run : Run types tys (Val types)) :
    Prop where
  holds : ∀ args bindings value, run args bindings = .ok value →
    Holds args bindings k field entry value
  gives : ∀ args bindings, (∃ value, run args bindings = .ok value) ↔
    ¬ Unbound types bindings field entry

theorem argument_given {ty : String} {k : Nat} (known : tys[k]? = some ty) :
    ∃ within, argument types tys ty k = .ok fun args _ => .ok ⟨_, args ⟨k, within⟩⟩ := by
  obtain ⟨within, same⟩ := List.getElem?_eq_some_iff.mp known
  refine ⟨within, ?_⟩
  unfold argument
  rw [dif_pos within, if_pos]
  exact congrArg types.resolve same

theorem elab_explicit {ty : String} {k : Nat} (known : tys[k]? = some ty)
    (one : single = true → tys.length = 1) :
    elabExpr types (argsTokens single tys) tys ty (if single then .args else .argsAt k) =
      argument types tys ty k := by
  cases single with
  | false => rfl
  | true =>
    have within := (List.getElem?_eq_some_iff.mp known).1
    have first : k = 0 := by
      have length := one rfl
      omega
    rw [first]
    rfl

theorem elab_source {field : Field} {entry : Entry} {k : Nat}
    (parsed : parseField field = .ok entry) (implements : Implements types field entry)
    (known : ∀ ty, entry.explicitType = some ty → tys[k]? = some ty)
    (one : single = true → tys.length = 1) :
    ∃ run, elabExpr types (argsTokens single tys) tys field.ty (source single k entry).2 = .ok run ∧
      Gives k field entry run := by
  have typed := (parseField_ok parsed).2
  rcases entry with ⟨ident, name⟩ | ⟨ident, ty | _⟩
  · obtain ⟨parse, found⟩ := Option.isSome_iff_exists.mp implements
    have made : ∃ run, elabExpr types (argsTokens single tys) tys field.ty (.fromStr name) =
        .ok run ∧ (∀ args bindings, bindings.get name = none →
          run args bindings = .error (.missingDomainId name)) ∧
        ∀ args bindings text, bindings.get name = some text → run args bindings =
          ((parse text).mapError .parseDomainId).map fun value => ⟨_, value⟩ := by
      simp only [elabExpr, found, Except.ok.injEq, exists_eq_left']
      constructor
      · intro args bindings free
        rw [free]
      · intro args bindings text bound
        rw [bound]
    obtain ⟨run, elaborated, missing, read⟩ := made
    refine ⟨run, elaborated, ?_, ?_⟩
    · intro args bindings value given
      cases bound : bindings.get name with
      | none =>
        rw [missing _ _ bound] at given
        exact absurd given (by simp)
      | some text =>
        rw [read _ _ _ bound] at given
        obtain ⟨value, result, rfl⟩ := mapped_ok.mp given
        exact Holds.domainId bound found (mapError_ok.mp result)
    · intro args bindings
      cases bound : bindings.get name with
      | none =>
        rw [missing _ _ bound]
        exact iff_of_false (by simp) (not_not_intro (Unbound.missing bound))
      | some text =>
        rw [read _ _ _ bound]
        cases result : parse text with
        | error err =>
          apply iff_of_false (by simp [Except.mapError, Except.map])
          exact not_not_intro (Unbound.unparsed bound found result)
        | ok value =>
          apply iff_of_true ⟨⟨_, value⟩, by simp [Except.mapError, Except.map]⟩
          intro unbound
          cases unbound with
          | missing free => exact absurd (bound.symm.trans free) (by simp)
          | unparsed again known refused =>
            obtain rfl := Option.some.inj (bound.symm.trans again)
            obtain rfl := Option.some.inj (found.symm.trans known)
            exact absurd (result.symm.trans refused) (by simp)
  · obtain rfl := typed ty rfl
    obtain ⟨within, given⟩ := @argument_given types tys field.ty k (known _ rfl)
    refine ⟨_, (elab_explicit (known _ rfl) one).trans given, ?_, ?_⟩
    · rintro args bindings value ⟨⟩
      exact Holds.explicit within
    · intro args bindings
      exact iff_of_true ⟨_, rfl⟩ nofun
  · obtain ⟨value, found⟩ := Option.isSome_iff_exists.mp implements
    have made : elabExpr types (argsTokens single tys) tys field.ty .default =
        .ok fun _ _ => .ok ⟨_, value⟩ := by
      simp only [elabExpr, found]
    refine ⟨_, made, ?_, ?_⟩
    · rintro args bindings value ⟨⟩
      exact Holds.default found
    · intro args bindings
      exact iff_of_true ⟨_, rfl⟩ nofun

def AllOk (runs : List (Run types tys (Val types))) (args : Args types tys)
    (bindings : DomainIdBindings) (values : List (Val types)) : Prop :=
  List.Forall₂ (fun run value => run args bindings = .ok value) runs values

structure Builds (k : Nat) (fields : List Field) (entries : List Entry)
    (runs : List (Run types tys (Val types))) : Prop where
  built : ∀ args bindings values, AllOk runs args bindings values →
    Built args bindings k fields entries values
  gives : ∀ args bindings, (∃ values, AllOk runs args bindings values) ↔
    ∀ pair ∈ fields.zip entries, ¬ Unbound types bindings pair.1 pair.2

def Elaborates (types : Types) (tokens : ArgsTokens) (tys : List String)
    (pair : Field × (Option String × Expr)) (run : Run types tys (Val types)) : Prop :=
  elabExpr types tokens tys pair.1.ty pair.2.2 = .ok run

theorem elab_sources (one : single = true → tys.length = 1) {k : Nat} {fields : List Field}
    {entries : List Entry}
    (parsed : List.Forall₂ (fun field entry => parseField field = .ok entry) fields entries)
    (implements : ∀ pair ∈ fields.zip entries, Implements types pair.1 pair.2)
    (known : tys.drop k = entries.filterMap Entry.explicitType) :
    ∃ runs, List.Forall₂ (Elaborates types (argsTokens single tys) tys)
      (fields.zip (sources single k entries)) runs ∧ Builds k fields entries runs := by
  induction parsed generalizing k with
  | nil =>
    refine ⟨[], List.Forall₂.nil, ?_, ?_⟩
    · intro args bindings values none
      cases none
      exact Built.nil
    · intro args bindings
      exact iff_of_true ⟨[], List.Forall₂.nil⟩ nofun
  | @cons field entry fields entries here later ih =>
    have given : ∀ ty, entry.explicitType = some ty → tys[k]? = some ty := by
      intro ty explicit
      rw [filterMap_first, explicit] at known
      rw [← List.head?_drop, known]
      rfl
    have rest : tys.drop (entry.next k) = entries.filterMap Entry.explicitType := by
      rw [filterMap_first] at known
      unfold Entry.next
      cases explicit : entry.explicitType with
      | none =>
        rw [explicit] at known
        exact known
      | some ty =>
        rw [explicit] at known
        rw [Option.isSome_some, if_pos rfl, ← List.tail_drop, known]
        rfl
    obtain ⟨run, elaborated, gives⟩ := elab_source here
      (implements (field, entry) List.mem_cons_self) given one
    obtain ⟨runs, others, builds⟩ := ih
      (fun pair member => implements pair (List.mem_cons_of_mem _ member)) rest
    refine ⟨run :: runs, List.Forall₂.cons elaborated others, ?_, ?_⟩
    · intro args bindings values all
      obtain ⟨value, tail, first, remaining, rfl⟩ := List.forall₂_cons_left_iff.mp all
      exact Built.cons (gives.holds _ _ _ first) (builds.built _ _ _ remaining)
    · intro args bindings
      rw [List.zip_cons_cons, List.forall_mem_cons, ← gives.gives, ← builds.gives]
      constructor
      · rintro ⟨values, all⟩
        obtain ⟨value, tail, first, remaining, rfl⟩ := List.forall₂_cons_left_iff.mp all
        exact ⟨⟨value, first⟩, ⟨tail, remaining⟩⟩
      · rintro ⟨⟨value, first⟩, ⟨tail, remaining⟩⟩
        exact ⟨value :: tail, List.Forall₂.cons first remaining⟩

theorem right_of_builds {s : Struct} {entries : List Entry}
    {runs : List (Run types tys (Val types))} (builds : Builds 0 s.fields entries runs)
    (explicit : tys = entries.filterMap Entry.explicitType)
    {run : Run types tys (List (Val types))}
    (computes : ∀ args bindings values, run args bindings = .ok values ↔
      AllOk runs args bindings values) : Right s entries ⟨tys, run⟩ := by
  refine ⟨explicit, ?_, ?_⟩
  · intro args bindings values given
    exact builds.built _ _ _ ((computes _ _ _).mp given)
  · intro args bindings
    have failed : (∃ err, run args bindings = .error err) ↔
        ¬ ∃ values, run args bindings = .ok values := by
      cases run args bindings <;> simp
    rw [failed, exists_congr (computes args bindings), builds.gives]
    simp only [not_forall, not_not, exists_prop]

end elaboration

section named
variable {types : Types} {tys : List String} {tokens : ArgsTokens}

theorem find_field {fields : List Field} (distinct : (fields.map Field.ident).Nodup) {field : Field}
    (member : field ∈ fields) :
    (fields.find? fun other => other.ident == field.ident) = some field := by
  induction fields with
  | nil => exact absurd member List.not_mem_nil
  | cons first rest ih =>
    obtain ⟨fresh, tail⟩ := List.nodup_cons.mp distinct
    rcases List.mem_cons.mp member with rfl | later
    · exact List.find?_cons_of_pos (by simp)
    · have differs : (first.ident == field.ident) = false := by
        apply beq_eq_false_iff_ne.mpr
        intro same
        exact fresh (List.mem_map.mpr ⟨field, later, same.symm⟩)
      rw [List.find?_cons_of_neg (by simp [differs])]
      exact ih tail later

theorem elab_items {fields : List Field} (distinct : (fields.map Field.ident).Nodup)
    {part : List Field} {items : List (Option String × Expr)}
    {runs : List (Run types tys (Val types))} (within : ∀ field ∈ part, field ∈ fields)
    (named : items.map Prod.fst = part.map Field.ident)
    (elaborated : List.Forall₂ (Elaborates types tokens tys) (part.zip items) runs) :
    List.Forall₂ (fun item run => elabItem types tokens tys fields item = .ok run) items
      ((part.map Field.ident).zip runs) := by
  induction part generalizing items runs with
  | nil =>
    rw [List.map_nil, List.map_eq_nil_iff] at named
    rw [named]
    exact List.Forall₂.nil
  | cons field rest ih =>
    obtain ⟨item, tail, rfl, same, others⟩ := List.map_eq_cons_iff.mp named
    obtain ⟨run, later, here, remaining, rfl⟩ := List.forall₂_cons_left_iff.mp elaborated
    apply List.Forall₂.cons _ (ih (fun f member => within f (List.mem_cons_of_mem field member))
      others remaining)
    have found := find_field distinct (within field List.mem_cons_self)
    rw [← same] at found
    unfold elabItem
    rw [found]
    exact mapped_ok.mpr ⟨run, here, by rw [same]⟩

def itemRun (args : Args types tys) (bindings : DomainIdBindings)
    (item : Option String × Run types tys (Val types)) :
    Except FromDomainIdsError (Option String × Val types) :=
  (item.2 args bindings).map fun value => (item.1, value)

theorem items_run {args : Args types tys} {bindings : DomainIdBindings}
    {names : List (Option String)} {runs : List (Run types tys (Val types))}
    (even : names.length = runs.length) {results : List (Option String × Val types)} :
    List.Forall₂ (fun item result => itemRun args bindings item = .ok result) (names.zip runs)
        results ↔
      ∃ values, results = names.zip values ∧ AllOk runs args bindings values := by
  induction names generalizing runs results with
  | nil =>
    obtain rfl := List.length_eq_zero_iff.mp even.symm
    constructor
    · intro none
      cases none
      exact ⟨[], rfl, List.Forall₂.nil⟩
    · rintro ⟨values, rfl, none⟩
      cases none
      exact List.Forall₂.nil
  | cons name rest ih =>
    obtain ⟨run, later, rfl⟩ := List.exists_cons_of_length_eq_add_one even.symm
    have tails : rest.length = later.length := Nat.succ.inj even
    constructor
    · intro all
      obtain ⟨result, others, here, remaining, rfl⟩ := List.forall₂_cons_left_iff.mp all
      obtain ⟨value, given, rfl⟩ := mapped_ok.mp here
      obtain ⟨values, rfl, related⟩ := (ih tails).mp remaining
      exact ⟨value :: values, rfl, List.Forall₂.cons given related⟩
    · rintro ⟨values, rfl, all⟩
      obtain ⟨value, others, given, remaining, rfl⟩ := List.forall₂_cons_left_iff.mp all
      exact List.Forall₂.cons (mapped_ok.mpr ⟨value, given, rfl⟩)
        ((ih tails).mpr ⟨_, rfl, remaining⟩)

theorem lookup_values {results : List (Option String × Val types)}
    (distinct : (results.map Prod.fst).Nodup) {fields : List Field} {values : List (Val types)}
    (even : fields.length = values.length)
    (within : ∀ pair ∈ (fields.map Field.ident).zip values, pair ∈ results) :
    (fields.filterMap fun field => results.lookup field.ident) = values := by
  induction fields generalizing values with
  | nil => exact (List.length_eq_zero_iff.mp even.symm).symm
  | cons field rest ih =>
    obtain ⟨value, later, rfl⟩ := List.exists_cons_of_length_eq_add_one even.symm
    have here : results.lookup field.ident = some value :=
      NumberedLists.lookup_of_mem distinct (within _ List.mem_cons_self)
    rw [filterMap_first, here, ih (Nat.succ.inj even)
      fun pair member => within pair (List.mem_cons_of_mem _ member)]
    rfl

theorem lookup_arranged {fields : List Field} (distinct : (fields.map Field.ident).Nodup)
    {values : List (Val types)} (even : fields.length = values.length)
    {results : List (Option String × Val types)}
    (perm : ((fields.map Field.ident).zip values).Perm results) :
    (fields.filterMap fun field => results.lookup field.ident) = values := by
  apply lookup_values _ even fun pair member => perm.mem_iff.mp member
  apply (perm.map Prod.fst).nodup_iff.mp
  rwa [List.map_fst_zip (by rw [List.length_map, even])]

theorem named_computes {fields : List Field} (distinct : (fields.map Field.ident).Nodup)
    {declared body : List (Option String × Expr)}
    (named : declared.map Prod.fst = fields.map Field.ident) (perm : body.Perm declared)
    {runs : List (Run types tys (Val types))}
    (elaborated : List.Forall₂ (Elaborates types tokens tys) (fields.zip declared) runs) :
    ∃ run, constructNamed types tokens tys fields body = .ok run ∧
      ∀ args bindings values, run args bindings = .ok values ↔ AllOk runs args bindings values := by
  have items := elab_items distinct (fun _ member => member) named elaborated
  have even : (fields.map Field.ident).length = runs.length := by
    have count := elaborated.length_eq
    have alike := congrArg List.length named
    rw [List.length_map, List.length_map] at alike
    rw [List.length_zip] at count
    rw [List.length_map]
    omega
  obtain ⟨written, elaboratedItems, same⟩ := List.perm_comp_forall₂ perm items
  have names : (body.map Prod.fst).Perm (fields.map Field.ident) := by
    rw [← named]
    exact perm.map Prod.fst
  refine ⟨_, bind_ok.mpr ⟨written, mapM_ok.mpr elaboratedItems, if_pos (List.isPerm_iff.mpr names)⟩,
    ?_⟩
  intro args bindings values
  rw [mapped_ok]
  have sizes : ∀ values, AllOk runs args bindings values → fields.length = values.length := by
    intro values all
    rw [← all.length_eq, ← even, List.length_map]
  constructor
  · rintro ⟨results, ran, rfl⟩
    obtain ⟨inOrder, all, again⟩ := List.perm_comp_forall₂ same.symm (mapM_ok.mp ran)
    obtain ⟨values, rfl, related⟩ := (items_run even).mp all
    rw [lookup_arranged distinct (sizes values related) again]
    exact related
  · intro all
    obtain ⟨results, ran, again⟩ :=
      List.perm_comp_forall₂ same ((items_run even).mpr ⟨values, rfl, all⟩)
    exact ⟨results, mapM_ok.mpr ran, lookup_arranged distinct (sizes values all) again.symm⟩

end named

section orderly
variable {types : Types}

theorem sources_length (single : Bool) (k : Nat) (entries : List Entry) :
    (sources single k entries).length = entries.length := by
  induction entries generalizing k with
  | nil => rfl
  | cons entry rest ih => rw [sources, List.length_cons, ih, List.length_cons]

theorem sources_places (single : Bool) (k : Nat) (entries : List Entry) :
    (sources single k entries).map sourcePlace = entries.map Entry.place := by
  induction entries generalizing k with
  | nil => rfl
  | cons entry rest ih => rw [sources, List.map_cons, ih, source_place, List.map_cons]

theorem sources_idents {single : Bool} {k : Nat} {fields : List Field} {entries : List Entry}
    (parsed : List.Forall₂ (fun field entry => parseField field = .ok entry) fields entries) :
    (sources single k entries).map Prod.fst = fields.map Field.ident := by
  induction parsed generalizing k with
  | nil => rfl
  | @cons field entry fields entries here later ih =>
    have own : (source single k entry).1 = field.ident := by
      rw [← (parseField_ok here).1]
      rcases entry with ⟨ident, name⟩ | ⟨ident, ty | _⟩ <;> rfl
    rw [sources, List.map_cons, own, ih, List.map_cons]

theorem sourcePlace_lt (item : Option String × Expr) : sourcePlace item < 3 := by
  rcases item with ⟨ident, _ | _ | _ | _⟩ <;> exact of_decide_eq_true rfl

theorem tuple_computes {tys : List String} {tokens : ArgsTokens} {fields : List Field}
    {body : List (Option String × Expr)} {runs : List (Run types tys (Val types))}
    (even : fields.length = body.length)
    (elaborated : List.Forall₂ (Elaborates types tokens tys) (fields.zip body) runs) :
    ∃ run, constructTuple types tokens tys fields body = .ok run ∧
      ∀ args bindings values, run args bindings = .ok values ↔ AllOk runs args bindings values := by
  unfold constructTuple
  rw [if_pos even]
  exact ⟨_, mapped_ok.mpr ⟨runs, mapM_ok.mpr elaborated, rfl⟩, fun _ _ _ => mapM_ok⟩

theorem sources_inClasses (single : Bool) (k : Nat) (entries : List Entry) :
    InClasses sourcePlace (sources single k entries) ↔ InClasses Entry.place entries := by
  rw [InClasses, InClasses, ← List.pairwise_map, sources_places, List.pairwise_map]

theorem constructs {s : Struct} {entries : List Entry} {single : Bool} {tys : List String}
    {tokens : ArgsTokens} {runs : List (Run types tys (Val types))}
    (parsed : List.Forall₂ (fun field entry => parseField field = .ok entry) s.fields entries)
    (ordered : s.isUnnamed = true → InClasses Entry.place entries)
    (elaborated : List.Forall₂ (Elaborates types tokens tys)
      (s.fields.zip (sources single 0 entries)) runs) :
    ∃ run, (if s.isUnnamed then
          constructTuple types tokens tys s.fields
            (byClass sourcePlace 3 (sources single 0 entries))
        else constructNamed types tokens tys s.fields
          (byClass sourcePlace 3 (sources single 0 entries))) = .ok run ∧
      ∀ args bindings values, run args bindings = .ok values ↔ AllOk runs args bindings values := by
  have even : s.fields.length = (sources single 0 entries).length := by
    rw [sources_length, parsed.length_eq]
  have below := fun item (_ : item ∈ sources single 0 entries) => sourcePlace_lt item
  cases shape : s.isUnnamed with
  | true =>
    have kept := (byClass_eq_iff below).mpr ((sources_inClasses _ 0 _).mpr (ordered shape))
    rw [if_pos rfl, kept]
    exact tuple_computes even elaborated
  | false =>
    rw [if_neg Bool.false_ne_true]
    exact named_computes (s.named shape).2 (sources_idents parsed) (byClass_perm below) elaborated

theorem orderly_puts_right {s : Struct} {entries : List Entry}
    (parsed : List.Forall₂ (fun field entry => parseField field = .ok entry) s.fields entries)
    (orderly : Orderly s entries) : PutsRight s entries (expand s.isUnnamed
      ⟨entries.filterMap Entry.binding, entries.filterMap Entry.other⟩) := by
  intro types implements
  obtain ⟨more, ordered⟩ := orderly
  obtain ⟨runs, elaborated, builds⟩ := @elab_sources types _ (alone entries)
    (alone_explicit more) 0 _ _ parsed implements rfl
  obtain ⟨run, made, computes⟩ := constructs parsed ordered elaborated
  refine ⟨⟨_, run⟩, ?_, right_of_builds builds rfl computes⟩
  unfold compile
  rw [argTypes_ok.mpr ⟨more, rfl⟩, Except.bind, expand_body, expand_args]
  exact mapped_ok.mpr ⟨run, made, rfl⟩

inductive Mark where
  | arg (i : Nat)
  | default
  | parsed (text : String)
deriving DecidableEq, Repr

def marks : Types where
  Resolved := Unit
  decEq := inferInstance
  resolve := fun _ => ()
  Carrier := fun _ => Mark
  default := fun _ => some .default
  fromStr := fun _ => some fun text => .ok (.parsed text)

def markArgs (tys : List String) : Args marks tys := fun i => Mark.arg i

def markOf : Expr → Mark
  | .args => .arg 0
  | .argsAt i => .arg i
  | .default => .default
  | .fromStr domainId => .parsed domainId

def markVal (item : Option String × Expr) : Val marks := ⟨(), markOf item.2⟩

def ownNames (names : List String) : DomainIdBindings where
  entries := names.dedup.map fun name => (name, name)
  distinct := by
    rw [List.map_map]
    exact names.nodup_dedup.map Function.injective_id

theorem ownNames_get {names : List String} {name : String} (listed : name ∈ names) :
    (ownNames names).get name = some name :=
  NumberedLists.lookup_of_mem (ownNames names).distinct
    (List.mem_map.mpr ⟨name, List.mem_dedup.mpr listed, rfl⟩)

theorem ownNames_same {names : List String} {name text : String}
    (bound : (ownNames names).get name = some text) : text = name := by
  obtain ⟨_, _, split, _⟩ := List.lookup_eq_some_iff.mp bound
  have member : (name, text) ∈ (ownNames names).entries := by
    rw [split]
    exact List.mem_append_right _ List.mem_cons_self
  obtain ⟨own, _, same⟩ := List.mem_map.mp member
  obtain ⟨rfl, rfl⟩ := Prod.mk.inj same
  rfl

theorem marks_run {tokens : ArgsTokens} {tys names : List String} {ty : String}
    {item : Option String × Expr} {run : Run marks tys (Val marks)}
    (listed : ∀ name, item.2 = .fromStr name → name ∈ names)
    (elaborated : elabExpr marks tokens tys ty item.2 = .ok run) :
    run (markArgs tys) (ownNames names) = .ok (markVal item) := by
  have given : ∀ i, argument marks tys ty i = .ok run →
      run (markArgs tys) (ownNames names) = .ok ⟨(), Mark.arg i⟩ := by
    intro i made
    unfold argument at made
    split at made
    · split at made
      · obtain rfl := Except.ok.inj made
        rfl
      · exact absurd made (by simp)
    · exact absurd made (by simp)
  obtain ⟨ident, expr⟩ := item
  cases expr with
  | args =>
    cases tokens with
    | bare items => exact given 0 elaborated
    | tuple items => exact absurd elaborated (by simp [elabExpr])
  | argsAt i =>
    cases tokens with
    | bare items => exact absurd elaborated (by simp [elabExpr])
    | tuple items => exact given i elaborated
  | default =>
    obtain rfl := Except.ok.inj elaborated
    rfl
  | fromStr name =>
    obtain rfl := Except.ok.inj elaborated
    dsimp only
    rw [ownNames_get (listed name rfl)]
    rfl

theorem marks_built {tys names : List String} {single : Bool}
    (one : single = true → tys.length = 1) {k : Nat} {fields : List Field} {entries : List Entry}
    {values : List (Val marks)}
    (built : Built (markArgs tys) (ownNames names) k fields entries values) :
    values = (sources single k entries).map markVal := by
  induction built with
  | nil => rfl
  | @cons k field entry value fields entries values here later ih =>
    rw [sources, List.map_cons, ← ih]
    congr 1
    cases here with
    | explicit within =>
      cases single with
      | false => rfl
      | true =>
        have first : k = 0 := by
          have length := one rfl
          omega
        subst first
        rfl
    | default known =>
      obtain rfl := Option.some.inj known
      rfl
    | domainId bound known parsed =>
      obtain rfl := Option.some.inj known
      obtain rfl := Except.ok.inj parsed
      rw [ownNames_same bound]
      rfl

def markPlace : Mark → Nat
  | .arg _ => 0
  | .default => 1
  | .parsed _ => 2

theorem markVal_place (item : Option String × Expr) :
    markPlace (markVal item).2 = sourcePlace item := by
  obtain ⟨ident, _ | _ | _ | _⟩ := item <;> rfl

def boundNames (entries : List Entry) : List String :=
  (entries.filterMap Entry.binding).map Prod.snd

theorem sources_names {single : Bool} {k : Nat} {entries : List Entry}
    {item : Option String × Expr} (member : item ∈ sources single k entries)
    {name : String} (parses : item.2 = .fromStr name) :
    name ∈ boundNames entries := by
  induction entries generalizing k with
  | nil => exact absurd member List.not_mem_nil
  | cons entry rest ih =>
    unfold boundNames at ih ⊢
    rw [filterMap_first, List.map_append]
    rcases List.mem_cons.mp member with rfl | later
    · apply List.mem_append_left
      rcases entry with ⟨ident, own⟩ | ⟨ident, ty | _⟩
      · obtain rfl := Expr.fromStr.inj parses
        exact List.mem_singleton.mpr rfl
      · cases single <;> exact absurd parses (by simp [source])
      · exact absurd parses (by simp [source])
    · exact List.mem_append_right _ (ih later)

theorem marks_tuple {tokens : ArgsTokens} {tys names : List String} {fields : List Field}
    {body : List (Option String × Expr)}
    (listed : ∀ item ∈ body, ∀ name, item.2 = .fromStr name → name ∈ names)
    {run : Run marks tys (List (Val marks))}
    (constructed : constructTuple marks tokens tys fields body = .ok run) :
    run (markArgs tys) (ownNames names) = .ok (body.map markVal) := by
  unfold constructTuple at constructed
  split at constructed
  · rename_i even
    obtain ⟨runs, made, rfl⟩ := mapped_ok.mp constructed
    have items : body.map markVal = (fields.zip body).map fun pair => markVal pair.2 := by
      have second : (fields.zip body).map Prod.snd = body :=
        List.map_snd_zip (Nat.le_of_eq even.symm)
      exact (congrArg (List.map markVal) second.symm).trans List.map_map
    have within : ∀ pair ∈ fields.zip body, pair.2 ∈ body := fun pair member =>
      (List.of_mem_zip member).2
    apply mapM_ok.mpr
    rw [items, List.forall₂_map_right_iff]
    apply List.Forall₂.flip
    apply ((List.forall₂_and_left _ _).mpr ⟨within, mapM_ok.mp made⟩).imp
    rintro pair run ⟨member, elaborated⟩
    exact marks_run (listed pair.2 member) elaborated
  · exact absurd constructed (by simp)

theorem marks_implement (field : Field) (entry : Entry) : Implements marks field entry := by
  rcases entry with ⟨ident, name⟩ | ⟨ident, ty | _⟩
  · rfl
  · trivial
  · rfl

theorem puts_right_orderly {s : Struct} {entries : List Entry}
    (right : PutsRight s entries (expand s.isUnnamed
      ⟨entries.filterMap Entry.binding, entries.filterMap Entry.other⟩)) : Orderly s entries := by
  obtain ⟨c, compiled, good⟩ := right marks fun pair _ => marks_implement pair.1 pair.2
  obtain ⟨tys, typed, made⟩ := bind_ok.mp compiled
  obtain ⟨more, rfl⟩ := argTypes_ok.mp typed
  refine ⟨more, ?_⟩
  intro shape
  obtain ⟨run, constructed, rfl⟩ := mapped_ok.mp made
  have unnamed : (expand s.isUnnamed ⟨entries.filterMap Entry.binding,
      entries.filterMap Entry.other⟩).isUnnamed = true := shape
  rw [unnamed, if_pos rfl, expand_body] at constructed
  have written := marks_tuple (fun item member name parses =>
    sources_names (mem_byClass member).1 parses) constructed
  have declared := marks_built (alone_explicit more) (good.built _ _ _ written)
  have places : (byClass sourcePlace 3 (sources (alone entries) 0 entries)).map sourcePlace =
      entries.map Entry.place := by
    have same := congrArg (List.map fun v : Val marks => markPlace v.2) declared
    rw [List.map_map, List.map_map] at same
    have shown : ((fun v : Val marks => markPlace v.2) ∘ markVal) = sourcePlace :=
      funext markVal_place
    rw [shown] at same
    exact same.trans (sources_places _ 0 _)
  have ordered := byClass_inClasses sourcePlace 3 (sources (alone entries) 0 entries)
  rw [InClasses, ← List.pairwise_map, places] at ordered
  exact List.pairwise_map.mp ordered

/-- The derived constructor puts every value in its own field exactly when a default field is
    not alone besides the domain ids, and a tuple struct declares its fields in the order that
    the body has. -/
theorem derived_right_iff {s : Struct} {g : Generated} (accepted : derive s = .ok g) :
    ∃ entries, List.Forall₂ (fun field entry => parseField field = .ok entry) s.fields entries ∧
      (PutsRight s entries g ↔ Orderly s entries) := by
  obtain ⟨attrs, parsed, rfl⟩ := mapped_ok.mp accepted
  obtain ⟨entries, related, rfl⟩ := parse_ok.mp parsed
  exact ⟨entries, related, puts_right_orderly, orderly_puts_right related⟩

end orderly

section sample

def limit : Struct where
  isUnnamed := true
  fields := [⟨none, "u32", []⟩, ⟨none, "String", [⟨"from_domain_id", .list ["default"]⟩]⟩,
    ⟨none, "String", [⟨"domain_id", .nameValue (some "user_id")⟩]⟩]
  unnamed := by decide
  named := nofun

theorem limit_right : ∃ g entries, derive limit = .ok g ∧ PutsRight limit entries g := by
  have accepts : (derive limit).toOption.isSome = true := by decide +kernel
  obtain ⟨g, accepted⟩ := Option.isSome_iff_exists.mp accepts
  obtain ⟨entries, parsed, right⟩ := derived_right_iff (toOption_ok.mp accepted)
  have known : limit.fields.mapM parseField = .ok [.nonDomainId none (.explicit "u32"),
      .nonDomainId none .default, .domainId none "user_id"] := by decide +kernel
  obtain rfl := Except.ok.inj ((mapM_ok.mpr parsed).symm.trans known)
  refine ⟨g, _, toOption_ok.mp accepted, right.mpr ⟨by decide, ?_⟩⟩
  intro _
  unfold InClasses
  decide

def myFold : Struct where
  isUnnamed := false
  fields := [⟨some "user_id", "u64", [⟨"domain_id", .path⟩]⟩,
    ⟨some "custom_field", "String", [⟨"from_domain_id", .list ["default"]⟩]⟩]
  unnamed := nofun
  named := by decide

def userNote : Struct where
  isUnnamed := true
  fields := [⟨none, "String", [⟨"domain_id", .nameValue (some "user_id")⟩]⟩,
    ⟨none, "String", []⟩]
  unnamed := by decide
  named := nofun

def texts : Types where
  Resolved := Unit
  decEq := inferInstance
  resolve := fun _ => ()
  Carrier := fun _ => String
  default := fun _ => some ""
  fromStr := fun _ => some .ok

def constructed (s : Struct) (text : String) (bindings : DomainIdBindings) : Option (List String) :=
  (derive s).toOption.bind fun g => (compile texts s g).toOption.bind fun c =>
    ((c.fromDomainIds (fun _ => text) bindings).toOption).map fun values =>
      values.map fun value => value.2

theorem my_fold_refused : ∃ g, derive myFold = .ok g ∧
    ∀ types, compile types myFold g = .error "expected type, found `;`" := by
  have known : (derive myFold).toOption.map Generated.args = some (.bare []) := by decide +kernel
  obtain ⟨g, accepted, bare⟩ := Option.map_eq_some_iff.mp known
  refine ⟨g, toOption_ok.mp accepted, ?_⟩
  intro types
  unfold compile
  rw [bare]
  rfl

/-- The manual's fold does not compile, and the two texts of a note change places. -/
theorem derived_constructor_fails :
    (¬ ∀ s g entries, derive s = .ok g →
      List.Forall₂ (fun field entry => parseField field = .ok entry) s.fields entries →
        PutsRight s entries g) ∧
    constructed userNote "note" ⟨[("user_id", "u1")], List.nodup_singleton _⟩ =
      some ["note", "u1"] := by
  constructor
  · intro claim
    obtain ⟨g, accepted, refused⟩ := my_fold_refused
    obtain ⟨attrs, parsed, _⟩ := mapped_ok.mp accepted
    obtain ⟨entries, related, _⟩ := parse_ok.mp parsed
    obtain ⟨c, compiled, _⟩ := claim myFold g entries accepted related marks
      fun pair _ => marks_implement pair.1 pair.2
    exact absurd ((refused marks).symm.trans compiled) (by simp)
  · decide +kernel

end sample

end UmariConstructorSources
