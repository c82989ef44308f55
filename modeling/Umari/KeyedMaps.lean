import Mathlib.Data.List.AList

/-!
Finite maps by key, as Mathlib's association lists over one value type: lookup
after an insertion or an erasure as one statement each, and the search for an
entry by its value.
-/
namespace KeyedMaps
universe u v
variable {K : Type u} {V : Type v} [DecidableEq K]

abbrev KeyedMap (K : Type u) (V : Type v) := AList fun _ : K => V

theorem lookup_insert_some {m : KeyedMap K V} {k k' : K} {v w : V} :
    (m.insert k v).lookup k' = some w ↔ (k' = k ∧ v = w) ∨ (k' ≠ k ∧ m.lookup k' = some w) := by
  by_cases same : k' = k
  · subst same
    simp
  · rw [AList.lookup_insert_ne same]
    simp [same]

theorem lookup_erase_some {m : KeyedMap K V} {k k' : K} {w : V} :
    (m.erase k).lookup k' = some w ↔ k' ≠ k ∧ m.lookup k' = some w := by
  by_cases same : k' = k
  · subst same
    simp
  · rw [AList.lookup_erase_ne same]
    simp [same]

theorem lookup_erase_none {m : KeyedMap K V} {k k' : K} :
    (m.erase k).lookup k' = none ↔ k' = k ∨ m.lookup k' = none := by
  by_cases same : k' = k
  · subst same
    simp
  · rw [AList.lookup_erase_ne same]
    simp [same]

/-- The first entry that passes a test, in no order that matters to a caller whose
    test singles out one entry. -/
def findEntry (m : KeyedMap K V) (p : K → V → Bool) : Option (K × V) :=
  (m.entries.find? fun entry => p entry.1 entry.2).map fun entry => (entry.1, entry.2)

def anyEntry (m : KeyedMap K V) (p : K → V → Bool) : Bool :=
  m.entries.any fun entry => p entry.1 entry.2

theorem mem_entries {m : KeyedMap K V} {k : K} {v : V} :
    (⟨k, v⟩ : Sigma fun _ : K => V) ∈ m.entries ↔ m.lookup k = some v :=
  AList.mem_lookup_iff.symm

theorem findEntry_some {m : KeyedMap K V} {p : K → V → Bool} {k : K} {v : V}
    (found : findEntry m p = some (k, v)) : m.lookup k = some v ∧ p k v = true := by
  obtain ⟨⟨key, value⟩, seen, same⟩ := Option.map_eq_some_iff.mp found
  obtain ⟨rfl, rfl⟩ := Prod.mk.inj same
  constructor
  · exact mem_entries.mp (List.mem_of_find?_eq_some seen)
  · have passes := List.find?_some seen
    exact passes

theorem anyEntry_iff {m : KeyedMap K V} {p : K → V → Bool} :
    anyEntry m p = true ↔ ∃ k v, m.lookup k = some v ∧ p k v = true := by
  rw [anyEntry, List.any_eq_true]
  constructor
  · rintro ⟨⟨k, v⟩, member, passes⟩
    exact ⟨k, v, mem_entries.mp member, passes⟩
  · rintro ⟨k, v, found, passes⟩
    exact ⟨⟨k, v⟩, mem_entries.mpr found, passes⟩

theorem anyEntry_false {m : KeyedMap K V} {p : K → V → Bool} :
    anyEntry m p = false ↔ ∀ k v, m.lookup k = some v → p k v = false := by
  rw [← Bool.not_eq_true, anyEntry_iff]
  constructor
  · intro none k v found
    by_contra passes
    exact none ⟨k, v, found, by simpa using passes⟩
  · rintro none ⟨k, v, found, passes⟩
    exact Bool.false_ne_true ((none k v found).symm.trans passes)

theorem lookup_foldl {W : Type v} {f : V → W} {s : KeyedMap K W → K → V → KeyedMap K W}
    (law : ∀ m k v k', (s m k v).lookup k' = if k' = k then some (f v) else m.lookup k')
    (entries : List (Sigma fun _ : K => V)) (distinct : entries.NodupKeys)
    (m : KeyedMap K W) (k : K) :
    (entries.foldl (fun m entry => s m entry.1 entry.2) m).lookup k =
      ((entries.dlookup k).map f).or (m.lookup k) := by
  induction entries generalizing m with
  | nil => rfl
  | cons entry rest ih =>
    obtain ⟨key, value⟩ := entry
    obtain ⟨fresh, tail⟩ := List.nodupKeys_cons.mp distinct
    rw [List.foldl_cons, ih tail, law]
    by_cases same : k = key
    · subst same
      have absent : rest.dlookup k = none := List.dlookup_eq_none.mpr fresh
      simp [absent]
    · have skip : List.dlookup k (⟨key, value⟩ :: rest) = rest.dlookup k :=
        List.dlookup_cons_ne rest ⟨key, value⟩ same
      rw [skip, if_neg same]

end KeyedMaps
