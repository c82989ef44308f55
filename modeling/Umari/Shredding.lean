import Umari.GuardedRuns
import Umari.NumberedLists
import Umari.SealedEvents

/-!
Commits and key deletions in any order. A commit takes the key of a scope in one
request to the module store, keeps it for its other events, and appends later; a
deletion is a request of its own. `appended` and `deletions` record the history: what
each event of the log was committed with, and how long the log was at each deletion.
-/
namespace UmariShredding
open FallibleFolds GuardedRuns NumberedLists UmariEventStore UmariStoredEvents UmariTransactions
open UmariCryptoKeys UmariSealedEvents
variable {V : Type}

structure Commit (V : Type) where
  item : TransactionItem
  envelope : EventEnvelope
  pending : List (PendingEvent V)
  cryptoKeys : List (String × Uuid × CryptoKey)
  batch : List (PendingEvent V × Event)

structure System (V : Type) where
  keys : CryptoKeys
  log : List Event
  commits : List (Option (Commit V))
  appended : List (PendingEvent V)
  deletions : List (String × Nat)

inductive Action where
  | start (item : TransactionItem) (envelope : EventEnvelope) (events : List EmitEvent)
  | encode (index : Nat) (fresh : Uuid × CryptoKey)
  | append (index : Nat)
  | delete (scope : String)
deriving DecidableEq, Repr

def initial (keys : CryptoKeys) : System V := ⟨keys, [], [], [], []⟩

namespace System

def commit (s : System V) (index : Nat) : Option (Commit V) := (s.commits[index]?).join

def setCommit (s : System V) (index : Nat) (commit : Option (Commit V)) : System V :=
  { s with commits := s.commits.set index commit }

end System

/-- The scope whose key the encoding of an event asks the module store for. -/
def asksFor (cryptoKeys : List (String × Uuid × CryptoKey)) (pending : PendingEvent V) :
    Option String :=
  pending.encryptionScope.filter fun scope => (cryptoKeys.lookup scope).isNone

def createAnswer (keys : CryptoKeys) (fresh : Uuid × CryptoKey) (scope : String) :
    Except String (Uuid × CryptoKey) := (createCryptoKey keys scope fresh).map (·.2)

def keysAfter (keys : CryptoKeys) (fresh : Uuid × CryptoKey) : Option String → CryptoKeys
  | none => keys
  | some scope => handleRequest keys (.create scope fresh)

def step (codec : Codec V) (rules : NameRules) (s : System V) : Action → Option (System V)
  | .start item envelope events =>
    match events.mapM (pendingEvent codec rules) with
    | .error _ => some s
    | .ok pending =>
      some { s with commits := s.commits ++ [some ⟨item, envelope, pending, [], []⟩] }
  | .encode index fresh =>
    match s.commit index with
    | none => none
    | some commit =>
      match commit.pending with
      | [] => none
      | pending :: rest =>
        let asked := { s with
          keys := keysAfter s.keys fresh (asksFor commit.cryptoKeys pending) }
        match encodeEvent codec rules (createAnswer s.keys fresh) commit.envelope commit.cryptoKeys
            pending with
        | .error _ => some (asked.setCommit index none)
        | .ok (cached, event) => some (asked.setCommit index (some { commit with
            pending := rest
            cryptoKeys := cached
            batch := commit.batch ++ [(pending, event)] }))
  | .append index =>
    match s.commit index with
    | none => none
    | some commit =>
      match commit.pending with
      | _ :: _ => none
      | [] =>
        match appendBatch s.log commit.item (commit.batch.map (·.2)) with
        | .error _ => some (s.setCommit index none)
        | .ok (log, _) => some { (s.setCommit index none) with
            log := log
            appended := s.appended ++ commit.batch.map (·.1) }
  | .delete scope => some { s with
      keys := deleteCryptoKey s.keys scope
      deletions := s.deletions ++ [(scope, s.log.length)] }

/-- The events appended after the last deletion of their scope's key can be read, those
    appended before one cannot. -/
def Separates (codec : Codec V) (reread : V → V) (s : System V) : Prop :=
  ∀ (i : Nat) p event scope, s.appended[i]? = some p → s.log[i]? = some event →
    p.encryptionScope = some scope →
    ((∀ n, (scope, n) ∈ s.deletions → n ≤ i) →
      ReadsAs codec s.keys event (.decrypted (reread p.data))) ∧
    ((∃ n, (scope, n) ∈ s.deletions ∧ i < n) → ReadsAs codec s.keys event .cryptoShredded)

def keysLive (s : System V) : Action → Bool
  | .append index =>
    match s.commit index with
    | none => true
    | some commit =>
      match appendBatch s.log commit.item (commit.batch.map (·.2)) with
      | .error _ => true
      | .ok _ => commit.cryptoKeys.all fun entry =>
          decide (getCryptoKeyById s.keys entry.2.1 = some entry.2.2)
  | _ => true

/-- The row of a key handed out for a scope: live, or cleared since. -/
def Handed (keys : CryptoKeys) (scope : String) (key : Uuid × CryptoKey) : Prop :=
  ∃ held, (held = some key.2 ∨ held = none) ∧ ⟨key.1, scope, held⟩ ∈ keys.rows

/-- The row of the key an event is stored under: cleared by exactly the deletions that
    came after the event. -/
def Stands (keys : CryptoKeys) (deletions : List (String × Nat)) (i : Nat) (scope : String)
    (key : Uuid × CryptoKey) : Prop :=
  (⟨key.1, scope, some key.2⟩ ∈ keys.rows ∧ ∀ n, (scope, n) ∈ deletions → n ≤ i) ∨
  (⟨key.1, scope, none⟩ ∈ keys.rows ∧ ∃ n, (scope, n) ∈ deletions ∧ i < n)

section sound
variable (codec : Codec V) (nesting : V → Nat) (limit : Nat)

structure Sound (keys : CryptoKeys) (commit : Commit V) : Prop where
  parsed : ∀ p ∈ commit.pending, nesting p.data ≤ limit
  handed : ∀ entry ∈ commit.cryptoKeys, Handed keys entry.1 entry.2
  used : ∀ entry ∈ commit.cryptoKeys, ∃ made ∈ commit.batch,
    made.1.encryptionScope = some entry.1 ∧
      StoredAs codec commit.envelope made.1 (some entry.2) made.2
  encoded : ∀ made ∈ commit.batch, nesting made.1.data ≤ limit ∧
    ∀ scope, made.1.encryptionScope = some scope → ∃ key, (scope, key) ∈ commit.cryptoKeys ∧
      StoredAs codec commit.envelope made.1 (some key) made.2

structure Inv (s : System V) : Prop where
  aligned : s.log.length = s.appended.length
  past : ∀ entry ∈ s.deletions, entry.2 ≤ s.log.length
  committed : ∀ (i : Nat) p event scope, s.appended[i]? = some p → s.log[i]? = some event →
    p.encryptionScope = some scope → nesting p.data ≤ limit ∧
      ∃ envelope key, StoredAs codec envelope p (some key) event ∧
        Stands s.keys s.deletions i scope key
  running : ∀ index commit, s.commit index = some commit → Sound codec nesting limit s.keys commit

end sound

section keys
variable {keys : CryptoKeys} {fresh : Uuid × CryptoKey} {asked : Option String} {scope : String}
  {key : Uuid × CryptoKey}

theorem rows_keysAfter {row : KeyRow} (member : row ∈ keys.rows) :
    row ∈ (keysAfter keys fresh asked).rows := by
  cases asked with
  | none => exact member
  | some scope =>
    obtain ⟨id, bound, held⟩ := row
    have kept := row_request member (.create scope fresh)
    rw [if_neg (by simp)] at kept
    exact kept

theorem handed_keysAfter (handed : Handed keys scope key) :
    Handed (keysAfter keys fresh asked) scope key := by
  obtain ⟨held, known, member⟩ := handed
  exact ⟨held, known, rows_keysAfter member⟩

theorem stands_keysAfter {deletions : List (String × Nat)} {i : Nat}
    (stands : Stands keys deletions i scope key) :
    Stands (keysAfter keys fresh asked) deletions i scope key :=
  stands.imp (And.imp_left rows_keysAfter) (And.imp_left rows_keysAfter)

theorem handed_delete (handed : Handed keys scope key) (other : String) :
    Handed (deleteCryptoKey keys other) scope key := by
  obtain ⟨held, known, member⟩ := handed
  have row := row_request member (.delete other)
  split at row
  · exact ⟨none, Or.inr rfl, row⟩
  · exact ⟨held, known, row⟩

theorem stands_delete {deletions : List (String × Nat)} {i length : Nat}
    (stands : Stands keys deletions i scope key) (before : i < length) (other : String) :
    Stands (deleteCryptoKey keys other) (deletions ++ [(other, length)]) i scope key := by
  rcases stands with ⟨member, later⟩ | ⟨member, n, deleted, after⟩
  · have row := row_request member (.delete other)
    by_cases same : other = scope
    · subst same
      rw [if_pos rfl] at row
      exact Or.inr ⟨row, length, by simp, before⟩
    · rw [if_neg (by simpa using same)] at row
      refine Or.inl ⟨row, ?_⟩
      intro n deleted
      rcases List.mem_append.mp deleted with old | new
      · exact later n old
      · exact absurd (Prod.mk.inj (List.mem_singleton.mp new)).1.symm same
  · have row := row_request member (.delete other)
    rw [ite_self] at row
    exact Or.inr ⟨row, n, List.mem_append_left _ deleted, after⟩

theorem handed_answer (answered : createAnswer keys fresh scope = .ok key) :
    Handed (handleRequest keys (.create scope fresh)) scope key := by
  unfold createAnswer at answered
  cases created : createCryptoKey keys scope fresh with
  | error err => simp [created, Except.map] at answered
  | ok result =>
    obtain ⟨after, made⟩ := result
    obtain rfl : made = key := by simpa [created, Except.map] using answered
    refine ⟨some made.2, Or.inl rfl, ?_⟩
    rw [handleRequest, created]
    exact (createCryptoKey_ok created).1

end keys

section commits
variable {s : System V} {index other : Nat} {old : Commit V}

theorem commit_setCommit (found : s.commit index = some old) (new : Option (Commit V)) :
    (s.setCommit index new).commit other = if index = other then new else s.commit other := by
  have inside : index < s.commits.length := by
    by_contra outside
    simp [System.commit, List.getElem?_eq_none (Nat.not_lt.mp outside)] at found
  by_cases same : index = other
  · subst same
    simp [System.commit, System.setCommit, inside]
  · simp [System.commit, System.setCommit, List.getElem?_set_ne same, same]

theorem commit_snoc {new commit : Commit V}
    (found : (System.commit { s with commits := s.commits ++ [some new] } other) = some commit) :
    s.commit other = some commit ∨ commit = new := by
  rcases entry_snoc.mp (Option.join_eq_some_iff.mp found) with old | ⟨_, same⟩
  · exact Or.inl (Option.join_eq_some_iff.mpr old)
  · exact Or.inr (Option.some.inj same).symm

end commits

section steps
variable {codec : Codec V} {reread : V → V} {nesting : V → Nat} {limit : Nat}
  {rules : NameRules} {s t : System V}

theorem inv_setCommit (inv : Inv codec nesting limit s) {index : Nat} {old : Commit V}
    (found : s.commit index = some old) {new : Option (Commit V)}
    (sound : ∀ commit, new = some commit → Sound codec nesting limit s.keys commit) :
    Inv codec nesting limit (s.setCommit index new) := by
  constructor
  · exact inv.aligned
  · exact inv.past
  · exact inv.committed
  · intro other commit here
    rw [commit_setCommit found] at here
    split at here
    · exact sound commit here
    · exact inv.running other commit here

theorem sound_keysAfter {keys : CryptoKeys} {commit : Commit V}
    (sound : Sound codec nesting limit keys commit) (fresh : Uuid × CryptoKey)
    (asked : Option String) : Sound codec nesting limit (keysAfter keys fresh asked) commit where
  parsed := sound.parsed
  handed := fun entry member => handed_keysAfter (sound.handed entry member)
  used := sound.used
  encoded := sound.encoded

theorem inv_start (rereads : Rereads codec reread nesting limit) (inv : Inv codec nesting limit s)
    {item : TransactionItem} {envelope : EventEnvelope} {events : List EmitEvent}
    (taken : step codec rules s (.start item envelope events) = some t) :
    Inv codec nesting limit t := by
  simp only [step] at taken
  cases parsed : events.mapM (pendingEvent codec rules) with
  | error err =>
    rw [parsed] at taken
    obtain rfl := Option.some.inj taken
    exact inv
  | ok pending =>
    rw [parsed] at taken
    obtain rfl := Option.some.inj taken
    constructor
    · exact inv.aligned
    · exact inv.past
    · exact inv.committed
    · intro index commit found
      rcases commit_snoc found with old | rfl
      · exact inv.running index commit old
      · constructor
        · intro p member
          obtain ⟨e, _, made⟩ := forall₂_exists_left (mapM_ok.mp parsed) member
          exact rereads.parsed _ _ (pendingEvent_ok made).data
        · exact fun entry member => absurd member List.not_mem_nil
        · exact fun entry member => absurd member List.not_mem_nil
        · exact fun made member => absurd member List.not_mem_nil

theorem sound_encoded (keeps : KeepsData rules) {commit : Commit V} {p : PendingEvent V}
    {rest : List (PendingEvent V)} {fresh : Uuid × CryptoKey}
    {cached : List (String × Uuid × CryptoKey)} {event : Event} {keys : CryptoKeys}
    (sound : Sound codec nesting limit keys commit) (next : commit.pending = p :: rest)
    (encoded : encodeEvent codec rules (createAnswer keys fresh) commit.envelope
      commit.cryptoKeys p = .ok (cached, event)) :
    Sound codec nesting limit (keysAfter keys fresh (asksFor commit.cryptoKeys p))
      { commit with
        pending := rest
        cryptoKeys := cached
        batch := commit.batch ++ [(p, event)] } := by
  have within : nesting p.data ≤ limit := sound.parsed p (by simp [next])
  have others : ∀ q ∈ rest, nesting q.data ≤ limit := by
    intro q member
    exact sound.parsed q (by simp [next, member])
  rcases encodeEvent_ok keeps encoded with ⟨rfl, unscoped, stored⟩ |
      ⟨scope, key, rfl, underScope, taken, stored⟩
  · constructor
    · exact others
    · exact fun entry member => handed_keysAfter (sound.handed entry member)
    · intro entry member
      obtain ⟨made, among, use⟩ := sound.used entry member
      exact ⟨made, List.mem_append_left _ among, use⟩
    · intro made member
      rcases List.mem_append.mp member with old | new
      · exact sound.encoded made old
      · obtain rfl := List.mem_singleton.mp new
        refine ⟨within, ?_⟩
        intro scope under
        exact absurd (unscoped.symm.trans under) (by simp)
  · have handed : Handed (keysAfter keys fresh (asksFor commit.cryptoKeys p)) scope key := by
      rcases taken with found | ⟨absent, answered⟩
      · obtain ⟨before, after, parts, _⟩ := List.lookup_eq_some_iff.mp found
        have member : (scope, key) ∈ commit.cryptoKeys := by
          rw [parts]
          exact List.mem_append_right _ List.mem_cons_self
        exact handed_keysAfter (sound.handed (scope, key) member)
      · have asks : asksFor commit.cryptoKeys p = some scope := by
          simp [asksFor, underScope, absent]
        rw [asks]
        exact handed_answer answered
    constructor
    · exact others
    · intro entry member
      rcases List.mem_cons.mp member with rfl | old
      · exact handed
      · exact handed_keysAfter (sound.handed entry old)
    · intro entry member
      rcases List.mem_cons.mp member with rfl | old
      · exact ⟨(p, event), by simp, underScope, stored⟩
      · obtain ⟨made, among, use⟩ := sound.used entry old
        exact ⟨made, List.mem_append_left _ among, use⟩
    · intro made member
      rcases List.mem_append.mp member with old | new
      · obtain ⟨small, keyed⟩ := sound.encoded made old
        refine ⟨small, ?_⟩
        intro scope under
        obtain ⟨held, among, use⟩ := keyed scope under
        exact ⟨held, List.mem_cons_of_mem _ among, use⟩
      · obtain rfl := List.mem_singleton.mp new
        refine ⟨within, ?_⟩
        intro other under
        obtain rfl := Option.some.inj (underScope.symm.trans under)
        exact ⟨key, List.mem_cons_self, stored⟩

theorem inv_encode (keeps : KeepsData rules) (inv : Inv codec nesting limit s) {index : Nat}
    {fresh : Uuid × CryptoKey} (taken : step codec rules s (.encode index fresh) = some t) :
    Inv codec nesting limit t := by
  simp only [step] at taken
  cases found : s.commit index with
  | none => simp [found] at taken
  | some commit =>
    cases next : commit.pending with
    | nil => simp [found, next] at taken
    | cons p rest =>
      simp only [found, next] at taken
      have asked : Inv codec nesting limit { s with
          keys := keysAfter s.keys fresh (asksFor commit.cryptoKeys p) } := by
        constructor
        · exact inv.aligned
        · exact inv.past
        · intro i q event scope here logged under
          obtain ⟨small, envelope, key, stored, stands⟩ :=
            inv.committed i q event scope here logged under
          exact ⟨small, envelope, key, stored, stands_keysAfter stands⟩
        · exact fun other running here => sound_keysAfter (inv.running other running here) _ _
      cases encoded : encodeEvent codec rules (createAnswer s.keys fresh) commit.envelope
          commit.cryptoKeys p with
      | error err =>
        rw [encoded] at taken
        obtain rfl := Option.some.inj taken
        exact inv_setCommit asked found fun commit none => nomatch none
      | ok result =>
        obtain ⟨cached, event⟩ := result
        rw [encoded] at taken
        obtain rfl := Option.some.inj taken
        apply inv_setCommit asked found
        intro new same
        obtain rfl := Option.some.inj same
        exact sound_encoded keeps (inv.running index commit found) next encoded

theorem inv_delete (inv : Inv codec nesting limit s) {scope : String}
    (taken : step codec rules s (.delete scope) = some t) : Inv codec nesting limit t := by
  obtain rfl := Option.some.inj taken
  constructor
  · exact inv.aligned
  · intro entry member
    rcases List.mem_append.mp member with old | new
    · exact inv.past entry old
    · obtain rfl := List.mem_singleton.mp new
      exact Nat.le_refl _
  · intro i p event other here logged under
    obtain ⟨small, envelope, key, stored, stands⟩ :=
      inv.committed i p event other here logged under
    have inside : i < s.log.length := (List.getElem?_eq_some_iff.mp logged).1
    exact ⟨small, envelope, key, stored, stands_delete stands inside scope⟩
  · intro index commit here
    have sound := inv.running index commit here
    constructor
    · exact sound.parsed
    · exact fun entry member => handed_delete (sound.handed entry member) scope
    · exact sound.used
    · exact sound.encoded

theorem append_cases {index : Nat} (taken : step codec rules s (.append index) = some t) :
    ∃ commit, s.commit index = some commit ∧
      ((∃ err, appendBatch s.log commit.item (commit.batch.map (·.2)) = .error err ∧
          t = s.setCommit index none) ∨
        ∃ position, appendBatch s.log commit.item (commit.batch.map (·.2)) =
            .ok (s.log ++ commit.batch.map (·.2), position) ∧
          t = { (s.setCommit index none) with
            log := s.log ++ commit.batch.map (·.2)
            appended := s.appended ++ commit.batch.map (·.1) }) := by
  simp only [step] at taken
  cases found : s.commit index with
  | none => simp [found] at taken
  | some commit =>
    refine ⟨commit, rfl, ?_⟩
    cases next : commit.pending with
    | cons p rest => simp [found, next] at taken
    | nil =>
      simp only [found, next] at taken
      cases stored : appendBatch s.log commit.item (commit.batch.map (·.2)) with
      | error err =>
        rw [stored] at taken
        exact Or.inl ⟨err, rfl, (Option.some.inj taken).symm⟩
      | ok result =>
        obtain ⟨log, position⟩ := result
        obtain rfl := (appendBatch_ok stored).1
        rw [stored] at taken
        exact Or.inr ⟨position, rfl, (Option.some.inj taken).symm⟩

theorem stands_live {keys : CryptoKeys} {deletions : List (String × Nat)} {i : Nat}
    {scope : String} {key : Uuid × CryptoKey} (handed : Handed keys scope key)
    (live : getCryptoKeyById keys key.1 = some key.2)
    (past : ∀ n, (scope, n) ∈ deletions → n ≤ i) : Stands keys deletions i scope key := by
  obtain ⟨held, _, member⟩ := handed
  have row : getCryptoKeyById keys key.1 = held := getCryptoKeyById_row member
  rw [row] at live
  subst live
  exact Or.inl ⟨member, past⟩

theorem entry_append {old : List Event} {from' : List (PendingEvent V)}
    {batch : List (PendingEvent V × Event)} (aligned : old.length = from'.length) {i : Nat}
    {p : PendingEvent V} {event : Event} (here : (from' ++ batch.map (·.1))[i]? = some p)
    (logged : (old ++ batch.map (·.2))[i]? = some event) :
    (from'[i]? = some p ∧ old[i]? = some event) ∨ (old.length ≤ i ∧ (p, event) ∈ batch) := by
  by_cases inside : i < old.length
  · rw [List.getElem?_append_left inside] at logged
    rw [List.getElem?_append_left (aligned ▸ inside)] at here
    exact Or.inl ⟨here, logged⟩
  · have outside := Nat.not_lt.mp inside
    rw [List.getElem?_append_right outside, List.getElem?_map] at logged
    rw [List.getElem?_append_right (aligned ▸ outside), List.getElem?_map, ← aligned] at here
    obtain ⟨made, found, rfl⟩ := Option.map_eq_some_iff.mp here
    rw [found] at logged
    obtain rfl := Option.some.inj logged
    exact Or.inr ⟨outside, List.mem_of_getElem? found⟩

theorem inv_append (inv : Inv codec nesting limit s) {index : Nat}
    (live : keysLive s (.append index) = true)
    (taken : step codec rules s (.append index) = some t) : Inv codec nesting limit t := by
  obtain ⟨commit, found, ⟨err, _, rfl⟩ | ⟨position, stored, rfl⟩⟩ := append_cases taken
  · exact inv_setCommit inv found fun commit none => nomatch none
  · have removed : Inv codec nesting limit (s.setCommit index none) :=
      inv_setCommit inv found fun commit none => nomatch none
    have sound := inv.running index commit found
    constructor
    · simp [inv.aligned]
    · intro entry member
      have below := inv.past entry member
      simp only [List.length_append]
      omega
    · intro i p event scope here logged under
      rcases entry_append inv.aligned here logged with ⟨old, was⟩ | ⟨outside, among⟩
      · exact inv.committed i p event scope old was under
      · obtain ⟨small, keyed⟩ := sound.encoded _ among
        obtain ⟨key, held, kept⟩ := keyed scope under
        have lives : getCryptoKeyById s.keys key.1 = some key.2 := by
          simp only [keysLive, found, stored, List.all_eq_true, decide_eq_true_eq] at live
          exact live (scope, key) held
        refine ⟨small, commit.envelope, key, kept, ?_⟩
        apply stands_live (sound.handed (scope, key) held) lives
        intro n deleted
        have below := inv.past (scope, n) deleted
        omega
    · exact removed.running

theorem inv_step (rereads : Rereads codec reread nesting limit) (keeps : KeepsData rules)
    {a : Action}
    (inv : Inv codec nesting limit s) (live : keysLive s a = true)
    (taken : step codec rules s a = some t) : Inv codec nesting limit t := by
  cases a with
  | start item envelope events => exact inv_start rereads inv taken
  | encode index fresh => exact inv_encode keeps inv taken
  | append index => exact inv_append inv live taken
  | delete scope => exact inv_delete inv taken

theorem separates_of_inv (rereads : Rereads codec reread nesting limit)
    (inv : Inv codec nesting limit s) : Separates codec reread s := by
  intro i p event scope here logged under
  obtain ⟨small, envelope, key, stored, stands⟩ := inv.committed i p event scope here logged under
  constructor
  · intro after
    rcases stands with ⟨member, _⟩ | ⟨_, n, deleted, before⟩
    · exact reads_live rereads small stored (getCryptoKeyById_row member)
    · have late := after n deleted
      omega
  · intro before
    rcases stands with ⟨_, after⟩ | ⟨member, _⟩
    · obtain ⟨n, deleted, early⟩ := before
      have late := after n deleted
      omega
    · exact reads_deleted rereads stored (getCryptoKeyById_row member)

theorem live_of_separates (rereads : Rereads codec reread nesting limit) {a : Action}
    (inv : Inv codec nesting limit s) (taken : step codec rules s a = some t)
    (separates : Separates codec reread t) : keysLive s a = true := by
  cases a with
  | append index =>
    obtain ⟨commit, found, ⟨err, failed, rfl⟩ | ⟨position, stored, rfl⟩⟩ := append_cases taken
    · simp [keysLive, found, failed]
    · simp only [keysLive, found, stored, List.all_eq_true, decide_eq_true_eq]
      have sound := inv.running index commit found
      intro entry held
      obtain ⟨made, among, under, kept⟩ := sound.used entry held
      obtain ⟨held', known, member⟩ := sound.handed entry held
      have row : getCryptoKeyById s.keys entry.2.1 = held' := getCryptoKeyById_row member
      rcases known with rfl | rfl
      · exact row
      · obtain ⟨k, at'⟩ := List.mem_iff_getElem?.mp among
        have here : (s.appended ++ commit.batch.map (·.1))[s.log.length + k]? = some made.1 := by
          rw [inv.aligned, List.getElem?_append_right (Nat.le_add_right _ _)]
          simp [at']
        have logged : (s.log ++ commit.batch.map (·.2))[s.log.length + k]? = some made.2 := by
          rw [List.getElem?_append_right (Nat.le_add_right _ _)]
          simp [at']
        have past : ∀ n, (entry.1, n) ∈ s.deletions → n ≤ s.log.length + k := by
          intro n deleted
          have below := inv.past (entry.1, n) deleted
          omega
        have readable := (separates _ _ _ _ here logged under).1 past
        have gone := reads_deleted rereads kept row
        exact absurd (readable.ui.symm.trans gone.ui) (by simp)
  | start => rfl
  | encode => rfl
  | delete => rfl

end steps

theorem inv_initial {codec : Codec V} {nesting : V → Nat} {limit : Nat} (keys : CryptoKeys) :
    Inv codec nesting limit (initial keys) where
  aligned := rfl
  past := fun entry member => absurd member List.not_mem_nil
  committed := fun i p event scope here => absurd here (by simp [initial])
  running := fun index commit found => absurd found (by simp [initial, System.commit])

/-- In any order of commits and deletions, the deletions of a scope's key separate the
    events before them from those after them exactly when every append finds each key
    its commit took still live. -/
theorem separates_iff_keys_live {codec : Codec V} {reread : V → V} {nesting : V → Nat}
    {limit : Nat} {rules : NameRules} (rereads : Rereads codec reread nesting limit)
    (keeps : KeepsData rules)
    (keys : CryptoKeys) (actions : List Action) :
    Always (step codec rules) (Separates codec reread) (initial keys) actions ↔
      Meets (step codec rules) (fun s a => keysLive s a = true) (initial keys) actions :=
  always_iff_meets (fun inv live taken => inv_step rereads keeps inv live taken)
    (separates_of_inv rereads) (fun inv taken separates => live_of_separates rereads inv taken
      separates) (inv_initial keys)

section sample

def adaStart : Action := .start ⟨.all, some ⟨[], 0⟩⟩ adaEnvelope [adaEmit]

def appendedThenDeleted : List Action :=
  [adaStart, .encode 0 (9, 7), .append 0, .delete "user:1"]

theorem deletion_after_append_separates :
    Always (step adaCodec plainNames) (Separates adaCodec id) (initial noKeys) appendedThenDeleted ∧
      (exec (step adaCodec plainNames) (initial noKeys) appendedThenDeleted).map (fun final =>
        final.log.length) = some 1 :=
  ⟨(separates_iff_keys_live adaCodec_faithful plainNames_keep noKeys _).mpr (by decide +kernel),
    by decide +kernel⟩

/-- The key is deleted between the request of the commit and its append: the event comes
    after the last deletion of its scope and is lost all the same. -/
theorem append_after_deletion_unreadable :
    ¬ Always (step adaCodec plainNames) (Separates adaCodec id) (initial noKeys)
      [adaStart, .encode 0 (9, 7), .delete "user:1", .append 0] := by
  have seen : (exec (step adaCodec plainNames) (initial noKeys)
      [adaStart, .encode 0 (9, 7), .delete "user:1", .append 0]).map (fun final =>
        (final.appended.map (fun p => p.encryptionScope), final.deletions,
          final.log.map (readByUi adaCodec final.keys))) =
      some ([some "user:1"], [("user:1", 0)], [.ok .cryptoShredded]) := by decide +kernel
  obtain ⟨final, run, fields⟩ := Option.map_eq_some_iff.mp seen
  obtain ⟨scopes, rest⟩ := Prod.mk.inj fields
  obtain ⟨deletions, read⟩ := Prod.mk.inj rest
  intro always
  have separates := always_iff_prefix.mp always _ final (List.prefix_refl _) run
  obtain ⟨p, here, under⟩ : ∃ p, final.appended[0]? = some p ∧
      p.encryptionScope = some "user:1" := by
    apply Option.map_eq_some_iff.mp
    rw [← List.getElem?_map, scopes]
    rfl
  obtain ⟨event, logged, lost⟩ : ∃ event, final.log[0]? = some event ∧
      readByUi adaCodec final.keys event = .ok .cryptoShredded := by
    apply Option.map_eq_some_iff.mp
    rw [← List.getElem?_map, read]
    rfl
  have readable := (separates 0 p event "user:1" here logged under).1 (by
    intro n deleted
    rw [deletions] at deleted
    have same := List.mem_singleton.mp deleted
    exact Nat.le_of_eq (Prod.mk.inj same).2)
  exact absurd (readable.ui.symm.trans lost) (by simp)

end sample

end UmariShredding
