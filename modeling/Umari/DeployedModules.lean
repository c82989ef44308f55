import Umari.PublishedModules

/-!
The module store, the pubsub and one subscriber to the module events, from any time of
the store's life on. The subscriber subscribes, then asks the store for the active modules
of its type, loads these, and only then takes the events that came meanwhile. What the
store publishes between the subscription and its answer is in the answer and is handled as
an event again. The pubsub hands every event on, in order.
-/
namespace UmariDeployedModules
open GuardedRuns KeyedMaps UniqueTables
open UmariStateDatabases UmariModuleEvents UmariModuleStore UmariStoreReferences
open UmariPublishedModules

/-- An actor that is started on what is active and receives module events. `published`
    are the events that it has received. -/
structure Subscriber (S A : Type) where
  moduleType : ModuleType
  onStart : KeyedMap String Version → S
  step : S → A → Option S
  publish : ModuleEvent → A
  event : A → Option ModuleEvent
  published : S → List ModuleEvent
  sent : ∀ event' : ModuleEvent, event (publish event') = some event'
  fresh : ∀ active, published (onStart active) = []
  noted : ∀ {s a t}, step s a = some t → published t = published s ++ (event a).toList

inductive Phase (S : Type) where
  | down
  | subscribed
  -- the store has answered with what is active
  | loading (active : KeyedMap String Version)
  | running (active : KeyedMap String Version) (actor : S)

def Phase.listens {S : Type} : Phase S → Bool
  | .down => false
  | .subscribed => true
  | .loading _ => true
  | .running _ _ => true

def Phase.actor {S : Type} : Phase S → Option (KeyedMap String Version × S)
  | .running active actor => some (active, actor)
  | _ => none

theorem Phase.actor_some {S : Type} {phase : Phase S} {active : KeyedMap String Version}
    {actor : S} : phase.actor = some (active, actor) ↔ phase = .running active actor := by
  cases phase with
  | down => simp [Phase.actor]
  | subscribed => simp [Phase.actor]
  | loading active => simp [Phase.actor]
  | running active actor => simp [Phase.actor]

/-- `forwarded` counts the published events that the pubsub has handed on; those in
    `queued` wait in the mailbox of the subscriber. -/
structure State (S : Type) where
  store : ModuleStoreActor
  forwarded : Nat
  queued : List ModuleEvent
  phase : Phase S

inductive Action (A : Type) where
  | store (message : Operation)
  | forward
  | subscribe
  | getAllActiveModules
  | started
  | receive
  | own (action : A)

def Action.message {A : Type} : Action A → Option Operation
  | .store message => some message
  | _ => none

section system
variable {S A : Type} (digest : List UInt8 → String) (sub : Subscriber S A)

def start : State S := ⟨UmariPublishedModules.start, 0, [], .down⟩

def activeEntry (m : Module) : Sigma fun _ : String => Version := ⟨m.name, m.version⟩

def activeVersions (modules : List Module) : KeyedMap String Version :=
  (modules.map activeEntry).foldl (fun active entry => active.insert entry.1 entry.2) ∅

def forward (s : State S) : Option (State S) :=
  match s.store.published[s.forwarded]? with
  | none => none
  | some event => some { s with
      forwarded := s.forwarded + 1
      queued := if s.phase.listens then s.queued ++ [event.plain] else s.queued }

def receive (s : State S) : Option (State S) :=
  match s.phase, s.queued with
  | .running active actor, event :: rest =>
    (sub.step actor (sub.publish event)).map fun actor =>
      { s with queued := rest, phase := .running active actor }
  | _, _ => none

def own (s : State S) (action : A) : Option (State S) :=
  match s.phase with
  | .running active actor =>
    if (sub.event action).isSome then none
    else (sub.step actor action).map fun actor => { s with phase := .running active actor }
  | _ => none

def step (s : State S) : Action A → Option (State S)
  | .store message =>
    (UmariPublishedModules.step digest s.store message).map fun store => { s with store := store }
  | .forward => forward s
  | .subscribe =>
    match s.phase with
    | .down => some { s with phase := .subscribed }
    | _ => none
  | .getAllActiveModules =>
    match s.phase with
    | .subscribed => some { s with
        phase := .loading (activeVersions (getAllActiveModules s.store.store sub.moduleType)) }
    | _ => none
  | .started =>
    match s.phase with
    | .loading active => some { s with phase := .running active (sub.onStart active) }
    | _ => none
  | .receive => receive sub s
  | .own action => own sub s action

/-- The step of the subscriber that an action is, with the state it is taken in. -/
def performed (s : State S) : Action A → Option (S × A)
  | .receive =>
    match s.phase, s.queued with
    | .running _ actor, event :: _ => some (actor, sub.publish event)
    | _, _ => none
  | .own action =>
    match s.phase with
    | .running _ actor => some (actor, action)
    | _ => none
  | _ => none

def Allowed (guard : S → A → Prop) (s : State S) (action : Action A) : Prop :=
  (∀ message ∈ action.message, ReadsBack message) ∧
    ∀ taken ∈ performed sub s action, guard taken.1 taken.2

instance : DecidablePred ReadsBack := fun message => by
  unfold ReadsBack
  split
  · infer_instance
  · infer_instance

instance {guard : S → A → Prop} [∀ s a, Decidable (guard s a)] (s : State S)
    (action : Action A) : Decidable (Allowed sub guard s action) := by
  unfold Allowed
  infer_instance

def StoreActive (moduleType : ModuleType) (s : State S) (name : String) (version : Version) :
    Prop :=
  ∃ m ∈ getAllActiveModules s.store.store none, m.moduleType = moduleType ∧ m.name = name ∧
    m.version = version

/-- Every event has been handed on and received. -/
def Delivered (s : State S) : Prop :=
  s.forwarded = s.store.published.length ∧ s.queued = []

end system

section overlap
variable {moduleType : ModuleType} {name : String} {version : Option Version}

theorem intended_append (before later : List ModuleEvent) :
    intended moduleType name version (before ++ later) =
      intended moduleType name (intended moduleType name version before) later := by
  induction later using List.reverseRecOn with
  | nil => rw [List.append_nil]; rfl
  | append_singleton later event ih => rw [← List.append_assoc, intended_snoc, intended_snoc, ih]

theorem intended_twice (events : List ModuleEvent) :
    intended moduleType name (intended moduleType name version events) events =
      intended moduleType name version events := by
  unfold intended
  cases lastEvent moduleType name events with
  | none => rfl
  | some entry => rfl

/-- What is active after `seen`, followed by all events but the first `missed`, is what
    is active after all events: those in both are asked for twice. -/
theorem intended_overlap {missed seen rest events : List ModuleEvent} (early : missed <+: seen)
    (past : seen <+: events) (all : missed ++ rest = events) :
    intended moduleType name (intended moduleType name version seen) rest =
      intended moduleType name version events := by
  obtain ⟨both, rfl⟩ := early
  obtain ⟨later, rfl⟩ := past
  have tail : rest = both ++ later := by
    rw [List.append_assoc] at all
    exact List.append_cancel_left all
  rw [tail, intended_append both, intended_append missed both, intended_twice,
    ← intended_append missed both, ← intended_append]

end overlap

section listing
variable {digest : List UInt8 → String} {s : ModuleStoreActor} {store : Store}
  {moduleType : ModuleType} {name : String} {version : Version}

theorem mem_ofType {m : Module} : m ∈ getAllActiveModules store (some moduleType) ↔
    m ∈ getAllActiveModules store none ∧ m.moduleType = moduleType := by
  unfold getAllActiveModules
  constructor
  · intro listed
    obtain ⟨pair, found, rfl⟩ := List.mem_map.mp listed
    obtain ⟨joint, own⟩ := List.mem_filter.mp found
    refine ⟨List.mem_map.mpr ⟨pair, List.mem_filter.mpr ⟨joint, rfl⟩, rfl⟩, ?_⟩
    simpa using own
  · intro both
    obtain ⟨listed, own⟩ := both
    obtain ⟨pair, found, rfl⟩ := List.mem_map.mp listed
    refine List.mem_map.mpr ⟨pair, List.mem_filter.mpr ⟨(List.mem_filter.mp found).1, ?_⟩, rfl⟩
    simpa using own

theorem ofType_sublist : (getAllActiveModules store (some moduleType)).Sublist
    (getAllActiveModules store none) := by
  unfold getAllActiveModules
  apply List.Sublist.map
  apply List.monotone_filter_right
  intro pair _
  rfl

theorem names_once (store : Store) (moduleType : ModuleType) :
    ((getAllActiveModules store (some moduleType)).map activeEntry).NodupKeys := by
  unfold List.NodupKeys List.keys
  rw [List.map_map]
  apply List.pairwise_map.mpr
  apply ((active_once store).sublist ofType_sublist).imp_of_mem
  intro a b left right apart same
  exact apart ⟨(mem_ofType.mp left).2.trans (mem_ofType.mp right).2.symm, same⟩

theorem activeVersions_lookup :
    (activeVersions (getAllActiveModules store (some moduleType))).lookup name = some version ↔
      ∃ m ∈ getAllActiveModules store none,
        m.moduleType = moduleType ∧ m.name = name ∧ m.version = version := by
  have inserted : ∀ (active : KeyedMap String Version) (key : String) (value : Version)
      (other : String), (active.insert key value).lookup other =
        if other = key then some value else active.lookup other := by
    intro active key value other
    by_cases same : other = key
    · rw [if_pos same, same, AList.lookup_insert]
    · rw [if_neg same, AList.lookup_insert_ne same]
  have looked := lookup_foldl (f := fun version => version)
    (s := fun active key value => active.insert key value) inserted _
    (names_once store moduleType) ∅ name
  rw [AList.lookup_empty, Option.or_none, Option.map_id'] at looked
  unfold activeVersions
  rw [looked, ← Option.mem_def, List.mem_dlookup_iff (names_once store moduleType)]
  constructor
  · intro member
    obtain ⟨m, listed, same⟩ := List.mem_map.mp member
    obtain ⟨there, own⟩ := mem_ofType.mp listed
    obtain ⟨rfl, equal⟩ := Sigma.mk.inj same
    exact ⟨m, there, own, rfl, eq_of_heq equal⟩
  · intro active
    obtain ⟨m, there, own, rfl, rfl⟩ := active
    exact List.mem_map.mpr ⟨m, mem_ofType.mpr ⟨there, own⟩, rfl⟩

theorem intended_active (inv : Inv digest s) :
    intended moduleType name none (s.published.map PublishedEvent.plain) = some version ↔
      ∃ m ∈ getAllActiveModules s.store none,
        m.moduleType = moduleType ∧ m.name = name ∧ m.version = version := by
  rw [intended_replay, Option.map_eq_some_iff]
  constructor
  · intro found
    obtain ⟨⟨_, wasmBytes⟩, held, rfl⟩ := found
    obtain ⟨m, listed, own, named, same, _⟩ := ((mirrors_of_inv inv).same _ _ _ _).mp held
    exact ⟨m, listed, own, named, same⟩
  · intro active
    obtain ⟨m, listed, own, named, same⟩ := active
    exact ⟨(version, m.wasmBytes),
      ((mirrors_of_inv inv).same _ _ _ _).mpr ⟨m, listed, own, named, same, rfl⟩, rfl⟩

theorem activeVersions_intended (inv : Inv digest s) (moduleType : ModuleType) (name : String) :
    (activeVersions (getAllActiveModules s.store (some moduleType))).lookup name =
      intended moduleType name none (s.published.map PublishedEvent.plain) := by
  apply Option.ext
  intro version
  rw [activeVersions_lookup, intended_active inv]

theorem published_grows {t : ModuleStoreActor} {message : Operation}
    (taken : UmariPublishedModules.step digest s message = some t) :
    s.published <+: t.published := by
  have one : ∀ event, s.published <+: s.published ++ [event] := fun event => ⟨[event], rfl⟩
  cases message with
  | activateModule fails moduleType name version =>
    cases taken
    rw [ModuleStoreActor.activateModule]
    split
    · exact List.prefix_rfl
    · exact List.prefix_rfl
    · split
      · exact List.prefix_rfl
      · exact List.prefix_rfl
      · exact one _
  | deactivateModule failed moduleType name =>
    cases taken
    rw [ModuleStoreActor.handleDeactivateModule]
    split
    · exact List.prefix_rfl
    · exact List.prefix_rfl
    · exact one _
  | deleteModule fails moduleType name =>
    cases taken
    rw [ModuleStoreActor.handleDeleteModule]
    split
    · exact List.prefix_rfl
    · exact List.prefix_rfl
    · exact one _
  | saveModule => cases taken; exact List.prefix_rfl
  | deleteModuleVersion => cases taken; exact List.prefix_rfl
  | setEnvVar => cases taken; exact List.prefix_rfl
  | deleteEnvVar => cases taken; exact List.prefix_rfl
  | createCryptoKey => cases taken; exact List.prefix_rfl
  | deleteCryptoKey => cases taken; exact List.prefix_rfl
  | read => cases taken; exact List.prefix_rfl

end listing

section runs
variable {S A : Type} {digest : List UInt8 → String} {sub : Subscriber S A}
  {guard : S → A → Prop} {Kept : KeyedMap String Version → S → Prop} {s t : State S}

/-- What the subscriber has received or will find in its mailbox is all that was handed on
    but a first part; the store's answer covers that part. -/
inductive Covered (sub : Subscriber S A) (Kept : KeyedMap String Version → S → Prop)
    (events : List ModuleEvent) (forwarded : Nat) (queued : List ModuleEvent) : Phase S → Prop
  | down (none : queued = []) : Covered sub Kept events forwarded queued .down
  | subscribed (missed : List ModuleEvent) (handed : missed ++ queued = events.take forwarded) :
      Covered sub Kept events forwarded queued .subscribed
  | loading (active : KeyedMap String Version) (missed seen : List ModuleEvent)
      (handed : missed ++ queued = events.take forwarded) (early : missed <+: seen)
      (past : seen <+: events)
      (listed : ∀ name, active.lookup name = intended sub.moduleType name none seen) :
      Covered sub Kept events forwarded queued (.loading active)
  | running (active : KeyedMap String Version) (actor : S) (missed seen : List ModuleEvent)
      (handed : missed ++ (sub.published actor ++ queued) = events.take forwarded)
      (early : missed <+: seen) (past : seen <+: events)
      (listed : ∀ name, active.lookup name = intended sub.moduleType name none seen)
      (kept : Kept active actor) :
      Covered sub Kept events forwarded queued (.running active actor)

def State.events (s : State S) : List ModuleEvent := s.store.published.map PublishedEvent.plain

structure Covers (digest : List UInt8 → String) (sub : Subscriber S A)
    (Kept : KeyedMap String Version → S → Prop) (s : State S) : Prop where
  store : Inv digest s.store
  bound : s.forwarded ≤ s.store.published.length
  covered : Covered sub Kept s.events s.forwarded s.queued s.phase

theorem covered_grows {events later : List ModuleEvent} {forwarded : Nat}
    {queued : List ModuleEvent} {phase : Phase S} (bound : forwarded ≤ events.length)
    (covered : Covered sub Kept events forwarded queued phase) :
    Covered sub Kept (events ++ later) forwarded queued phase := by
  have same : (events ++ later).take forwarded = events.take forwarded :=
    List.take_append_of_le_length bound
  cases covered with
  | down none => exact .down none
  | subscribed missed handed => exact .subscribed missed (handed.trans same.symm)
  | loading active missed seen handed early past listed =>
    exact .loading active missed seen (handed.trans same.symm) early
      (past.trans (List.prefix_append _ _)) listed
  | running active actor missed seen handed early past listed kept =>
    exact .running active actor missed seen (handed.trans same.symm) early
      (past.trans (List.prefix_append _ _)) listed kept

theorem covers_store (covers : Covers digest sub Kept s) {message : Operation}
    (readsBack : ReadsBack message) {store : ModuleStoreActor}
    (taken : UmariPublishedModules.step digest s.store message = some store) :
    Covers digest sub Kept { s with store := store } := by
  obtain ⟨more, grown⟩ := published_grows taken
  constructor
  · exact inv_step covers.store readsBack taken
  · have bound := covers.bound
    show s.forwarded ≤ store.published.length
    rw [← grown, List.length_append]
    omega
  · show Covered sub Kept (store.published.map PublishedEvent.plain) s.forwarded s.queued s.phase
    rw [← grown, List.map_append]
    apply covered_grows _ covers.covered
    rw [State.events, List.length_map]
    exact covers.bound

theorem covered_forward {events : List ModuleEvent} {forwarded : Nat}
    {queued : List ModuleEvent} {phase : Phase S} {event : ModuleEvent}
    (next : events[forwarded]? = some event)
    (covered : Covered sub Kept events forwarded queued phase) :
    Covered sub Kept events (forwarded + 1)
      (if phase.listens then queued ++ [event] else queued) phase := by
  have more : events.take (forwarded + 1) = events.take forwarded ++ [event] := by
    rw [List.take_add_one, next]
    rfl
  cases covered with
  | down none => exact .down none
  | subscribed missed handed =>
    apply Covered.subscribed missed
    rw [more, ← handed]
    exact (List.append_assoc missed queued [event]).symm
  | loading active missed seen handed early past listed =>
    refine Covered.loading active missed seen ?_ early past listed
    rw [more, ← handed]
    exact (List.append_assoc missed queued [event]).symm
  | running active actor missed seen handed early past listed kept =>
    refine Covered.running active actor missed seen ?_ early past listed kept
    rw [more, ← handed]
    simp [Phase.listens]

theorem covers_forward (covers : Covers digest sub Kept s) (taken : forward s = some t) :
    Covers digest sub Kept t := by
  unfold forward at taken
  cases next : s.store.published[s.forwarded]? with
  | none => simp [next] at taken
  | some event =>
    simp only [next, Option.some.injEq] at taken
    subst taken
    constructor
    · exact covers.store
    · have inside := (List.getElem?_eq_some_iff.mp next).1
      exact inside
    · apply covered_forward _ covers.covered
      rw [State.events, List.getElem?_map, next]
      rfl

theorem covers_receive
    (preserved : ∀ {active s a t}, Kept active s → guard s a → sub.step s a = some t →
      Kept active t)
    (covers : Covers digest sub Kept s) (allowed : Allowed sub guard s .receive)
    (taken : receive sub s = some t) : Covers digest sub Kept t := by
  unfold receive at taken
  split at taken
  · rename_i active actor event rest running waiting
    obtain ⟨next, moved, rfl⟩ := Option.map_eq_some_iff.mp taken
    have met : guard actor (sub.publish event) := by
      apply allowed.2 (actor, sub.publish event)
      simp only [performed, running, waiting]
      rfl
    have covered := covers.covered
    rw [running, waiting] at covered
    refine ⟨covers.store, covers.bound, ?_⟩
    cases covered with
    | running _ _ missed seen handed early past listed kept =>
      refine Covered.running active next missed seen ?_ early past listed
        (preserved kept met moved)
      apply Eq.trans _ handed
      rw [sub.noted moved, sub.sent]
      simp
  · exact absurd taken (by simp)

theorem covers_own
    (preserved : ∀ {active s a t}, Kept active s → guard s a → sub.step s a = some t →
      Kept active t)
    (covers : Covers digest sub Kept s) {action : A}
    (allowed : Allowed sub guard s (.own action)) (taken : own sub s action = some t) :
    Covers digest sub Kept t := by
  unfold own at taken
  split at taken
  · rename_i active actor running
    split at taken
    · exact absurd taken (by simp)
    · rename_i unsent
      obtain ⟨next, moved, rfl⟩ := Option.map_eq_some_iff.mp taken
      have covered := covers.covered
      rw [running] at covered
      refine ⟨covers.store, covers.bound, ?_⟩
      cases covered with
      | running _ _ missed seen handed early past listed kept =>
        have met : guard actor action := by
          apply allowed.2 (actor, action)
          simp only [performed, running]
          rfl
        refine Covered.running active next missed seen ?_ early past listed
          (preserved kept met moved)
        have none : sub.event action = none := by simpa using unsent
        apply Eq.trans _ handed
        rw [sub.noted moved, none]
        simp
  · exact absurd taken (by simp)

theorem covers_step
    (initial : ∀ active, Kept active (sub.onStart active))
    (preserved : ∀ {active s a t}, Kept active s → guard s a → sub.step s a = some t →
      Kept active t)
    {action : Action A} (covers : Covers digest sub Kept s) (allowed : Allowed sub guard s action)
    (taken : step digest sub s action = some t) : Covers digest sub Kept t := by
  cases action with
  | store message =>
    obtain ⟨store, called, rfl⟩ := Option.map_eq_some_iff.mp taken
    exact covers_store covers (allowed.1 message rfl) called
  | forward => exact covers_forward covers taken
  | subscribe =>
    simp only [step] at taken
    split at taken
    · rename_i down
      have covered := covers.covered
      rw [down] at covered
      cases covered with
      | down none =>
        cases taken
        refine ⟨covers.store, covers.bound, Covered.subscribed (s.events.take s.forwarded) ?_⟩
        rw [none, List.append_nil]
        rfl
    · exact absurd taken (by simp)
  | getAllActiveModules =>
    simp only [step] at taken
    split at taken
    · rename_i subscribed
      have covered := covers.covered
      rw [subscribed] at covered
      cases covered with
      | subscribed missed handed =>
        cases taken
        refine ⟨covers.store, covers.bound,
          Covered.loading _ missed s.events handed ?_ List.prefix_rfl ?_⟩
        · exact (List.prefix_append missed s.queued).trans
            (handed ▸ List.take_prefix s.forwarded s.events)
        · exact activeVersions_intended covers.store sub.moduleType
    · exact absurd taken (by simp)
  | started =>
    simp only [step] at taken
    split at taken
    · rename_i active loading
      have covered := covers.covered
      rw [loading] at covered
      cases covered with
      | loading _ missed seen handed early past listed =>
        cases taken
        refine ⟨covers.store, covers.bound,
          Covered.running active _ missed seen ?_ early past listed (initial active)⟩
        rw [sub.fresh, List.nil_append]
        exact handed
    · exact absurd taken (by simp)
  | receive => exact covers_receive preserved covers allowed taken
  | own action => exact covers_own preserved covers allowed taken

theorem covers_start (digest : List UInt8 → String) (sub : Subscriber S A)
    (Kept : KeyedMap String Version → S → Prop) : Covers digest sub Kept start where
  store := inv_start digest
  bound := Nat.zero_le _
  covered := .down rfl

theorem covers_run
    (initial : ∀ active, Kept active (sub.onStart active))
    (preserved : ∀ {active s a t}, Kept active s → guard s a → sub.step s a = some t →
      Kept active t)
    {actions : List (Action A)} (run : exec (step digest sub) start actions = some s)
    (met : Meets (step digest sub) (Allowed sub guard) start actions) :
    Covers digest sub Kept s := by
  apply guarded_invariant _ (covers_start digest sub Kept) run met
  intro s action t covers allowed taken
  exact covers_step initial preserved covers allowed taken

theorem Covers.kept (covers : Covers digest sub Kept s) {active : KeyedMap String Version}
    {actor : S} (running : s.phase = .running active actor) : Kept active actor := by
  have covered := covers.covered
  rw [running] at covered
  cases covered with
  | running _ _ missed seen handed early past listed kept => exact kept

/-- Once every event was received, what the subscriber was started on and the events it
    has received ask for what the store has active. -/
theorem intended_delivered (covers : Covers digest sub Kept s)
    {active : KeyedMap String Version} {actor : S} (running : s.phase = .running active actor)
    (delivered : Delivered s) (name : String) (version : Version) :
    intended sub.moduleType name (active.lookup name) (sub.published actor) = some version ↔
      StoreActive sub.moduleType s name version := by
  have covered := covers.covered
  obtain ⟨all, empty⟩ := delivered
  rw [running, empty] at covered
  cases covered with
  | running _ _ missed seen handed early past listed kept =>
    have whole : missed ++ sub.published actor = s.events := by
      rw [List.append_nil, all] at handed
      rw [handed, State.events]
      apply List.take_of_length_le
      rw [List.length_map]
    rw [listed, intended_overlap early past whole]
    exact intended_active covers.store

end runs
end UmariDeployedModules
