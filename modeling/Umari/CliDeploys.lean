import Umari.CliUploads
import Umari.UploadRoundTrip

/-!
A whole deploy: the build phase, the uploads of what was built, and the summary of both. The
phases meet in the keys only, so that the modules of a deploy have to differ in their keys.
-/
namespace UmariCliDeploys
open GuardedRuns WorkQueues UmariCliBuilds UmariCliUploads
open UmariActivationErrors UmariSavedModules UmariUploads UmariUploadBodies UmariUploadRoundTrip
open UmariPublishedModules (ModuleStoreActor)

/-- Build failures are merged into the statistics of the uploads. -/
def combine (uploadStats buildStats : Counters) : Counters := fun ty =>
  { uploadStats ty with failed := (uploadStats ty).failed + (buildStats ty).failed }

def deploy (modules : List AnyModule) (b : BuildState) (u : UploadState) : Except String Unit :=
  if modules.isEmpty then .error "no wasm modules found"
  else
    let failed := totalFailed (combine u.world.stats b.world.stats)
    if failed > 0 then .error (toString failed ++ " module(s) failed to deploy") else .ok ()

/-- The states that the two phases of a deploy may end in, however their threads take turns. -/
structure Deployed (setting : Setting) (modules : List AnyModule) (server : ModuleStoreActor)
    (b : BuildState) (u : UploadState) : Prop where
  builds : ∃ workers turns,
    exec (WorkQueues.step (buildWork false modules)) (buildStart modules workers) turns = some b
  built : Built b
  uploads : ∃ workers turns, exec (WorkQueues.step (uploadWork setting))
    (uploadStart server (alive modules b.world) workers) turns = some u
  ended : Ended u.pool

/-- No two modules share a row, and no two artifacts a name. -/
structure Distinct (modules : List AnyModule) : Prop where
  keys : (modules.map AnyModule.key).Nodup
  crates : OneCrateEach (modules.filterMap AnyModule.rust?)

section uploads
variable {setting : Setting} {w w' : Uploading} {m : AnyModule} {s t : UploadState}

/-- A finished upload is shown once, with its own status, and counted as that. -/
structure Shown (s : UploadState) : Prop where
  rows : s.world.shown = (s.pool.done.map fun entry => (entry.1.key, entry.2)).reverse
  stats : s.world.stats = tally s.world.shown
  real : ∀ row ∈ s.world.shown, row.2 ≠ .built

theorem judge_real {version : String} {bumped : Bool} {answer : Except String (Option Bool)}
    {status : Status} (judges : judge setting m version bumped answer = some status) :
    status ≠ .built := by
  unfold judge at judges
  split at judges
  · cases judges
    exact fun same => Status.noConfusion same
  · split_ifs at judges <;> cases judges <;> exact fun same => Status.noConfusion same
  · split_ifs at judges <;> cases judges <;> exact fun same => Status.noConfusion same

theorem shown_step {turn : UploadTurn} (shown : Shown s)
    (taken : WorkQueues.step (uploadWork setting) s turn = some t) : Shown t := by
  cases moved_of_step taken with
  | took job rest before after queue held => exact ⟨shown.rows, shown.stats, shown.real⟩
  | advanced job stage next action world before after held goes =>
    cases turned_of_step goes with
    | _ => exact ⟨shown.rows, shown.stats, shown.real⟩
  | finished job stage status action world before after held goes =>
    have one : world = s.world.finished job status ∧ status ≠ .built := by
      cases turned_of_step goes with
      | judged version wasmBytes bumped answer status judges => exact ⟨rfl, judge_real judges⟩
      | failed stage message => exact ⟨rfl, fun same => Status.noConfusion same⟩
    obtain ⟨rfl, other⟩ := one
    refine ⟨?_, ?_, ?_⟩
    · simp [Uploading.finished, shown.rows]
    · simp only [Uploading.finished, tally_append, shown.stats]
      rfl
    · intro row member
      rcases List.mem_append.mp member with earlier | last
      · exact shown.real row earlier
      · rw [List.mem_singleton.mp last]
        exact other
  | happened event world goes => exact event.elim

theorem shown_run {server : ModuleStoreActor} {modules : List AnyModule} {workers : Nat}
    {turns : List UploadTurn}
    (run : exec (WorkQueues.step (uploadWork setting)) (uploadStart server modules workers) turns =
      some s) : Shown s :=
  invariant (fun kept taken => shown_step kept taken)
    ⟨rfl, rfl, fun _ member => absurd member List.not_mem_nil⟩ run

end uploads

section results
variable {setting : Setting} {modules : List AnyModule} {server : ModuleStoreActor}
  {b : BuildState} {u : UploadState}

/-- The first phase leaves rows of failures only; the others are the modules that go on. -/
structure Parted (modules : List AnyModule) (b : BuildState) : Prop where
  keys : ((alive modules b.world).map AnyModule.key ++ b.world.shown.map Prod.fst).Perm
    (modules.map AnyModule.key)
  failed : ∀ row ∈ b.world.shown, row.2.isFailed = true
  stats : b.world.stats = tally b.world.shown

theorem parted_of_deployed (distinct : Distinct modules)
    (run : Deployed setting modules server b u) :
    Parted modules b := by
  obtain ⟨workers, turns, builds⟩ := run.builds
  obtain ⟨keys, shown, stats⟩ := build_accounts distinct.crates builds run.built
  have failed : ∀ row ∈ b.world.shown, row.2.isFailed = true := by
    have none : (b.world.shown.filter fun row => !row.2.isFailed) = [] := by
      simpa [builtKeys] using shown
    intro row member
    simpa using List.filter_eq_nil_iff.mp none row member
  have rows : failedKeys b.world = b.world.shown.map Prod.fst := by
    rw [failedKeys, List.filter_eq_self.mpr failed]
  rw [rows] at keys
  refine ⟨?_, failed, stats⟩
  -- the failed rows are not among the keys that were noted, since no key comes twice
  have once : (b.world.succeeded ++ b.world.shown.map Prod.fst).Nodup :=
    keys.symm.nodup distinct.keys
  have going : ((alive modules b.world).map AnyModule.key).Perm b.world.succeeded := by
    have chosen : (alive modules b.world).map AnyModule.key =
        (modules.map AnyModule.key).filter fun key => b.world.succeeded.contains key := by
      rw [List.filter_map]
      rfl
    rw [chosen]
    refine (keys.symm.filter _).trans ?_
    have kept : b.world.succeeded.filter (fun key => b.world.succeeded.contains key) =
        b.world.succeeded := by
      apply List.filter_eq_self.mpr
      intro key member
      simpa using member
    have dropped : (b.world.shown.map Prod.fst).filter
        (fun key => b.world.succeeded.contains key) = [] := by
      apply List.filter_eq_nil_iff.mpr
      intro key member inside
      exact (List.nodup_append.mp once).2.2 key (by simpa using inside) key member rfl
    rw [List.filter_append, kept, dropped, List.append_nil]
  exact (going.append_right _).trans keys

theorem done_alive (run : Deployed setting modules server b u) :
    (u.pool.done.map Prod.fst).Perm (alive modules b.world) := by
  obtain ⟨workers, turns, uploads⟩ := run.uploads
  exact ended_done uploads run.ended

theorem shown_uploads (run : Deployed setting modules server b u) : Shown u := by
  obtain ⟨workers, turns, uploads⟩ := run.uploads
  exact shown_run uploads

theorem upload_rows (run : Deployed setting modules server b u) :
    (u.world.shown.map Prod.fst).Perm ((alive modules b.world).map AnyModule.key) := by
  rw [(shown_uploads run).rows, List.map_reverse, List.map_map]
  refine (List.reverse_perm _).trans ?_
  have keys : u.pool.done.map (Prod.fst ∘ fun entry : AnyModule × Status =>
      (entry.1.key, entry.2)) = (u.pool.done.map Prod.fst).map AnyModule.key := by
    rw [List.map_map]
    rfl
  rw [keys]
  exact (done_alive run).map AnyModule.key

theorem rows_once (distinct : Distinct modules) (run : Deployed setting modules server b u) :
    ((b.world.shown ++ u.world.shown).map Prod.fst).Perm (modules.map AnyModule.key) := by
  rw [List.map_append]
  exact (List.perm_append_comm.trans ((upload_rows run).append_right _)).trans
    (parted_of_deployed distinct run).keys

theorem counted_once (distinct : Distinct modules) (run : Deployed setting modules server b u)
    (ty : ModuleType) : (combine u.world.stats b.world.stats ty).total =
      modules.countP fun m => decide (m.moduleType = ty) := by
  have shown := shown_uploads run
  have phases := parted_of_deployed distinct run
  have built : (b.world.stats ty).failed =
      (b.world.shown.map Prod.fst).countP fun key => decide (key.1 = ty) := by
    rw [phases.stats, tally_failed, List.countP_map]
    apply List.countP_congr
    intro row member
    simp [phases.failed row member]
  have uploaded : (u.world.stats ty).total =
      (u.world.shown.map Prod.fst).countP fun key => decide (key.1 = ty) := by
    rw [shown.stats, tally_total, List.countP_map]
    apply List.countP_congr
    intro row member
    simp [shown.real row member]
  have both : (combine u.world.stats b.world.stats ty).total =
      (u.world.stats ty).total + (b.world.stats ty).failed := by
    simp only [combine, Stats.total]
    omega
  have all := (rows_once distinct run).countP_eq fun key => decide (key.1 = ty)
  have own : (modules.map AnyModule.key).countP (fun key => decide (key.1 = ty)) =
      modules.countP fun m => decide (m.moduleType = ty) := by
    rw [List.countP_map]
    rfl
  rw [List.map_append, List.countP_append, own] at all
  omega

theorem totalFailed_combine (uploadStats buildStats : Counters) :
    totalFailed (combine uploadStats buildStats) =
      totalFailed uploadStats + totalFailed buildStats := by
  simp only [totalFailed, ModuleType.all, combine, List.map_cons, List.map_nil, List.sum_cons,
    List.sum_nil]
  omega

theorem totalFailed_deployed (distinct : Distinct modules)
    (run : Deployed setting modules server b u) :
    totalFailed (combine u.world.stats b.world.stats) =
      (u.world.shown.countP fun row => row.2.isFailed) + b.world.shown.length := by
  have phases := parted_of_deployed distinct run
  have all : (b.world.shown.countP fun row => row.2.isFailed) = b.world.shown.length :=
    List.countP_eq_length.mpr phases.failed
  rw [totalFailed_combine, (shown_uploads run).stats, phases.stats, tally_totalFailed,
    tally_totalFailed, all]

theorem mem_shown (run : Deployed setting modules server b u) {row : Row} :
    row ∈ u.world.shown ↔ ∃ m status, (m, status) ∈ u.pool.done ∧ (m.key, status) = row := by
  rw [(shown_uploads run).rows, List.mem_reverse, List.mem_map]
  simp only [Prod.exists]

theorem status_unique (distinct : Distinct modules) (run : Deployed setting modules server b u)
    {m : AnyModule} {status other : Status} (one : (m, status) ∈ u.pool.done)
    (two : (m, other) ∈ u.pool.done) : status = other := by
  have nodup : (u.pool.done.map Prod.fst).Nodup :=
    (done_alive run).symm.nodup (distinct.keys.of_map.filter _)
  exact (Prod.mk.inj (List.inj_on_of_nodup_map nodup one two rfl)).2

theorem deploy_ok_iff (distinct : Distinct modules) (run : Deployed setting modules server b u) :
    deploy modules b u = .ok () ↔ modules ≠ [] ∧
      ∀ m ∈ modules, ∃ status, (m, status) ∈ u.pool.done ∧ status.isFailed = false := by
  have phases := parted_of_deployed distinct run
  have lengths := phases.keys.length_eq
  simp only [List.length_append, List.length_map] at lengths
  have clean : deploy modules b u = .ok () ↔ modules ≠ [] ∧ b.world.shown = [] ∧
      ∀ row ∈ u.world.shown, row.2.isFailed = false := by
    have none : totalFailed (combine u.world.stats b.world.stats) = 0 ↔ b.world.shown = [] ∧
        ∀ row ∈ u.world.shown, row.2.isFailed = false := by
      rw [totalFailed_deployed distinct run, Nat.add_eq_zero_iff, List.countP_eq_zero,
        List.length_eq_zero_iff, and_comm]
      simp only [Bool.not_eq_true]
    unfold deploy
    cases modules with
    | nil => simp
    | cons m rest =>
      rw [← none]
      simp only [List.isEmpty_cons, Bool.false_eq_true, if_false]
      split
      · rename_i some
        simp only [reduceCtorEq, false_iff, not_and]
        omega
      · rename_i zero
        simp only [true_iff]
        exact ⟨by simp, by omega⟩
  rw [clean]
  constructor
  · intro good
    obtain ⟨some, rows, fine⟩ := good
    refine ⟨some, fun m member => ?_⟩
    rw [rows, List.length_nil, Nat.add_zero] at lengths
    have all : alive modules b.world = modules := List.filter_sublist.eq_of_length lengths
    have there : m ∈ u.pool.done.map Prod.fst :=
      (done_alive run).symm.subset (all.symm ▸ member)
    obtain ⟨⟨m', status⟩, entry, rfl⟩ := List.mem_map.mp there
    exact ⟨status, entry, fine _ ((mem_shown run).mpr ⟨m', status, entry, rfl⟩)⟩
  · intro good
    obtain ⟨some, each⟩ := good
    have all : alive modules b.world = modules := by
      apply List.filter_eq_self.mpr
      intro m member
      obtain ⟨status, entry, -⟩ := each m member
      have inside := (done_alive run).subset (List.mem_map.mpr ⟨_, entry, rfl⟩)
      exact (List.mem_filter.mp inside).2
    rw [all] at lengths
    refine ⟨some, List.length_eq_zero_iff.mp (by omega), fun row member => ?_⟩
    obtain ⟨m, status, entry, rfl⟩ := (mem_shown run).mp member
    have inside := (done_alive run).subset (List.mem_map.mpr ⟨_, entry, rfl⟩)
    obtain ⟨other, good, fine⟩ := each m (List.mem_filter.mp inside).1
    rw [status_unique distinct run entry good]
    exact fine

/-- Whatever turns the threads of a deploy take and however builds and uploads end, each
    module's row is finished once, the counters of each type add up to its modules, and the
    deploy succeeds exactly if no module failed in either phase. -/
theorem deploy_counts_each_module (setting : Setting) (modules : List AnyModule)
    (server : ModuleStoreActor) (b : BuildState) (u : UploadState) (distinct : Distinct modules)
    (run : Deployed setting modules server b u) :
    ((b.world.shown ++ u.world.shown).map Prod.fst).Perm (modules.map AnyModule.key) ∧
      (∀ ty, (combine u.world.stats b.world.stats ty).total =
        modules.countP fun m => decide (m.moduleType = ty)) ∧
      (deploy modules b u = .ok () ↔ modules ≠ [] ∧
        ∀ m ∈ modules, ∃ status, (m, status) ∈ u.pool.done ∧ status.isFailed = false) :=
  ⟨rows_once distinct run, counted_once distinct run, deploy_ok_iff distinct run⟩

theorem parsed_bytes {m : AnyModule} {version : String} {wasmBytes : List UInt8}
    (upper : ∀ key, IsUpperName key → setting.texts.toUppercase key = key)
    (reads : ReadsText setting.text) (names : UpperNames m.envVars)
    (clean : Clean m.envVars wasmBytes) {parsed : Parsed}
    (parse : parseRequest setting.texts (requestOf setting m version wasmBytes) = .ok parsed) :
    parsed.wasmBytes = wasmBytes := by
  obtain ⟨form, read, -, wasm⟩ := readForm_upload names reads upper
    (fun key value held => (clean.1 key value held).1) clean.2
  obtain ⟨-, form'⟩ := (parseRequest_form setting.texts _ _).mp parse
  obtain rfl := Except.ok.inj (read.symm.trans form')
  exact Option.some.inj wasm

/-- After a deploy that succeeds the server has every module, under the version that its row
    shows: with the hash of the bytes that were sent last, if their form can be read back, and
    active unless the flag is set. No request of another worker has changed that. -/
theorem deployed_in_place (setting : Setting) (modules : List AnyModule)
    (server : ModuleStoreActor) (b : BuildState) (u : UploadState)
    (upper : ∀ key, IsUpperName key → setting.texts.toUppercase key = key)
    (reads : ReadsText setting.text) (distinct : Distinct modules)
    (run : Deployed setting modules server b u) (succeeded : deploy modules b u = .ok ()) :
    ∀ m ∈ modules, ∃ status wasmBytes bumped version, (m, status) ∈ u.pool.done ∧
      Own setting m (shownVersion m status) bumped ∧
      (m, shownVersion m status, wasmBytes) ∈ u.world.requests ∧
      setting.texts.parseVersion (shownVersion m status) = some version ∧
      (UpperNames m.envVars → Clean m.envVars wasmBytes →
        storedHash u.world.server.store (serverType m.moduleType) m.name version =
          some (setting.digest wasmBytes)) ∧
      (setting.noActivate = false →
        activeVersion u.world.server.store (serverType m.moduleType) m.name = some version) := by
  intro m member
  obtain ⟨-, each⟩ := (deploy_ok_iff distinct run).mp succeeded
  obtain ⟨status, entry, fine⟩ := each m member
  obtain ⟨workers, turns, uploads⟩ := run.uploads
  have apart : (alive modules b.world).Pairwise (uploadOutline setting).Apart :=
    (List.pairwise_map.mp distinct.keys).filter _
  have kept := (uploadOutline setting).kept_run apart trivial (fun _ _ => trivial) uploads
  obtain ⟨wasmBytes, bumped, own, sent, parsed, parse, stored, active⟩ :=
    kept.done m status entry fine
  refine ⟨status, wasmBytes, bumped, parsed.version, entry, own, sent,
    (parseRequest_carried parse).1, ?_, active⟩
  intro names clean
  rw [parsed_bytes upper reads names clean parse] at stored
  exact stored

end results

section sample

def greet : AnyModule :=
  .rust ⟨"greet", "1.0.0", .commands, ∅, "target/greet.wasm", "commands/greet/Cargo.toml"⟩

def mail : AnyModule := .js ⟨"mail", "1.0.0", .effects, ∅, "effects/mail", "dist/module.wasm"⟩

def sampleSetting : Setting := ⟨sampleTexts, zeroDigest, validText, false, false⟩

def sampleBuild : List BuildTurn :=
  [.other (.spawned (.ok ())), .take 0,
    .other (.line (some ⟨some "compiler-artifact", some ["cdylib"], some "greet", none, none⟩)),
    .other (.exited true ""), .move 0 (.ok (true, "")), .other .next, .other .next]

def alternating (action : UploadAction) : List UploadTurn := [.move 0 action, .move 1 action]

def sampleUpload : List UploadTurn :=
  [.take 0, .take 1] ++ alternating (.send true (some magic)) ++
    [.move 0 (.save none .never 1), .move 1 (.save none .never 2)] ++
    alternating (.activate none .never false) ++ alternating (.receive none)

def sampleRun : Option (BuildState × UploadState) :=
  (exec (WorkQueues.step (buildWork false [greet, mail])) (buildStart [greet, mail] 1)
    sampleBuild).bind fun b =>
      (exec (WorkQueues.step (uploadWork sampleSetting))
        (uploadStart emptyActor (alive [greet, mail] b.world) 2) sampleUpload).map fun u => (b, u)

def isEnded {J L R : Type} (pool : Pool J L R) : Bool :=
  pool.queue.isEmpty && pool.held.all Option.isNone

theorem ended_of {J L R : Type} {pool : Pool J L R} (done : isEnded pool = true) : Ended pool := by
  simpa [isEnded, Ended] using done

theorem sampleRun_deployed : ∃ b u, Deployed sampleSetting [greet, mail] emptyActor b u ∧
    deploy [greet, mail] b u = .ok () := by
  have seen : sampleRun.map (fun run => (isEnded run.1.pool, isEnded run.2.pool,
      run.1.world.cargo.finished.isSome, (deploy [greet, mail] run.1 run.2).isOk)) =
        some (true, true, true, true) := by
    decide +kernel
  obtain ⟨⟨b, u⟩, ran, ends⟩ := Option.map_eq_some_iff.mp seen
  obtain ⟨b', builds, later⟩ := Option.bind_eq_some_iff.mp ran
  obtain ⟨u', uploads, same⟩ := Option.map_eq_some_iff.mp later
  obtain ⟨rfl, rfl⟩ := Prod.mk.inj same
  simp only [Prod.mk.injEq] at ends
  obtain ⟨built, uploaded, joined, fine⟩ := ends
  refine ⟨b', u', ⟨⟨1, _, builds⟩, ⟨ended_of built, joined⟩, ⟨2, _, uploads⟩,
    ended_of uploaded⟩, ?_⟩
  cases result : deploy [greet, mail] b' u' with
  | ok done => rfl
  | error err => simp [result, Except.isOk, Except.toBool] at fine

theorem sample_distinct : Distinct [greet, mail] where
  keys := by decide
  crates := List.nodup_singleton _

theorem deploy_counts_greet_and_mail : ∃ b u,
    Deployed sampleSetting [greet, mail] emptyActor b u ∧
      ((b.world.shown ++ u.world.shown).map Prod.fst).Perm ([greet, mail].map AnyModule.key) ∧
      (∀ ty, (combine u.world.stats b.world.stats ty).total =
        [greet, mail].countP fun m => decide (m.moduleType = ty)) ∧
      (deploy [greet, mail] b u = .ok () ↔ [greet, mail] ≠ [] ∧ ∀ m ∈ [greet, mail],
        ∃ status, (m, status) ∈ u.pool.done ∧ status.isFailed = false) := by
  obtain ⟨b, u, run, -⟩ := sampleRun_deployed
  exact ⟨b, u, run, deploy_counts_each_module sampleSetting [greet, mail] emptyActor b u
    sample_distinct run⟩

theorem greet_and_mail_in_place : ∃ b u,
    Deployed sampleSetting [greet, mail] emptyActor b u ∧
      ∀ m ∈ [greet, mail], ∃ status wasmBytes bumped version, (m, status) ∈ u.pool.done ∧
        Own sampleSetting m (shownVersion m status) bumped ∧
        (m, shownVersion m status, wasmBytes) ∈ u.world.requests ∧
        sampleSetting.texts.parseVersion (shownVersion m status) = some version ∧
        (UpperNames m.envVars → Clean m.envVars wasmBytes →
          storedHash u.world.server.store (serverType m.moduleType) m.name version =
            some (sampleSetting.digest wasmBytes)) ∧
        (sampleSetting.noActivate = false →
          activeVersion u.world.server.store (serverType m.moduleType) m.name =
            some version) := by
  obtain ⟨b, u, run, succeeded⟩ := sampleRun_deployed
  exact ⟨b, u, run, deployed_in_place sampleSetting [greet, mail] emptyActor b u
    toUpper_upperName validText_reads sample_distinct run succeeded⟩

end sample

end UmariCliDeploys
