import Mathlib.Logic.Function.Basic

/-!
A store under snapshot isolation with one writer at a time. The first statement of a
transaction fixes what the transaction sees. A write takes the writer's place, and is
refused while another transaction holds it, or when somebody has committed since the
snapshot was taken. So what a writer starts from is what was committed last.
-/
namespace SnapshotStores
universe u v
variable {I : Type u} {D : Type v}

structure Snapshot (D : Type v) where
  version : Nat
  seen : D

structure Writer (I : Type u) (D : Type v) where
  owner : I
  working : D

/-- A snapshot of the current version shows what is committed. -/
def Snapshot.Valid (snap : Snapshot D) (version : Nat) (committed : D) : Prop :=
  snap.version ≤ version ∧ (snap.version = version → snap.seen = committed)

structure Store (I : Type u) (D : Type v) where
  committed : D
  version : Nat
  snapshots : I → Option (Snapshot D)
  writer : Option (Writer I D)
  valid : ∀ i, ∀ snap ∈ snapshots i, snap.Valid version committed

namespace Store

def new (committed : D) : Store I D where
  committed := committed
  version := 0
  snapshots := fun _ => none
  writer := none
  valid := fun _ _ found => absurd found (by simp)

@[simp] theorem new_writer (contents : D) : (new contents : Store I D).writer = none := rfl

/-- New contents; every snapshot taken before is stale from now on. -/
def publish (s : Store I D) (contents : D) : Store I D where
  committed := contents
  version := s.version + 1
  snapshots := s.snapshots
  writer := s.writer
  valid := by
    intro i snap found
    have older := (s.valid i snap found).1
    constructor
    · omega
    · intro current
      omega

/-- A write outside of a transaction, refused while there is a writer. -/
def autocommit (s : Store I D) (f : D → D) : Option (Store I D) :=
  match s.writer with
  | some _ => none
  | none => some (s.publish (f s.committed))

theorem autocommit_some {s t : Store I D} {f : D → D} (done : s.autocommit f = some t) :
    s.writer = none ∧ t.writer = none ∧ t.committed = f s.committed := by
  unfold autocommit at done
  cases held : s.writer with
  | some w =>
    rw [held] at done
    exact absurd done (by simp)
  | none =>
    rw [held] at done
    cases done
    exact ⟨rfl, held, rfl⟩

variable [DecidableEq I]

def setSnapshot (s : Store I D) (i : I) (snapshot : Option (Snapshot D))
    (valid : ∀ snap ∈ snapshot, snap.Valid s.version s.committed) : Store I D where
  committed := s.committed
  version := s.version
  snapshots := Function.update s.snapshots i snapshot
  writer := s.writer
  valid := by
    intro j snap found
    by_cases same : j = i
    · subst same
      rw [Function.update_self] at found
      exact valid snap found
    · rw [Function.update_of_ne same] at found
      exact s.valid j snap found

def view (s : Store I D) (i : I) : D :=
  match s.writer with
  | some w =>
    if w.owner = i then w.working else ((s.snapshots i).map Snapshot.seen).getD s.committed
  | none => ((s.snapshots i).map Snapshot.seen).getD s.committed

/-- A read takes a snapshot, unless the transaction has one. -/
def read (s : Store I D) (i : I) : Store I D :=
  s.setSnapshot i (some ((s.snapshots i).getD ⟨s.version, s.committed⟩)) (by
    intro snap found
    cases old : s.snapshots i with
    | none =>
      rw [old] at found
      cases found
      exact ⟨Nat.le_refl _, fun _ => rfl⟩
    | some earlier =>
      rw [old] at found
      cases found
      exact s.valid i earlier old)

/-- The writer's place is free or held by `i`, whose snapshot is the latest. -/
def mayWrite (s : Store I D) (i : I) : Bool :=
  match s.writer with
  | some w => decide (w.owner = i)
  | none =>
    match s.snapshots i with
    | none => true
    | some snap => decide (snap.version = s.version)

def write (s : Store I D) (i : I) (f : D → D) : Option (Store I D) :=
  if s.mayWrite i then some { s with writer := some ⟨i, f (s.view i)⟩ } else none

/-- The snapshot of a transaction that ended is gone, and so are its writes. -/
def rollback (s : Store I D) (i : I) : Store I D :=
  { s.setSnapshot i none (fun _ found => absurd found (by simp)) with
    writer := s.writer.filter fun w => decide (w.owner ≠ i) }

/-- Without writes there is nothing to publish. -/
def commit (s : Store I D) (i : I) : Store I D :=
  match s.writer with
  | some w => if w.owner = i then (s.publish w.working).rollback i else s.rollback i
  | none => s.rollback i

section laws
variable {s t : Store I D} {i : I} {f : D → D}

theorem rollback_writer {w : Writer I D} :
    (s.rollback i).writer = some w ↔ s.writer = some w ∧ w.owner ≠ i := by
  unfold rollback
  rw [Option.filter_eq_some_iff, decide_eq_true_iff]

theorem view_writer {w : Writer I D} (held : s.writer = some w) : s.view w.owner = w.working := by
  unfold view
  rw [held]
  exact if_pos rfl

theorem view_latest (may : s.mayWrite i = true) (free : s.writer = none) :
    s.view i = s.committed := by
  unfold view
  unfold mayWrite at may
  rw [free] at may ⊢
  dsimp only at may ⊢
  cases taken : s.snapshots i with
  | none => rfl
  | some snap =>
    rw [taken] at may
    exact (s.valid i snap taken).2 (by simpa using may)

theorem mayWrite_writer {w : Writer I D} (held : s.writer = some w) :
    s.mayWrite i = true ↔ w.owner = i := by
  unfold mayWrite
  rw [held]
  exact decide_eq_true_iff

theorem write_some (written : s.write i f = some t) :
    s.mayWrite i = true ∧ t = { s with writer := some ⟨i, f (s.view i)⟩ } := by
  unfold write at written
  by_cases may : s.mayWrite i = true
  · rw [if_pos may] at written
    exact ⟨may, (Option.some.inj written).symm⟩
  · rw [if_neg may] at written
    exact absurd written (by simp)

theorem commit_writer {w : Writer I D} (held : s.writer = some w) :
    (s.commit w.owner).committed = w.working ∧ (s.commit w.owner).writer = none := by
  unfold commit
  rw [held]
  dsimp only
  rw [if_pos rfl]
  constructor
  · rfl
  · simp [rollback, publish, held, Option.filter]

theorem commit_reader (other : ∀ w, s.writer = some w → w.owner ≠ i) :
    (s.commit i).committed = s.committed ∧ (s.commit i).writer = s.writer := by
  unfold commit
  cases held : s.writer with
  | none =>
    constructor
    · rfl
    · simp [rollback, held]
  | some w =>
    dsimp only
    rw [if_neg (other w held)]
    constructor
    · rfl
    · simp [rollback, held, Option.filter, other w held]

end laws
end Store
end SnapshotStores
