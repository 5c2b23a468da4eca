import JobPlatform.Library.Apart
import JobPlatform.Library.Run
import JobPlatform.Store.Effects

namespace JobPlatform

-- The arguments of `CreateJobWithIdempotency`.
structure Submission where
  job          : Job
  dependencies : List JobID
  dedupeWindow : Duration
  deriving DecidableEq

namespace Submission

def scope (c : Submission) : String :=
  idempotencyScope c.job.tenantID c.job.type c.job.idempotencyKey

-- The record as it is stored.
def record (c : Submission) : IdempotencyRecord :=
  Postgres.storedRecord (Postgres.newIdempotencyRecord c.job c.dedupeWindow)

@[simp]
theorem record_expiresAt_stored {c : Submission} : c.record.expiresAt.stored = c.record.expiresAt :=
  Time.stored_stored _

-- The window is never empty.
theorem createdAt_le_expiresAt {c : Submission} : c.job.createdAt.stored ≤ c.record.expiresAt := by
  refine Time.stored_mono ?_
  have hm : (0 : Int) ≤ 15 * Duration.minute := by decide
  unfold Postgres.newIdempotencyRecord
  dsimp only
  split
  case isTrue     => exact Int.le_add_of_nonneg_right hm
  case isFalse hd => exact Int.le_add_of_nonneg_right (not_le.mp hd).le

def accepted (c : Submission) : EnqueueResult where
  job                 := c.job
  duplicateSuppressed := false
  idempotency         := some (Postgres.newIdempotencyRecord c.job c.dedupeWindow)

end Submission

-- How far a call has come. A row of the table of records is identified by its scope and its job, and
-- `deleted` is the job of the row which the transaction has deleted.
inductive Stage
  | selecting
  | locking (record : IdempotencyRecord)
  | locked (record : IdempotencyRecord)
  | loaded (record : IdempotencyRecord) (job : Job)
  | creating (deleted : Option JobID)
  | inserting (deleted : Option JobID) (dependencies : List JobID)
  | recorded (deleted : Option JobID)
  | violated
  | reloading (record : IdempotencyRecord)
  | done (res : Except Error EnqueueResult)

namespace Stage

def isDone : Stage → Bool
  | done _ => true
  | _      => false

def isRecorded : Stage → Bool
  | recorded _ => true
  | _          => false

-- The row that the transaction has deleted.
def deletedRow : Stage → Option JobID
  | creating deleted    => deleted
  | inserting deleted _ => deleted
  | recorded deleted    => deleted
  | _                   => none

-- The row which nobody else can lock or delete until the transaction ends.
def lockedRow : Stage → Option JobID
  | locked record   => some record.jobID
  | loaded record _ => some record.jobID
  | stage           => stage.deletedRow

end Stage

structure Transaction where
  submission : Submission
  stage      : Stage

-- The committed tables, the calls of `CreateJobWithIdempotency`, and those that were committed in
-- this order.
structure Database where
  postgres     : Postgres
  transactions : List Transaction
  commits      : List Submission

inductive DatabaseLabel
  | begin (c : Submission)
  | proceed (i : Nat)
  | abort (i : Nat)
  | loseCommit (i : Nat)

namespace Database

def start (p : Postgres) : Database where
  postgres     := p
  transactions := []
  commits      := []

def others (s : Database) (i : Nat) : List Transaction :=
  s.transactions.eraseIdx i

def enter (s : Database) (i : Nat) (t : Transaction) (stage : Stage) : Database :=
  { s with transactions := s.transactions.set i { t with stage } }

-- `SELECT ... FOR UPDATE` has seen the record. It waits for the lock, and if the row is gone by then
-- it returns nothing, as a new row is not among those that it has seen.
def lockRecord (s : Database) (i : Nat) (t : Transaction) (record : IdempotencyRecord) : Database :=
  match s.postgres.idempotency t.submission.scope with
  | none         => s.enter i t (.creating none)
  | some current =>
    if current.jobID ≠ record.jobID then
      s.enter i t (.creating none)
    else if (s.others i).any fun u =>
        u.submission.scope = t.submission.scope ∧ u.stage.lockedRow = some record.jobID then
      s
    else
      s.enter i t (.locked current)

-- The unique index makes the insertion wait for those who are inserting or deleting a row of the scope.
def insertRecord (s : Database) (i : Nat) (t : Transaction) (deleted : Option JobID) : Database :=
  if (s.others i).any fun u => u.submission.scope = t.submission.scope ∧ u.stage.isRecorded then
    s
  else
    match s.postgres.idempotency t.submission.scope with
    | none         => s.enter i t (.recorded deleted)
    | some current =>
      if deleted = some current.jobID then
        s.enter i t (.recorded deleted)
      else if (s.others i).any fun u =>
          u.submission.scope = t.submission.scope ∧ u.stage.deletedRow = some current.jobID then
        s
      else
        s.enter i t .violated

-- What becomes visible when the transaction is committed.
def committed (c : Submission) (p : Postgres) : Postgres :=
  { p with
    jobs         := Function.update p.jobs c.job.id (some <| Postgres.newRow c.job)
    dependencies := (c.dependencies.filter (· ≠ "")).foldl (fun t d => t.insert ⟨c.job.id, d⟩) p.dependencies
    idempotency  := Function.update p.idempotency c.scope (some c.record)
  }

def commit (s : Database) (i : Nat) (t : Transaction) (res : Except Error EnqueueResult) : Database :=
  { s.enter i t (.done res) with
    postgres := committed t.submission s.postgres
    commits  := s.commits ++ [t.submission]
  }

-- The next statement of the call, where each statement sees what has been committed before it.
def proceed (s : Database) (i : Nat) (t : Transaction) : Database :=
  let c := t.submission
  match t.stage with
  | .selecting =>
    match s.postgres.idempotency c.scope with
    | none        => s.enter i t (.creating none)
    | some record => s.enter i t (.locking record)
  | .locking record => s.lockRecord i t record
  | .locked record =>
    if c.job.createdAt < record.expiresAt then
      match s.postgres.jobs record.jobID with
      | some job => s.enter i t (.loaded record job)
      | none     => s.enter i t (.done (.error .noRows))
    else
      s.enter i t (.creating (some record.jobID))
  | .loaded record job =>
    s.enter i t (.done (.ok { job, duplicateSuppressed := true, idempotency := some record }))
  | .creating deleted =>
    match Postgres.insertJobTx c.job s.postgres with
    | .ok _    => s.enter i t (.inserting deleted c.dependencies)
    | .error e => s.enter i t (.done (.error e))
  | .inserting deleted (d :: rest) =>
    if d = "" ∨ d = c.job.id ∨ (s.postgres.jobs d).isSome then
      s.enter i t (.inserting deleted rest)
    else
      s.enter i t (.done (.error .foreignKeyViolation))
  | .inserting deleted [] => s.insertRecord i t deleted
  | .recorded _ => s.commit i t (.ok c.accepted)
  | .violated =>
    match s.postgres.idempotency c.scope with
    | none        => s.enter i t (.done (.error .noRows))
    | some record => s.enter i t (.reloading record)
  | .reloading record =>
    match s.postgres.jobs record.jobID with
    | some job =>
      s.enter i t (.done (.ok { job, duplicateSuppressed := true, idempotency := some record }))
    | none     => s.enter i t (.done (.error .noRows))
  | .done _ => s

-- The connection is lost, or the statement fails.
def abort (s : Database) (i : Nat) (t : Transaction) : Database :=
  if t.stage.isDone then s else s.enter i t (.done (.error .unavailable))

-- The transaction is committed, but the answer is lost.
def loseCommit (s : Database) (i : Nat) (t : Transaction) : Database :=
  if t.stage.isRecorded then s.commit i t (.error .unavailable) else s

def step (s : Database) : DatabaseLabel → Database
  | .begin c      => { s with transactions := s.transactions ++ [{ submission := c, stage := .selecting }] }
  | .proceed i    => s.transactions[i]?.elim s (s.proceed i)
  | .abort i      => s.transactions[i]?.elim s (s.abort i)
  | .loseCommit i => s.transactions[i]?.elim s (s.loseCommit i)

-- The identifiers of the jobs are drawn at random.
def Allowed (s : Database) : DatabaseLabel → Prop
  | .begin c => s.postgres.jobs c.job.id = none ∧ ∀ t ∈ s.transactions, t.submission.job.id ≠ c.job.id
  | _        => True

instance Allowed.decidable {s : Database} : (l : DatabaseLabel) → Decidable (s.Allowed l)
  | .begin _      => inferInstanceAs (Decidable (_ ∧ _))
  | .proceed _    => .isTrue trivial
  | .abort _      => .isTrue trivial
  | .loseCommit _ => .isTrue trivial

-- The record has been committed for the scope.
def Committed (p : Postgres) (commits : List Submission) (scope : String) (record : IdempotencyRecord) : Prop :=
  p.idempotency scope = some record ∨ ∃ c ∈ commits, c.scope = scope ∧ c.record = record

-- Each scope has at most one accepted job in each window.
structure AtMostOnce (p : Postgres) (s : Database) : Prop where
  windows    : s.commits.Pairwise fun c c' => c.scope = c'.scope → c.record.expiresAt ≤ c'.job.createdAt.stored
  accepted   : ∀ t ∈ s.transactions, ∀ res, t.stage = .done (.ok res) → res.duplicateSuppressed = false →
    res.job = t.submission.job ∧ t.submission ∈ s.commits
  suppressed : ∀ t ∈ s.transactions, ∀ res, t.stage = .done (.ok res) → res.duplicateSuppressed = true →
    s.postgres.jobs t.submission.job.id = none ∧
    ∃ record, Committed p s.commits t.submission.scope record ∧ s.postgres.jobs record.jobID = some res.job
  stored     : ∀ c ∈ s.commits, s.postgres.jobs c.job.id = some (Postgres.newRow c.job)
  distinct   : (s.commits.map (·.job.id)).Nodup
  known      : ∀ id, s.postgres.jobs id ≠ p.jobs id → ∃ c ∈ s.commits, c.job.id = id

variable {p₀ p : Postgres} {s : Database} {c c' : Submission} {t t' u : Transaction} {i j : Nat}
         {stage : Stage} {commits : List Submission} {deleted : Option JobID}

-- The row that the transaction has deleted is still there for everybody else, and it has expired.
def Replaces (p : Postgres) (c : Submission) (deleted : Option JobID) : Prop :=
  ∀ jobID ∈ deleted, ∃ record, p.idempotency c.scope = some record ∧ record.jobID = jobID ∧
    record.expiresAt ≤ c.job.createdAt

-- What a call knows about the committed tables.
def Knows (p₀ p : Postgres) (commits : List Submission) (c : Submission) : Stage → Prop
  | .locked record       => p.idempotency c.scope = some record
  | .loaded record job   => p.idempotency c.scope = some record ∧ p.jobs record.jobID = some job
  | .creating deleted    => Replaces p c deleted
  | .inserting deleted _ => Replaces p c deleted
  | .recorded deleted    => Replaces p c deleted ∧ (deleted = none → p.idempotency c.scope = none)
  | .reloading record    => Committed p₀ commits c.scope record
  | .done (.ok res)      =>
    if res.duplicateSuppressed
    then p.jobs c.job.id = none ∧
      ∃ record, Committed p₀ commits c.scope record ∧ p.jobs record.jobID = some res.job
    else res.job = c.job ∧ c ∈ commits
  | _                    => True

-- Two transactions neither lock the same row nor insert rows for the same scope.
structure Compatible (t u : Transaction) : Prop where
  jobs    : t.submission.job.id ≠ u.submission.job.id
  locks   : t.submission.scope = u.submission.scope → ∀ jobID ∈ t.stage.lockedRow, u.stage.lockedRow ≠ some jobID
  records : t.submission.scope = u.submission.scope → ¬(t.stage.isRecorded ∧ u.stage.isRecorded)

-- The invariant of the database.
structure Sound (p₀ : Postgres) (s : Database) : Prop where
  windows    : s.commits.Pairwise fun c c' => c.scope = c'.scope → c.record.expiresAt ≤ c'.job.createdAt.stored
  stored     : ∀ c ∈ s.commits, s.postgres.jobs c.job.id = some (Postgres.newRow c.job)
  distinct   : (s.commits.map (·.job.id)).Nodup
  known      : ∀ id, s.postgres.jobs id ≠ p₀.jobs id → ∃ c ∈ s.commits, c.job.id = id
  current    : ∀ scope record, s.postgres.idempotency scope = some record → Committed p₀ s.commits scope record
  latest     : ∀ c ∈ s.commits, ∃ record, s.postgres.idempotency c.scope = some record ∧
    c.record.expiresAt ≤ record.expiresAt
  fresh      : ∀ t ∈ s.transactions, t.stage.isDone = false → s.postgres.jobs t.submission.job.id = none
  knows      : ∀ t ∈ s.transactions, Knows p₀ s.postgres s.commits t.submission t.stage
  compatible : Apart Compatible s.transactions

theorem Compatible.symm (h : Compatible t u) : Compatible u t where
  jobs            := h.jobs.symm
  locks he x hu ht := h.locks he.symm x ht hu
  records he hr   := h.records he.symm hr.symm

namespace Sound

theorem start : Sound p (start p) where
  windows              := .nil
  stored               := by simp [Database.start]
  distinct             := by simp [Database.start]
  known _ h            := absurd rfl h
  current _ _ h        := .inl h
  latest               := by simp [Database.start]
  fresh                := by simp [Database.start]
  knows                := by simp [Database.start]
  compatible           := .nil

theorem atMostOnce (h : Sound p₀ s) : AtMostOnce p₀ s where
  windows  := h.windows
  stored   := h.stored
  distinct := h.distinct
  known    := h.known
  accepted t ht res hs hd := by simpa [Knows, hs, hd] using h.knows t ht
  suppressed t ht res hs hd := by simpa [Knows, hs, hd] using h.knows t ht

-- A call goes on while nothing is committed.
theorem enter (h : Sound p₀ s) (ht : s.transactions[i]? = some t) (hd : t.stage.isDone = false)
    (hk : Knows p₀ s.postgres s.commits t.submission stage)
    (hl : ∀ jobID ∈ stage.lockedRow, t.stage.lockedRow = some jobID ∨
      ∀ u ∈ s.others i, u.submission.scope = t.submission.scope → u.stage.lockedRow ≠ some jobID)
    (hr : stage.isRecorded → ∀ u ∈ s.others i, u.submission.scope = t.submission.scope → ¬u.stage.isRecorded) :
    Sound p₀ (s.enter i t stage) := by
  have hm : t ∈ s.transactions := List.mem_of_getElem? ht
  have hc (u) (hu : u ∈ s.others i) : Compatible { t with stage } u := by
    have hc := h.compatible.rel ht hu
    refine ⟨hc.jobs, fun he x hx hu' => ?_, fun he ⟨hr', hu'⟩ => hr hr' u hu he.symm hu'⟩
    match hl x hx with
    | .inl hx => exact hc.locks he x hx hu'
    | .inr hn => exact hn u hu he.symm hu'
  have hset (u) (hu : u ∈ (s.enter i t stage).transactions) : u ∈ s.transactions ∨ u = { t with stage } :=
    List.mem_or_eq_of_mem_set hu
  refine { h with fresh := fun u hu hn => ?_, knows := fun u hu => ?_, compatible := ?_ }
  · match hset u hu with
    | .inl hu => exact h.fresh u hu hn
    | .inr he => exact he ▸ h.fresh t hm hd
  · match hset u hu with
    | .inl hu => exact h.knows u hu
    | .inr he => exact he ▸ hk
  · exact h.compatible.set (fun _ _ => Compatible.symm) hc

-- The stages in which a call holds no lock.
theorem enter_free (h : Sound p₀ s) (ht : s.transactions[i]? = some t) (hd : t.stage.isDone = false)
    (hk : Knows p₀ s.postgres s.commits t.submission stage) (hl : stage.lockedRow = none)
    (hr : stage.isRecorded = false) : Sound p₀ (s.enter i t stage) :=
  h.enter ht hd hk (by simp [hl]) (by simp [hr])

-- The stages in which a call keeps its lock.
theorem enter_keep (h : Sound p₀ s) (ht : s.transactions[i]? = some t) (hd : t.stage.isDone = false)
    (hk : Knows p₀ s.postgres s.commits t.submission stage) (hl : stage.lockedRow = t.stage.lockedRow)
    (hr : stage.isRecorded = false) : Sound p₀ (s.enter i t stage) :=
  h.enter ht hd hk (fun _ hx => .inl (hl ▸ hx)) (by simp [hr])

theorem begin (h : Sound p₀ s) (ha : s.Allowed (.begin c)) : Sound p₀ (s.step (.begin c)) := by
  have hset (u) (hu : u ∈ (s.step (.begin c)).transactions) :
      u ∈ s.transactions ∨ u = { submission := c, stage := .selecting } := by
    simpa [step] using hu
  refine { h with fresh := fun u hu hn => ?_, knows := fun u hu => ?_, compatible := ?_ }
  · match hset u hu with
    | .inl hu => exact h.fresh u hu hn
    | .inr he => exact he ▸ ha.left
  · match hset u hu with
    | .inl hu => exact h.knows u hu
    | .inr he => exact he ▸ trivial
  · refine h.compatible.snoc (fun _ _ => Compatible.symm) fun u hu => ?_
    exact ⟨(ha.right u hu).symm, by simp [Stage.lockedRow, Stage.deletedRow], by simp [Stage.isRecorded]⟩

theorem lockRecord {record : IdempotencyRecord} (h : Sound p₀ s) (ht : s.transactions[i]? = some t)
    (hs : t.stage = .locking record) : Sound p₀ (s.lockRecord i t record) := by
  have hd : t.stage.isDone = false := by rw [hs]; rfl
  have hn : Sound p₀ (s.enter i t (.creating none)) := h.enter_free ht hd (by simp [Knows, Replaces]) rfl rfl
  unfold Database.lockRecord
  split
  case h_1 => exact hn
  case h_2 current hc =>
    split
    case isTrue       => exact hn
    case isFalse hi   =>
      split
      case isTrue     => exact h
      case isFalse ho =>
        simp only [ne_eq, not_not] at hi
        simp only [List.any_eq_true, decide_eq_true_eq, not_exists, not_and, ← hi] at ho
        refine h.enter ht hd hc (fun x hx => .inr fun u hu he => ?_) (by simp [Stage.isRecorded])
        cases hx
        exact ho u hu he

theorem insertRecord (h : Sound p₀ s) (ht : s.transactions[i]? = some t)
    (hs : t.stage = .inserting deleted []) : Sound p₀ (s.insertRecord i t deleted) := by
  have hd : t.stage.isDone = false := by rw [hs]; rfl
  have hk := h.knows t (List.mem_of_getElem? ht)
  rw [hs] at hk
  unfold Database.insertRecord
  split
  case isTrue     => exact h
  case isFalse ho =>
    simp only [List.any_eq_true, decide_eq_true_eq, not_exists, not_and] at ho
    have hl (x) (hx : x ∈ (Stage.recorded deleted).lockedRow) : t.stage.lockedRow = some x := by rw [hs]; exact hx
    split
    case h_1 hn =>
      exact h.enter ht hd ⟨hk, fun _ => hn⟩ (fun x hx => .inl (hl x hx)) fun _ => ho
    case h_2 current hc =>
      split
      case isTrue he  =>
        exact h.enter ht hd ⟨hk, by simp [he]⟩ (fun x hx => .inl (hl x hx)) fun _ => ho
      case isFalse    =>
        split
        case isTrue   => exact h
        case isFalse  => exact h.enter_free ht hd trivial rfl rfl

end Sound

theorem Committed.mono {scope : String} {record : IdempotencyRecord} (h : Committed p₀ commits scope record) (c : Submission) :
    Committed p₀ (commits ++ [c]) scope record :=
  h.imp_right fun ⟨c', hc, he⟩ => ⟨c', List.mem_append_left _ hc, he⟩

-- What a call knows stays true if its row remains, and if no row is inserted that it is about to insert.
theorem Knows.committed {stage : Stage} (h : Knows p₀ p commits c' stage) (hn : p.jobs c.job.id = none)
    (hi : c'.job.id ≠ c.job.id)
    (hl : c'.scope = c.scope → ∀ record ∈ p.idempotency c.scope, stage.lockedRow ≠ some record.jobID)
    (hr : c'.scope = c.scope → stage.isRecorded = false) :
    Knows p₀ (committed c p) (commits ++ [c]) c' stage := by
  have hj {jobID job} (hj : p.jobs jobID = some job) : (Database.committed c p).jobs jobID = some job := by
    have hne : jobID ≠ c.job.id := fun he => by simp [← he, hj] at hn
    exact (Function.update_of_ne hne ..).trans hj
  have hi : (Database.committed c p).jobs c'.job.id = p.jobs c'.job.id := Function.update_of_ne hi ..
  have hp {record} (hp : p.idempotency c'.scope = some record) (hx : stage.lockedRow = some record.jobID) :
      (Database.committed c p).idempotency c'.scope = some record := by
    by_cases hs : c'.scope = c.scope
    case pos => exact absurd hx (hl hs record (hs ▸ hp))
    case neg => exact (Function.update_of_ne hs ..).trans hp
  have hd {deleted} (hd : Replaces p c' deleted) (hx : stage.lockedRow = deleted) :
      Replaces (Database.committed c p) c' deleted := by
    intro jobID hj
    have ⟨record, hr, he, ht⟩ := hd jobID hj
    exact ⟨record, hp hr (by rw [hx, he]; exact hj), he, ht⟩
  cases stage
  case selecting => trivial
  case locking   => trivial
  case violated  => trivial
  case locked    => exact hp h rfl
  case loaded    => exact ⟨hp h.left rfl, hj h.right⟩
  case creating  => exact hd h rfl
  case inserting => exact hd h rfl
  case reloading => exact h.mono c
  case recorded deleted =>
    refine ⟨hd h.left rfl, fun hn => ?_⟩
    have hs : c'.scope ≠ c.scope := fun hs => by simpa [Stage.isRecorded] using hr hs
    exact (Function.update_of_ne hs ..).trans (h.right hn)
  case done res =>
    cases res
    case error  => trivial
    case ok res =>
      cases hd : res.duplicateSuppressed
      case true =>
        simp only [Knows, hd, if_true] at h ⊢
        have ⟨hn, record, hc, hr⟩ := h
        exact ⟨hi ▸ hn, record, hc.mono c, hj hr⟩
      case false =>
        simp only [Knows, hd, Bool.false_eq_true, if_false] at h ⊢
        exact ⟨h.left, List.mem_append_left _ h.right⟩

namespace Sound

theorem commit {res : Except Error EnqueueResult} (h : Sound p₀ s) (ht : s.transactions[i]? = some t)
    (hs : t.stage = .recorded deleted)
    (hres : res = .ok t.submission.accepted ∨ res = .error .unavailable) : Sound p₀ (s.commit i t res) := by
  have hm := List.mem_of_getElem? ht
  have hk := h.knows t hm
  have hn := h.fresh t hm (by rw [hs]; rfl)
  rw [hs] at hk
  -- The row which is replaced has expired.
  have hx (record) (hr : s.postgres.idempotency t.submission.scope = some record) :
      t.stage.lockedRow = some record.jobID ∧ record.expiresAt ≤ t.submission.job.createdAt := by
    cases deleted
    case none   => simp [hk.right rfl] at hr
    case some x =>
      have ⟨record', hr', he, hx⟩ := hk.left x rfl
      cases hr.symm.trans hr'
      exact ⟨by rw [hs, he]; rfl, hx⟩
  have hw (c) (hc : c ∈ s.commits) (he : c.scope = t.submission.scope) :
      c.record.expiresAt ≤ t.submission.job.createdAt.stored := by
    have ⟨record, hr, hl⟩ := h.latest c hc
    have hl := Time.stored_mono (hl.trans (hx record (he ▸ hr)).right)
    rwa [Submission.record_expiresAt_stored] at hl
  have hset (u) (hu : u ∈ (s.commit i t res).transactions) :
      u ∈ s.others i ∨ u = { t with stage := .done res } := Apart.mem_of_mem_set hu
  have hi (c) (hc : c ∈ s.commits) : c.job.id ≠ t.submission.job.id := by
    intro he
    have hc := h.stored c hc
    rw [he, hn] at hc
    cases hc
  constructor
  case windows =>
    refine List.pairwise_append.mpr ⟨h.windows, by simp, fun c hc c' hc' he => ?_⟩
    cases List.mem_singleton.mp hc'
    exact hw c hc he
  case stored =>
    intro c hc
    cases List.mem_append.mp hc
    case inl hc => exact (Function.update_of_ne (hi c hc) ..).trans (h.stored c hc)
    case inr hc =>
      cases List.mem_singleton.mp hc
      exact Function.update_self ..
  case distinct =>
    have hi : ∀ c ∈ s.commits, c.job.id ≠ t.submission.job.id := hi
    simpa [Database.commit, Database.enter, List.nodup_append, h.distinct] using hi
  case known =>
    intro id hne
    by_cases he : id = t.submission.job.id
    case pos => exact ⟨t.submission, by simp [Database.commit], he.symm⟩
    case neg =>
      have hu : (s.commit i t res).postgres.jobs id = s.postgres.jobs id := Function.update_of_ne he ..
      have ⟨c, hc, he⟩ := h.known id (hu ▸ hne)
      exact ⟨c, List.mem_append_left _ hc, he⟩
  case current =>
    intro scope record hr
    by_cases he : scope = t.submission.scope
    case pos =>
      subst he
      cases (Function.update_self ..).symm.trans hr
      exact .inr ⟨t.submission, by simp [Database.commit], rfl, rfl⟩
    case neg =>
      have hu : (s.commit i t res).postgres.idempotency scope = s.postgres.idempotency scope :=
        Function.update_of_ne he ..
      exact (h.current scope record (hu ▸ hr)).mono _
  case latest =>
    intro c hc
    by_cases he : c.scope = t.submission.scope
    case pos =>
      refine ⟨t.submission.record, he ▸ Function.update_self .., ?_⟩
      cases List.mem_append.mp hc
      case inl hc => exact (hw c hc he).trans Submission.createdAt_le_expiresAt
      case inr hc => cases List.mem_singleton.mp hc; rfl
    case neg =>
      have hc : c ∈ s.commits := by
        refine (List.mem_append.mp hc).resolve_right fun hc => he ?_
        cases List.mem_singleton.mp hc
        rfl
      have ⟨record, hr, hl⟩ := h.latest c hc
      exact ⟨record, (Function.update_of_ne he ..).trans hr, hl⟩
  case fresh =>
    intro u hu hd
    match hset u hu with
    | .inr he => cases he; cases hd
    | .inl hu =>
      have hc := h.compatible.rel ht hu
      exact (Function.update_of_ne hc.jobs.symm ..).trans (h.fresh u (List.mem_of_mem_eraseIdx hu) hd)
  case knows =>
    intro u hu
    match hset u hu with
    | .inr he =>
      cases he
      cases hres
      case inl he => cases he; exact ⟨rfl, by simp [Database.commit]⟩
      case inr he => cases he; trivial
    | .inl hu =>
      have hc := h.compatible.rel ht hu
      refine (h.knows u (List.mem_of_mem_eraseIdx hu)).committed hn hc.jobs.symm (fun he record hr => ?_) fun he => ?_
      · exact hc.locks he.symm _ (hx record hr).left
      · simpa [hs, Stage.isRecorded] using hc.records he.symm
  case compatible =>
    refine h.compatible.set (fun _ _ => Compatible.symm) fun u hu => ?_
    exact ⟨(h.compatible.rel ht hu).jobs, by simp [Stage.lockedRow, Stage.deletedRow], by simp [Stage.isRecorded]⟩

-- The call ends with the job of a record.
theorem suppress {record : IdempotencyRecord} {job : Job} (h : Sound p₀ s) (ht : s.transactions[i]? = some t)
    (hd : t.stage.isDone = false) (hc : Committed p₀ s.commits t.submission.scope record)
    (hj : s.postgres.jobs record.jobID = some job) :
    Sound p₀ (s.enter i t (.done (.ok { job, duplicateSuppressed := true, idempotency := some record }))) :=
  have hn := h.fresh t (List.mem_of_getElem? ht) hd
  h.enter_free ht hd ⟨hn, record, hc, hj⟩ rfl rfl

theorem fail {e : Error} (h : Sound p₀ s) (ht : s.transactions[i]? = some t) (hd : t.stage.isDone = false) :
    Sound p₀ (s.enter i t (.done (.error e))) :=
  h.enter_free ht hd trivial rfl rfl

theorem proceed (h : Sound p₀ s) (ht : s.transactions[i]? = some t) : Sound p₀ (s.proceed i t) := by
  have hk := h.knows t (List.mem_of_getElem? ht)
  cases hs : t.stage
  all_goals
    have hd : t.stage.isDone = _ := congrArg Stage.isDone hs
    simp only [Database.proceed, hs]
    rw [hs] at hk
  case selecting =>
    split
    case h_1 => exact h.enter_free ht hd (by simp [Knows, Replaces]) rfl rfl
    case h_2 => exact h.enter_free ht hd trivial rfl rfl
  case locking => exact h.lockRecord ht hs
  case locked record =>
    split
    case isTrue =>
      split
      case h_1 job hj => exact h.enter_keep ht hd ⟨hk, hj⟩ (by rw [hs]; rfl) rfl
      case h_2        => exact h.fail ht hd
    case isFalse hx =>
      refine h.enter_keep ht hd (fun jobID hj => ?_) (by rw [hs]; rfl) rfl
      cases hj
      exact ⟨record, hk, rfl, not_lt.mp hx⟩
  case loaded => exact h.suppress ht hd (h.current _ _ hk.left) hk.right
  case creating =>
    split
    case h_1 => exact h.enter_keep ht hd hk (by rw [hs]; rfl) rfl
    case h_2 => exact h.fail ht hd
  case inserting dependencies =>
    cases dependencies
    case nil  => exact h.insertRecord ht hs
    case cons =>
      dsimp only
      split
      case isTrue  => exact h.enter_keep ht hd hk (by rw [hs]; rfl) rfl
      case isFalse => exact h.fail ht hd
  case recorded => exact h.commit ht hs (.inl rfl)
  case violated =>
    split
    case h_1          => exact h.fail ht hd
    case h_2 record hr => exact h.enter_free ht hd (h.current _ _ hr) rfl rfl
  case reloading record =>
    split
    case h_1 job hj => exact h.suppress ht hd hk hj
    case h_2        => exact h.fail ht hd
  case done => exact h

theorem step {l : DatabaseLabel} (h : Sound p₀ s) (ha : s.Allowed l) : Sound p₀ (s.step l) := by
  have hs {i : Nat} {f : Transaction → Database} (hf : ∀ t, s.transactions[i]? = some t → Sound p₀ (f t)) :
      Sound p₀ (s.transactions[i]?.elim s f) := by
    cases ht : s.transactions[i]?
    case none   => exact h
    case some t => exact hf t ht
  cases l
  case begin   => exact h.begin ha
  case proceed => exact hs fun t ht => h.proceed ht
  case abort   =>
    refine hs fun t ht => ?_
    unfold Database.abort
    split
    case isTrue     => exact h
    case isFalse hd => exact h.fail ht (by simpa using hd)
  case loseCommit =>
    refine hs fun t ht => ?_
    unfold Database.loseCommit
    cases hr : t.stage
    case recorded => exact h.commit ht hr (.inr rfl)
    all_goals exact h

end Sound

-- However the calls are interleaved, each scope has at most one accepted job in each window.
theorem atMostOnce_of_allowed {p : Postgres} {ls : List DatabaseLabel}
    (hg : Run.Guarded step Allowed (start p) ls) : AtMostOnce p (Run.last step (start p) ls) :=
  (hg.invariant (fun _ _ => Sound.step) Sound.start).atMostOnce

namespace Sample

def submission (id : JobID) (now : Time) : Submission where
  job          := buildJob now { JobRequest.plain "email.send" with idempotencyKey := "order-1" } id
  dependencies := []
  dedupeWindow := 15 * Duration.minute

-- Two calls overlap, and another one comes when the record of the first one has expired.
def labels : List DatabaseLabel :=
  [.begin (submission "job-1" 1000), .begin (submission "job-2" 2000), .proceed 0, .proceed 1, .proceed 0,
    .proceed 1, .proceed 0, .proceed 1, .proceed 0, .proceed 1, .proceed 1, .proceed 1,
    .begin (submission "job-3" (1000 + 15 * Duration.minute))] ++ List.replicate 6 (.proceed 2)

end Sample

theorem atMostOnce_of_allowed_sample : AtMostOnce .empty (Run.last step (start .empty) Sample.labels) :=
  atMostOnce_of_allowed (by decide)

example : (Run.last step (start .empty) Sample.labels).commits.map (·.job.id) = ["job-1", "job-3"] := by
  decide

-- A call that is alone in the database.
def solo (p : Postgres) (c : Submission) (stage : Stage) : Database where
  postgres     := p
  transactions := [{ submission := c, stage }]
  commits      := []

-- If nobody else does anything, the call ends with the given tables and the given result.
def Ends (p : Postgres) (c : Submission) (stage : Stage) (p' : Postgres) (res : Except Error EnqueueResult) : Prop :=
  ∃ n, let s := Run.last step (solo p c stage) (List.replicate n (.proceed 0))
    s.postgres = p' ∧ s.transactions = [{ submission := c, stage := .done res }]

namespace Ends

variable {stage stage' : Stage} {p' : Postgres} {res : Except Error EnqueueResult} {e : Error}
         {dependencies : List JobID}

theorem next (h : Ends p c stage' p' res) (hs : (solo p c stage).proceed 0 { submission := c, stage } = solo p c stage') :
    Ends p c stage p' res :=
  have ⟨n, hn⟩ := h
  ⟨n + 1, by rw [List.replicate_succ, Run.last, List.foldl_cons]; exact (hs ▸ hn :)⟩

theorem done : Ends p c (.done res) p res :=
  ⟨0, rfl, rfl⟩

theorem stop (hs : (solo p c stage).proceed 0 { submission := c, stage } = solo p c (.done res)) :
    Ends p c stage p res :=
  done.next hs

theorem committed : Ends p c (.recorded deleted) (committed c p) (.ok c.accepted) :=
  ⟨1, rfl, rfl⟩

-- The dependencies of a job are checked one by one, as in the transaction.
theorem inserting (dependencies : List JobID) {q : Postgres} (hr : Ends p c (.inserting deleted []) p' res)
    (hq : ∀ d, (q.jobs d).isSome ↔ d = c.job.id ∨ (p.jobs d).isSome) :
    match Postgres.insertDependenciesTx c.job.id dependencies q with
    | .ok q'   => q' = { q with
        dependencies := (dependencies.filter (· ≠ "")).foldl (fun t d => t.insert ⟨c.job.id, d⟩) q.dependencies } ∧
        Ends p c (.inserting deleted dependencies) p' res
    | .error e => Ends p c (.inserting deleted dependencies) p (.error e) := by
  induction dependencies generalizing q
  case nil            => exact ⟨rfl, hr⟩
  case cons d rest hi =>
    have hj : (q.jobs c.job.id).isSome := (hq _).mpr (.inl rfl)
    unfold Postgres.insertDependenciesTx
    by_cases hd : d = ""
    case pos =>
      have hs : (solo p c (.inserting deleted (d :: rest))).proceed 0 ⟨c, .inserting deleted (d :: rest)⟩ =
          solo p c (.inserting deleted rest) := if_pos (.inl hd)
      have hi := hi hq
      rw [if_pos hd]
      cases hr : Postgres.insertDependenciesTx c.job.id rest q
      case ok q' =>
        rw [hr] at hi
        exact ⟨by simpa [hd] using hi.left, hi.right.next hs⟩
      case error e =>
        rw [hr] at hi
        exact hi.next hs
    case neg =>
      rw [if_neg hd]
      by_cases hk : (q.jobs d).isSome
      case pos =>
        have hs : (solo p c (.inserting deleted (d :: rest))).proceed 0 ⟨c, .inserting deleted (d :: rest)⟩ =
            solo p c (.inserting deleted rest) := if_pos (.inr ((hq d).mp hk))
        have hn : ¬((q.jobs c.job.id).isNone ∨ (q.jobs d).isNone) := by
          simp [Option.isNone_iff_eq_none, ← Option.isSome_iff_ne_none, hj, hk]
        rw [if_neg hn]
        have hi := @hi { q with dependencies := q.dependencies.insert ⟨c.job.id, d⟩ } hq
        cases hr : Postgres.insertDependenciesTx c.job.id rest
          { q with dependencies := q.dependencies.insert ⟨c.job.id, d⟩ }
        case ok q' =>
          rw [hr] at hi
          exact ⟨by simpa [hd] using hi.left, hi.right.next hs⟩
        case error e =>
          rw [hr] at hi
          exact hi.next hs
      case neg =>
        have hn : (q.jobs c.job.id).isNone ∨ (q.jobs d).isNone := .inr (by simpa using hk)
        rw [if_pos hn]
        refine stop (if_neg fun h => ?_)
        cases h
        case inl h => exact hd h
        case inr h => exact hk ((hq d).mpr h)

-- The statements that create the job.
theorem creating (hr : Ends p c (.inserting deleted []) (Database.committed c p) (.ok c.accepted)) :
    let x := Postgres.transaction (fun p => (Postgres.storeTx c.job c.dependencies p).map
      (Postgres.recordTx c.job <| Postgres.newIdempotencyRecord c.job c.dedupeWindow)) p
    Ends p c (.creating deleted) x.1 x.2 := by
  dsimp only
  cases hi : Postgres.insertJobTx c.job p
  case error e =>
    have hs : (solo p c (.creating deleted)).proceed 0 ⟨c, .creating deleted⟩ = solo p c (.done (.error e)) := by
      simp only [Database.proceed, solo, hi]
      rfl
    simpa [Postgres.transaction, Postgres.storeTx, hi, bind, Except.bind, Except.map] using stop hs
  case ok q =>
    have hs : (solo p c (.creating deleted)).proceed 0 ⟨c, .creating deleted⟩ =
        solo p c (.inserting deleted c.dependencies) := by
      simp only [Database.proceed, solo, hi]
      rfl
    obtain ⟨_, hq⟩ := Postgres.insertJobTx_eq_ok hi
    have hk (d) : (q.jobs d).isSome ↔ d = c.job.id ∨ (p.jobs d).isSome := by
      by_cases hd : d = c.job.id
      case pos => simp [hq, hd]
      case neg => simp [hq, hd]
    have hd := inserting c.dependencies hr hk
    cases hr : Postgres.insertDependenciesTx c.job.id c.dependencies q
    case error e =>
      rw [hr] at hd
      simpa [Postgres.transaction, Postgres.storeTx, hi, hr, bind, Except.bind, Except.map] using hd.next hs
    case ok q' =>
      rw [hr] at hd
      obtain ⟨he, hd⟩ := hd
      have hx : Postgres.storeTx c.job c.dependencies p = .ok q' := by
        simpa [Postgres.storeTx, hi, bind, Except.bind] using hr
      simp only [Postgres.transaction, hx, Except.map, he, hq]
      exact hd.next hs

end Ends

-- A call that is alone does what the model of the whole transaction says.
theorem selecting_ends : Ends p c .selecting
    (p.createJobWithIdempotency c.job c.dependencies c.dedupeWindow).1
    (p.createJobWithIdempotency c.job c.dependencies c.dedupeWindow).2 := by
  cases hr : p.idempotency c.scope
  case none =>
    have hs : (solo p c .selecting).proceed 0 ⟨c, .selecting⟩ = solo p c (.creating none) := by
      simp only [proceed, solo, hr]
      rfl
    have hi : (solo p c (.inserting none [])).proceed 0 ⟨c, .inserting none []⟩ = solo p c (.recorded none) := by
      simp [proceed, solo, insertRecord, others, hr]
      rfl
    rw [Postgres.createJobWithIdempotency_expired fun record he => by cases hr.symm.trans he]
    exact (Ends.creating (Ends.committed.next hi)).next hs
  case some record =>
    have hs : (solo p c .selecting).proceed 0 ⟨c, .selecting⟩ = solo p c (.locking record) := by
      simp only [proceed, solo, hr]
      rfl
    have hl : (solo p c (.locking record)).proceed 0 ⟨c, .locking record⟩ = solo p c (.locked record) := by
      simp [proceed, solo, lockRecord, others, hr]
      rfl
    suffices h : Ends p c (.locked record) _ _ from (h.next hl).next hs
    by_cases hx : c.job.createdAt < record.expiresAt
    case pos =>
      rw [Postgres.createJobWithIdempotency_unexpired hr hx]
      cases hj : p.jobs record.jobID
      case none =>
        refine .stop ?_
        simp only [proceed, solo, hx, hj, if_true]
        rfl
      case some job =>
        have hn : (solo p c (.locked record)).proceed 0 ⟨c, .locked record⟩ = solo p c (.loaded record job) := by
          simp only [proceed, solo, hx, hj, if_true]
          rfl
        exact (Ends.stop rfl).next hn
    case neg =>
      have hn : (solo p c (.locked record)).proceed 0 ⟨c, .locked record⟩ =
          solo p c (.creating (some record.jobID)) := if_neg hx
      have hi : (solo p c (.inserting (some record.jobID) [])).proceed 0 ⟨c, .inserting (some record.jobID) []⟩ =
          solo p c (.recorded (some record.jobID)) := by
        simp [proceed, solo, insertRecord, others, hr]
        rfl
      rw [Postgres.createJobWithIdempotency_expired fun existing he => by
        cases hr.symm.trans he
        exact not_lt.mp hx]
      exact (Ends.creating (Ends.committed.next hi)).next hn

end Database
end JobPlatform
