import JobPlatform.Scheduler.Batch
import JobPlatform.Store.Attempts

namespace JobPlatform

namespace RedisBroker

variable {b : RedisBroker} {r r' : Redis} {j k : JobID} {h h' : JobHash} {now limit : Int} {ids : List JobID}
         {items : List RecoveredLease}

-- The script forgets who held the lease.
structure Released (h h' : JobHash) : Prop where
  id         : h'.id = h.id
  attempts   : h'.attempts = h.attempts
  startedAt  : h'.startedAt = h.startedAt
  workerID   : h'.workerID = ""
  leaseToken : h'.leaseToken = ""
  state      : h'.state = recoveredState h

-- A lease is as it was, or it has been released.
def Passed (r r' : Redis) : Prop :=
  ∀ k h, r.jobs k = some h →
    r'.jobs k = some h ∧ (r'.zsets .activeLeases).score? k = (r.zsets .activeLeases).score? k ∨
    ∃ h', r'.jobs k = some h' ∧ Released h h'

theorem Passed.unchanged {r₁ : Redis} (h : Passed r r₁) (hu : ∀ k ≠ j, r₁.Unchanged k r')
    (hn : r.jobs j = none ∨ ∃ h', r'.jobs j = some h' ∧ ∀ h, r.jobs j = some h → Released h h') : Passed r r' := by
  intro k hash hk
  by_cases hkj : k = j
  case pos =>
    subst hkj
    match hn with
    | .inl hn            => simp [hn] at hk
    | .inr ⟨h', hr, hn⟩ => exact .inr ⟨h', hr, hn hash hk⟩
  case neg =>
    have hu := hu k hkj
    rw [hu.jobs, hu.score]
    exact h k hash hk

-- What the script reports when it gets to its end, and what it has made of the jobs by then.
structure Reports (limit now : Int) (r r' : Redis) (items : List RecoveredLease) : Prop where
  nodup    : (items.map (·.jobID)).Nodup
  released : ∀ item ∈ items, ∃ h h', r.jobs item.jobID = some h ∧ r'.jobs item.jobID = some h' ∧ Released h h' ∧
    item.state = recoveredState h
  complete : ∀ j ∈ expired limit now r, (r.jobs j).isSome → ∃ item ∈ items, item.jobID = j
  listed   : ∀ item ∈ items, item.jobID ∈ expired limit now r

end RedisBroker

-- The row of an attempt tells that its lease has expired, and who held the lease since when.
structure Complete (h : JobHash) (row : JobAttempt) : Prop where
  leaseExpired : row.leaseExpired = true
  finished     : row.finishedAt.isSome
  workerID     : row.workerID = h.workerID
  leaseToken   : row.leaseToken = h.leaseToken
  startedAt    : ∀ t ∈ h.startedAt, row.startedAt = (Time.ofUnixMilli t).stored

-- The database tells what has become of the attempt that lost its lease, and a dead letter names its worker.
structure Audited (h : JobHash) (p : Postgres) : Prop where
  attempt    : ∃ row ∈ p.attempts h.id h.attempts, Complete h row
  deadLetter : RedisBroker.recoveredState h = .failed → ∃ letter ∈ p.deadLetters h.id, letter.workerID = h.workerID

-- Nothing is lost when the broker forgets who held the lease. An attempt that is not retried gets no row.
def Intact (h : JobHash) (p : Postgres) : Prop :=
  match RedisBroker.recoveredState h with
  | .retrying => h.workerID = "" ∧ h.leaseToken = ""
  | .failed   => (∃ row ∈ p.attempts h.id h.attempts, Complete h row) ∧ h.workerID = ""
  | _         => ∃ row ∈ p.attempts h.id h.attempts, Complete h row

namespace Scheduler

section

variable {w w' : World} {j k : JobID} {h h' : JobHash} {job : Job} {item : RecoveredLease} {items : List RecoveredLease}

-- What the scheduler writes about a job, and that it writes about no other.
structure Writes (j : JobID) (w w' : World) : Prop where
  redis    : w'.redis = w.redis
  rows     : ∀ k, (w'.postgres.jobs k).isSome = (w.postgres.jobs k).isSome
  attempts : ∀ k ≠ j, w'.postgres.attempts k = w.postgres.attempts k
  letters  : ∀ k ≠ j, w'.postgres.deadLetters k = w.postgres.deadLetters k

namespace Writes

variable {w'' : World}

theorem trans (h : Writes j w w') (h' : Writes j w' w'') : Writes j w w'' where
  redis         := h'.redis.trans h.redis
  rows k        := (h'.rows k).trans (h.rows k)
  attempts k hk := (h'.attempts k hk).trans (h.attempts k hk)
  letters k hk  := (h'.letters k hk).trans (h.letters k hk)

theorem of_calls {calls : Nat} (h : Writes j { w with calls } w') : Writes j w w' :=
  ⟨h.redis, h.rows, h.attempts, h.letters⟩

theorem now : Writes j w (w.exec .now).1 :=
  ⟨rfl, fun _ => rfl, fun _ _ => rfl, fun _ _ => rfl⟩

theorem update {f : Job → Job} {calls : Nat} :
    Writes j w { w with calls, postgres := w.postgres.updateJob k f } where
  redis        := rfl
  attempts _ _ := rfl
  letters _ _  := rfl
  rows i       := by
    rw [Postgres.updateJob_jobs]
    split
    case isTrue  => exact Option.isSome_map
    case isFalse => rfl

theorem attempt (attempt : JobAttempt) :
    Writes attempt.jobID w (w.exec (.repo (.upsertJobAttempt attempt))).1 := by
  rw [World.exec_repo, Postgres.exec, Postgres.upsertJobAttempt]
  split
  case isTrue  => exact ⟨rfl, fun _ => rfl, fun _ _ => rfl, fun _ _ => rfl⟩
  case isFalse => exact ⟨rfl, fun _ => rfl, fun _ hk => Function.update_of_ne hk .., fun _ _ => rfl⟩

theorem letter (letter : DeadLetter) : Writes letter.jobID w (w.exec (.repo (.upsertDeadLetter letter))).1 := by
  rw [World.exec_repo, Postgres.exec, Postgres.upsertDeadLetter]
  split
  case isTrue  => exact ⟨rfl, fun _ => rfl, fun _ _ => rfl, fun _ _ => rfl⟩
  case isFalse => exact ⟨rfl, fun _ => rfl, fun _ _ => rfl, fun _ hk => Function.update_of_ne hk ..⟩

end Writes

-- The row that is written about an attempt whose lease has expired.
structure Row (job : Job) (row : JobAttempt) : Prop where
  leaseExpired : row.leaseExpired = true
  finished     : row.finishedAt.isSome
  workerID     : row.workerID = job.workerID
  leaseToken   : row.leaseToken = ""
  startedAt    : ∀ t ∈ job.startedAt, row.startedAt = t.stored

-- What the database says about the jobs of the items, which were leased as in `r`.
structure Audits (r : Redis) (items : List RecoveredLease) (w w' : World) : Prop where
  audited : ∀ item ∈ items, ∀ h, r.jobs item.jobID = some h → (Audited h w'.postgres ↔ Intact h w.postgres)
  others  : ∀ k, (∀ item ∈ items, item.jobID ≠ k) →
    w'.postgres.attempts k = w.postgres.attempts k ∧ w'.postgres.deadLetters k = w.postgres.deadLetters k

section

variable {p p' : Postgres} {row : JobAttempt} {letter : DeadLetter}

theorem Audited.congr (ha : p'.attempts h.id = p.attempts h.id) (hd : p'.deadLetters h.id = p.deadLetters h.id) :
    Audited h p' ↔ Audited h p := by
  constructor
  case mp  => exact fun hx => ⟨ha ▸ hx.attempt, hd ▸ hx.deadLetter⟩
  case mpr => exact fun hx => ⟨ha.symm ▸ hx.attempt, hd.symm ▸ hx.deadLetter⟩

theorem Intact.congr (ha : p'.attempts h.id = p.attempts h.id) : Intact h p' ↔ Intact h p := by
  rw [Intact, Intact, ha]

end

variable {r : Redis}

theorem Audits.cons {w₁ : World} (hk : ∀ j h, r.jobs j = some h → h.id = j) (hm : item.jobID ∉ items.map (·.jobID))
    (hj : r.jobs item.jobID = some h) (hw : Writes item.jobID w w₁)
    (ha : Audited h w₁.postgres ↔ Intact h w.postgres) (hs : Audits r items w₁ w') : Audits r (item :: items) w w' where
  others k hi :=
    have ⟨hi, his⟩ := List.forall_mem_cons.mp hi
    have ⟨ha, hd⟩  := hs.others k his
    ⟨ha.trans (hw.attempts k hi.symm), hd.trans (hw.letters k hi.symm)⟩
  audited := by
    have hne (item') (hi : item' ∈ items) : item'.jobID ≠ item.jobID := fun he => hm <| he ▸ List.mem_map_of_mem hi
    refine List.forall_mem_cons.mpr ⟨fun h' hj' => ?_, fun item' hi h' hj' => ?_⟩
    · cases hj.symm.trans hj'
      have ⟨ho, hd⟩ := hs.others item.jobID hne
      rw [← hk _ h hj] at ho hd
      exact (Audited.congr ho hd).trans ha
    · have ho := hw.attempts _ (hne item' hi)
      rw [← hk _ h' hj'] at ho
      exact (hs.audited item' hi h' hj').trans (Intact.congr ho)

-- The holder of a lease that the broker has granted is lost.
theorem not_intact {p : Postgres} (ht : h.leaseToken ≠ "")
    (hr : ∀ row ∈ p.attempts h.id h.attempts, row.leaseExpired = false) : ¬Intact h p := by
  have hn : ¬∃ row ∈ p.attempts h.id h.attempts, Complete h row :=
    fun ⟨row, hrow, hc⟩ => Bool.false_ne_true <| (hr row hrow).symm.trans hc.leaseExpired
  unfold Intact
  split
  case h_1 => exact fun hi => ht hi.right
  case h_2 => exact fun hi => hn hi.left
  case h_3 => exact hn

end

namespace Sample

def scheduler : Scheduler where
  activationBatchSize := 100
  recoveryBatchSize   := 100

def job : Job :=
  buildJob 0 (.plain "email.send") "job-1"

-- The worker holds the lease of the first attempt.
def held (maxAttempts : Int) : JobHash :=
  { jobHash job with
    state          := .active
    attempts       := 1
    maxAttempts    := some maxAttempts
    startedAt      := some 1699999990000
    workerID       := "worker-1"
    leaseToken     := "token-1"
    leaseExpiresAt := some 1700000000000
  }

def crashed (maxAttempts : Int) : World :=
  { World.sample with
    redis    := {
      jobs  := Function.update Redis.empty.jobs "job-1" (some <| held maxAttempts)
      lists := Redis.empty.lists
      zsets := Function.update Redis.empty.zsets .activeLeases <| SortedSet.add ∅ "job-1" (.ofInt 1700000000000)
    }
    postgres := { Postgres.empty with jobs := Function.update Postgres.empty.jobs "job-1" (some job) }
  }

def recovered (maxAttempts : Int) : World × Except Error Unit :=
  scheduler.recoverExpired.run World.exec (crashed maxAttempts)

theorem keyed {maxAttempts : Int} (j : JobID) (h : JobHash) (hj : (crashed maxAttempts).redis.jobs j = some h) :
    h.id = j := by
  simp only [crashed, Function.update_apply] at hj
  split at hj
  case isTrue he => cases hj; exact he.symm
  case isFalse   => cases hj

end Sample

end Scheduler
end JobPlatform
