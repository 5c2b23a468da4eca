import JobPlatform.Scheduler.Batch

namespace JobPlatform

-- What a recovery asks of the stores.
inductive Request
  | recover
  | load (jobID : JobID)
  | mark (jobID : JobID)
  | attempt (jobID : JobID)
  | bury (jobID : JobID)
  | outcome (jobID : JobID)
  deriving DecidableEq

def Call.request? : Call → Option Request
  | broker (.recoverExpired ..)                => some .recover
  | broker (.loadJob jobID)                    => some <| .load jobID
  | repo (.markJobRetrying job _)              => some <| .mark job.id
  | repo (.markJobFailed job)                  => some <| .mark job.id
  | repo (.markJobCanceled job)                => some <| .mark job.id
  | repo (.upsertJobAttempt attempt)           => some <| .attempt attempt.jobID
  | repo (.upsertDeadLetter deadLetter)        => some <| .bury deadLetter.jobID
  | repo (.updateIdempotencyOutcome job ..)    => some <| .outcome job.id
  | _                                          => none

-- The requests fail as `f` says. A scheduler that has stopped asks for nothing more, which leaves the
-- stores as if the rest of its requests were refused.
def World.failing (f : Request → Fault) (w : World) (c : Call) : World × c.Resp :=
  w.tryExec (fun _ => c.request?.elim .none f) c

-- What the database says about a job: its state, and whether it is a dead letter.
def Postgres.entry (p : Postgres) (j : JobID) : Option (JobState × Bool) :=
  (p.jobs j).map fun row => (row.state, (p.deadLetters j).isSome)

-- The database changes what it says about the job `j`.
structure Alters (j : JobID) (g : JobState × Bool → JobState × Bool) (w w' : World) : Prop where
  redis   : w'.redis = w.redis
  entries : ∀ k, w'.postgres.entry k = if k = j then (w.postgres.entry k).map g else w.postgres.entry k

namespace Alters

variable {w w' w'' : World} {j : JobID} {g g' : JobState × Bool → JobState × Bool} {f : Request → Fault}

theorem of_same (hr : w'.redis = w.redis) (hp : w'.postgres.entry = w.postgres.entry) : Alters j id w w' where
  redis     := hr
  entries k := by simp [hp]

theorem trans (h : Alters j g w w') (h' : Alters j g' w' w'') : Alters j (g' ∘ g) w w'' where
  redis     := h'.redis.trans h.redis
  entries k := by
    rw [h'.entries, h.entries]
    split
    case isTrue  => rw [Option.map_map]
    case isFalse => rfl

theorem of_refused {calls : Nat} : Alters j id w { w with calls } :=
  .of_same rfl rfl

theorem of_calls {calls : Nat} (h : Alters j g { w with calls } w') : Alters j g w w' :=
  ⟨h.redis, h.entries⟩

-- A call to the database, which may fail.
theorem repo {c : RepoCall} {q : Request} (hq : (Call.repo c).request? = some q)
    (h : Alters j g w (w.exec (.repo c)).1) :
    Alters j (if f q = .refused then id else g) w (w.failing f (.repo c)).1 := by
  unfold World.failing World.tryExec
  simp only [hq, Option.elim_some, Call.failure?]
  cases f q
  case none    => exact h
  case refused => exact .of_refused
  case lost    => exact h

-- A call that does not matter here, whether it fails or not.
theorem ignore {c : RepoCall} {q : Request} (hq : (Call.repo c).request? = some q)
    (h : Alters j id w (w.exec (.repo c)).1) : Alters j id w (w.failing f (.repo c)).1 := by
  have h := @repo _ _ _ f _ _ hq h
  rwa [ite_self] at h

theorem now : Alters j id w (w.failing f .now).1 :=
  .of_refused

theorem update {m : Job → Job} {s : JobState} {calls : Nat} (hm : ∀ row, (m row).state = s) :
    Alters j (fun x => (s, x.2)) w { w with calls, postgres := w.postgres.updateJob j m } where
  redis     := rfl
  entries k := by
    dsimp only
    unfold Postgres.entry
    rw [Postgres.updateJob_jobs]
    split
    case isFalse => rfl
    case isTrue  =>
      rw [Option.map_map, Option.map_map]
      exact congrArg (Option.map · (w.postgres.jobs k)) <| funext fun row => by simp [hm, Postgres.updateJob]

theorem bury (deadLetter : DeadLetter) :
    Alters deadLetter.jobID (fun x => (x.1, true)) w (w.exec (.repo (.upsertDeadLetter deadLetter))).1 where
  redis     := rfl
  entries k := by
    simp only [World.exec_repo, Postgres.exec, Postgres.upsertDeadLetter]
    cases hj : w.postgres.jobs deadLetter.jobID
    case none =>
      simp only [Option.isNone_none, if_true]
      split
      case isTrue hk => simp [hk, Postgres.entry, hj]
      case isFalse   => rfl
    case some row =>
      simp only [Option.isNone_some, Bool.false_eq_true, if_false, Postgres.entry, Function.update_apply]
      split
      case isTrue  => simp [Function.comp_def]
      case isFalse => rfl

theorem attempt (attempt : JobAttempt) : Alters j id w (w.exec (.repo (.upsertJobAttempt attempt))).1 := by
  refine .of_same rfl ?_
  simp only [World.exec_repo, Postgres.exec, Postgres.upsertJobAttempt]
  split <;> rfl

theorem outcome {job : Job} {status : String} :
    Alters j id w ((updateIdempotencyOutcome job status).run (World.failing f) w).1 := by
  unfold updateIdempotencyOutcome
  split
  case isTrue  => exact .of_same rfl rfl
  case isFalse =>
    have ho (w : World) (t : Time) : Alters j id w (w.exec (.repo (.updateIdempotencyOutcome job status t))).1 :=
      .of_same rfl rfl
    have hn : Alters j id w (w.failing f .now).1 := now
    exact hn.trans <| ignore rfl <| ho _ (w.failing f .now).2

end Alters

namespace RecoveredLease

-- The scheduler does not get over a retry whose time is missing.
def crashes (item : RecoveredLease) : Bool :=
  item.state = .retrying ∧ item.retryAt = none

-- What the database learns from the item when some of the requests fail.
def noted (f : Request → Fault) (item : RecoveredLease) (x : JobState × Bool) : JobState × Bool :=
  (if item.crashes ∨ f (.mark item.jobID) = .refused then x.1 else item.state,
    x.2 || item.state = .failed && f (.bury item.jobID) ≠ .refused)

end RecoveredLease

namespace Scheduler

variable {w w' : World} {job : Job} {f : Request → Fault} {items : List RecoveredLease} {item : RecoveredLease}
         {h : JobHash}

theorem markRetried_alters (hj : job.id = item.jobID) (ht : job.state = item.state) (hs : item.state = .retrying) :
    Alters item.jobID (item.noted f) w ((markRetried job item.retryAt).run (World.failing f) w).1 := by
  have ended (b : Bool) (w : World) : Alters job.id id w ((do
      let started  ← valueOrNow job.startedAt
      let finished ← timeNow
      let _ ← repo (.upsertJobAttempt <| expiredAttempt job started finished)
      return if b then .ok () else .error .nilDereference : Program (Except Error Unit)).run
        (World.failing f) w).1 := by
    cases job.startedAt
    case none => exact Alters.now.trans <| Alters.now.trans <| .ignore rfl <| .attempt _
    case some => exact Alters.now.trans <| .ignore rfl <| .attempt _
  obtain ⟨jobID, state, retryAt⟩ := item
  dsimp only at hj ht hs ⊢
  subst hj hs
  cases retryAt
  case none =>
    have hn : RecoveredLease.noted f ⟨job.id, .retrying, none⟩ = id := by
      funext x
      simp [RecoveredLease.noted, RecoveredLease.crashes]
    exact hn ▸ ended false w
  case some t =>
    have hm : Alters job.id (fun x => (.retrying, x.2)) w (w.exec (.repo (.markJobRetrying job t))).1 :=
      .update fun _ => ht
    have hn : RecoveredLease.noted f ⟨job.id, .retrying, some t⟩ =
        id ∘ if f (.mark job.id) = .refused then id else fun x => (.retrying, x.2) := by
      funext x
      by_cases hf : f (.mark job.id) = .refused <;> simp [RecoveredLease.noted, RecoveredLease.crashes, hf]
    exact hn ▸ (hm.repo rfl).trans (ended true _)

theorem markRetried_result {retryAt : Option Time} : ((markRetried job retryAt).run (World.failing f) w).2 =
    if retryAt.isSome then .ok () else .error .nilDereference := by
  cases retryAt <;> cases hs : job.startedAt <;> simp [markRetried, hs, valueOrNow, Prog.run_bind]

theorem markFailed_alters (hj : job.id = item.jobID) (ht : job.state = item.state) (hs : item.state = .failed) :
    Alters item.jobID (item.noted f) w ((markFailed job).run (World.failing f) w).1 := by
  obtain ⟨jobID, state, retryAt⟩ := item
  dsimp only at hj ht hs ⊢
  subst hj hs
  let job' := { job with finishedAt := some w.now }
  let w₁ := (w.failing f .now).1
  let w₂ := (w₁.failing f (.repo (.markJobFailed job'))).1
  let w₃ := (w₂.failing f (.repo (.upsertDeadLetter <| expiredDeadLetter job' w.now))).1
  have h₁ : Alters job.id id w w₁ := .now
  have h₂ : Alters job.id (if f (.mark job.id) = .refused then id else fun x => (.failed, x.2)) w₁ w₂ :=
    .repo rfl <| .update fun _ => ht
  have h₃ : Alters job.id (if f (.bury job.id) = .refused then id else fun x => (x.1, true)) w₂ w₃ :=
    .repo rfl <| .bury (expiredDeadLetter job' w.now)
  have h₄ : Alters job.id id w₃ ((updateIdempotencyOutcome job' "failed").run (World.failing f) w₃).1 := .outcome
  have hn : RecoveredLease.noted f ⟨job.id, .failed, retryAt⟩ =
      (if f (.bury job.id) = .refused then id else fun x => (x.1, true)) ∘
        if f (.mark job.id) = .refused then id else fun x => (.failed, x.2) := by
    funext x
    by_cases hm : f (.mark job.id) = .refused <;> by_cases hb : f (.bury job.id) = .refused <;>
      simp [RecoveredLease.noted, RecoveredLease.crashes, hm, hb]
  exact hn ▸ ((h₁.trans h₂).trans h₃).trans h₄

theorem markCanceled_alters (hj : job.id = item.jobID) (ht : job.state = item.state) (hs : item.state = .canceled) :
    Alters item.jobID (item.noted f) w ((markCanceled job).run (World.failing f) w).1 := by
  obtain ⟨jobID, state, retryAt⟩ := item
  dsimp only at hj ht hs ⊢
  subst hj hs
  let job' := { job with finishedAt := some w.now, cancelRequested := true }
  let w₁ := (w.failing f .now).1
  have h₁ : Alters job.id id w w₁ := .now
  have h₂ : Alters job.id (if f (.mark job.id) = .refused then id else fun x => (.canceled, x.2)) w₁
      (w₁.failing f (.repo (.markJobCanceled job'))).1 := .repo rfl <| .update fun _ => ht
  have hn : RecoveredLease.noted f ⟨job.id, .canceled, retryAt⟩ =
      if f (.mark job.id) = .refused then id else fun x => (.canceled, x.2) := by
    funext x
    by_cases hm : f (.mark job.id) = .refused <;> simp [RecoveredLease.noted, RecoveredLease.crashes, hm]
  exact hn ▸ h₁.trans h₂

-- The scheduler gets to read the job `j` of the items.
def reads (f : Request → Fault) (j : JobID) : List RecoveredLease → Bool
  | []           => false
  | item :: rest =>
    if item.jobID = j then f (.load j) = .none
    else ¬(f (.load item.jobID) = .none ∧ item.crashes) ∧ reads f j rest

-- What the database learns from the items that the scheduler gets to read.
structure Learns (f : Request → Fault) (items : List RecoveredLease) (w w' : World) : Prop where
  redis  : w'.redis = w.redis
  listed : ∀ item ∈ items, w'.postgres.entry item.jobID = (w.postgres.entry item.jobID).map fun x =>
    if reads f item.jobID items then item.noted f x else x
  others : ∀ k, (∀ item ∈ items, item.jobID ≠ k) → w'.postgres.entry k = w.postgres.entry k

theorem markRecovered_cons_failing (hj : w.redis.jobs item.jobID = some h) (items : List RecoveredLease) :
    (markRecovered (item :: items)).run (World.failing f) w =
      if f (.load item.jobID) = .none then (match item.state with
        | .retrying => (markRetried (jobFromHash h) item.retryAt).bind fun
          | .error e => .ret (.error e)
          | .ok ()   => markRecovered items
        | .failed   => (markFailed (jobFromHash h)).bind fun _ => markRecovered items
        | .canceled => (markCanceled (jobFromHash h)).bind fun _ => markRecovered items
        | _         => markRecovered items : Program (Except Error Unit)).run (World.failing f)
          { w with calls := w.calls + 1 }
      else (markRecovered items).run (World.failing f) { w with calls := w.calls + 1 } := by
  rw [markRecovered]
  refine (Prog.run_call (Call.broker (.loadJob item.jobID)) _).trans ?_
  simp only [World.failing, World.tryExec, Call.request?, Call.failure?, Option.elim_some, World.exec_broker,
    RedisBroker.exec, RedisBroker.loadJob, hj]
  cases f (.load item.jobID)
  case none    => cases item.state <;> rfl
  case refused => rfl
  case lost    => rfl

-- The answers that the scheduler works with agree with what the broker has stored.
structure Stored (w : World) (item : RecoveredLease) (h : JobHash) : Prop where
  hash  : w.redis.jobs item.jobID = some h
  keyed : h.id = item.jobID
  state : h.state = item.state
  ended : item.state = .canceled ∨ item.state = .retrying ∨ item.state = .failed

-- The scheduler goes on after an item unless the item crashes it.
theorem Learns.cons {w₁ : World} (hm : item.jobID ∉ items.map (·.jobID))
    (ha : Alters item.jobID (if f (.load item.jobID) = .none then item.noted f else id) w w₁)
    (hs : f (.load item.jobID) = .none ∧ item.crashes → w' = w₁)
    (hg : ¬(f (.load item.jobID) = .none ∧ item.crashes) → Learns f items w₁ w') : Learns f (item :: items) w w' := by
  have hm (item') (hi : item' ∈ items) : item.jobID ≠ item'.jobID :=
    fun he => hm <| he ▸ List.mem_map_of_mem hi
  have hk (k) (hk : k ≠ item.jobID) : w₁.postgres.entry k = w.postgres.entry k := (ha.entries k).trans <| if_neg hk
  have hi : w'.postgres.entry item.jobID = w₁.postgres.entry item.jobID := by
    by_cases hc : f (.load item.jobID) = .none ∧ item.crashes
    case pos => rw [hs hc]
    case neg => exact (hg hc).others _ fun item' hi => (hm item' hi).symm
  constructor
  case redis =>
    by_cases hc : f (.load item.jobID) = .none ∧ item.crashes
    case pos => rw [hs hc, ha.redis]
    case neg => rw [(hg hc).redis, ha.redis]
  case others =>
    intro k hn
    have ⟨hn, hns⟩ := List.forall_mem_cons.mp hn
    by_cases hc : f (.load item.jobID) = .none ∧ item.crashes
    case pos => rw [hs hc, hk k hn.symm]
    case neg => rw [(hg hc).others k hns, hk k hn.symm]
  case listed =>
    refine List.forall_mem_cons.mpr ⟨?_, fun item' hi' => ?_⟩
    · rw [hi, ha.entries, if_pos rfl, reads, if_pos rfl]
      by_cases hl : f (.load item.jobID) = .none <;> simp [hl]
    · rw [reads, if_neg (hm item' hi')]
      by_cases hc : f (.load item.jobID) = .none ∧ item.crashes
      case pos => simp [hs hc, hk _ (hm item' hi').symm, hc]
      case neg => simp [(hg hc).listed item' hi', hk _ (hm item' hi').symm, hc]

theorem markRecovered_learns (hn : (items.map (·.jobID)).Nodup) (hi : ∀ item ∈ items, ∃ h, Stored w item h) :
    Learns f items w ((markRecovered items).run (World.failing f) w).1 ∧
    (((markRecovered items).run (World.failing f) w).2 = .ok () →
      ∀ item ∈ items, f (.load item.jobID) = .none → item.crashes = false) := by
  induction items generalizing w
  case nil => exact ⟨⟨rfl, by simp, fun _ _ => rfl⟩, by simp⟩
  case cons item items hind =>
    have ⟨hm, hn⟩ := List.nodup_cons.mp hn
    have ⟨⟨h, hh⟩, hi⟩ := List.forall_mem_cons.mp hi
    have next {w₁ : World} (hr : w₁.redis = w.redis) := @hind w₁ hn fun item' hi' => by
      have ⟨h, hx⟩ := hi item' hi'
      exact ⟨h, hr ▸ hx.hash, hx.keyed, hx.state, hx.ended⟩
    rw [markRecovered_cons_failing hh.hash]
    by_cases hl : f (.load item.jobID) = .none
    case neg =>
      have hx := @next { w with calls := w.calls + 1 } rfl
      rw [if_neg hl]
      have ha : Alters item.jobID (if f (.load item.jobID) = .none then item.noted f else id) w
          { w with calls := w.calls + 1 } := by simpa [hl] using Alters.of_refused
      refine ⟨.cons hm ha (fun hc => absurd hc.left hl) fun _ => hx.left, fun hr => ?_⟩
      exact List.forall_mem_cons.mpr ⟨fun h => absurd h hl, hx.right hr⟩
    case pos =>
      have hid : (jobFromHash h).id = item.jobID := hh.keyed
      have hst : (jobFromHash h).state = item.state := hh.state
      -- The item is noted without a crash.
      have noted {w₁ : World} (ha : Alters item.jobID (item.noted f) w w₁) (hc : item.crashes = false) :
          Learns f (item :: items) w ((markRecovered items).run (World.failing f) w₁).1 ∧
          (((markRecovered items).run (World.failing f) w₁).2 = .ok () →
            ∀ item' ∈ item :: items, f (.load item'.jobID) = .none → item'.crashes = false) := by
        have hx := next ha.redis
        have ha : Alters item.jobID (if f (.load item.jobID) = .none then item.noted f else id) w w₁ := by
          rwa [if_pos hl]
        refine ⟨.cons hm ha (by simp [hc]) fun _ => hx.left, fun hr => ?_⟩
        exact List.forall_mem_cons.mpr ⟨fun _ => hc, hx.right hr⟩
      rw [if_pos hl]
      match hs : item.state, hh.ended with
      | .canceled, _ =>
        simp only [Prog.run_bind]
        exact noted (markCanceled_alters hid hst hs).of_calls (by simp [RecoveredLease.crashes, hs])
      | .failed, _   =>
        simp only [Prog.run_bind]
        exact noted (markFailed_alters hid hst hs).of_calls (by simp [RecoveredLease.crashes, hs])
      | .retrying, _ =>
        have ha {calls : Nat} : Alters item.jobID (item.noted f) { w with calls } _ := markRetried_alters hid hst hs
        simp only [Prog.run_bind, markRetried_result]
        by_cases hr : item.retryAt.isSome
        case pos =>
          rw [if_pos hr]
          exact noted ha.of_calls (by simp [RecoveredLease.crashes, Option.ne_none_iff_isSome.mpr hr])
        case neg =>
          have hc : item.crashes := by simp [RecoveredLease.crashes, hs, Option.not_isSome_iff_eq_none.mp hr]
          rw [if_neg hr]
          refine ⟨.cons hm (by rw [if_pos hl]; exact ha.of_calls) (fun _ => rfl) fun hn => absurd ⟨hl, hc⟩ hn, ?_⟩
          exact fun hr => nomatch hr

end Scheduler
end JobPlatform
