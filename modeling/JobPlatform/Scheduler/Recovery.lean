import JobPlatform.Scheduler.Service
import JobPlatform.Worker.Resolution

namespace JobPlatform

namespace Redis

variable {r r' : Redis} {j k : JobID}

theorem Unchanged.waits (h : r.Unchanged k r') : r'.Waits k ↔ r.Waits k := by
  have hm (l : ListKey) : k ∈ r'.lists l ↔ k ∈ r.lists l := by
    rw [← List.count_pos_iff, ← List.count_pos_iff, h.count l]
  simp only [Waits, hm, h.score .delayed]

end Redis

namespace RedisBroker

variable {b : RedisBroker} {r r' : Redis} {j k : JobID} {h : JobHash} {now : Int} {ids : List JobID}
         {item : RecoveredLease} {items : List RecoveredLease}

-- What becomes of a job whose lease has expired.
def recoveredState (h : JobHash) : JobState :=
  if h.cancelRequested then .canceled
  else if h.attempts < h.maxAttempts.getD 1 then .retrying
  else .failed

-- What becomes of the job `j` if the leases of `ids` have expired.
def verdict (ids : List JobID) (r : Redis) (j : JobID) : Option JobState :=
  if j ∈ ids then (r.jobs j).map recoveredState else none

-- The batch of leases that have expired.
def expired (limit now : Int) (r : Redis) : List JobID :=
  (r.zsets .activeLeases).rangeByScore (.ofInt now) limit

-- A job is recovered as its verdict says. Only those that are retried wait then.
structure Recovered (j : JobID) (v : Option JobState) (r r' : Redis) : Prop where
  state : (r'.jobs j).map (·.state) = (r.jobs j).map fun h => v.getD h.state
  id    : (r'.jobs j).map (·.id) = (r.jobs j).map (·.id)
  waits : r'.Waits j ↔ r.Waits j ∨ v = some .retrying

namespace Recovered

theorem of_unchanged (h : r.Unchanged j r') : Recovered j none r r' where
  state := by simp [h.jobs]
  id    := by rw [h.jobs]
  waits := by simp [h.waits]

theorem unchanged_trans {r₁ : Redis} {v : Option JobState} (hu : r.Unchanged j r₁) (h : Recovered j v r₁ r') :
    Recovered j v r r' where
  state := by rw [h.state, hu.jobs]
  id    := by rw [h.id, hu.jobs]
  waits := by rw [h.waits, hu.waits]

-- The set of active leases tells nothing about where a job waits.
theorem of_zrem {v : Option JobState} (h : Recovered j v (r.zrem .activeLeases k) r') : Recovered j v r r' where
  state := h.state
  id    := h.id
  waits := by simpa [Redis.Waits, Redis.zrem_score?] using h.waits

theorem trans {r₁ : Redis} {v : Option JobState} (h : Recovered j v r r₁) (h' : Recovered j none r₁ r') :
    Recovered j v r r' where
  state := by rw [h'.state, ← h.state]; simp
  id    := h'.id.trans h.id
  waits := by simp [h'.waits, h.waits]

end Recovered

theorem recover_recovered (hj : r.jobs j = some h) (hr : (b.recover now j h r).2 = .ok item) :
    item.jobID = j ∧ item.state = recoveredState h ∧
    Recovered j (some (recoveredState h)) r (b.recover now j h r).1 := by
  revert hr
  apply recover_rule (Q := fun x => x.2 = .ok item → item.jobID = j ∧ item.state = recoveredState h ∧
    Recovered j (some (recoveredState h)) r x.1) <;> dsimp only
  case aborted => exact fun _ _ _ hr => by cases hr
  case canceled =>
    intro hc hr
    cases hr
    have hs : recoveredState h = .canceled := by simp [recoveredState, hc]
    rw [hs]
    exact ⟨rfl, rfl, by simp [hj, JobHash.cancelExpired], by simp [hj, JobHash.cancelExpired], by simp [Redis.Waits]⟩
  case failed =>
    intro hc ha hr
    cases hr
    have hs : recoveredState h = .failed := by simp [recoveredState, hc, not_lt.mpr ha]
    rw [hs]
    refine ⟨rfl, rfl, by simp [hj, JobHash.failExpired], by simp [hj, JobHash.failExpired], ?_⟩
    simp [Redis.Waits, Redis.lpush_lists]
  case retrying =>
    intro s hc ha hs hr
    cases hr
    have hs : recoveredState h = .retrying := by simp [recoveredState, hc, ha]
    rw [hs]
    refine ⟨rfl, rfl, by simp [hj, JobHash.retryExpired], by simp [hj, JobHash.retryExpired], ?_⟩
    simp [Redis.Waits, Redis.zadd_score?]

-- All jobs of a batch are recovered, and reported if they exist.
structure RecoversAll (ids : List JobID) (r r' : Redis) (items : List RecoveredLease) : Prop where
  jobs  : ∀ k, Recovered k (verdict ids r k) r r'
  items : ∀ k s, (∃ item ∈ items, item.jobID = k ∧ item.state = s) ↔ verdict ids r k = some s

theorem verdict_cons_ne {id : JobID} (hk : k ≠ id) (hj : r'.jobs k = r.jobs k) :
    verdict (id :: ids) r k = verdict ids r' k := by
  simp [verdict, hk, hj]

theorem verdict_not_mem (hk : k ∉ ids) : verdict ids r k = none :=
  if_neg hk

theorem recoverAll_recoversAll (hn : ids.Nodup) (hl : ∀ id ∈ ids, ((r.zsets .activeLeases).score? id).isSome)
    (hr : (b.recoverAll now ids r).2 = .ok items) : RecoversAll ids r (b.recoverAll now ids r).1 items := by
  induction ids generalizing r items
  case nil =>
    cases hr
    exact ⟨fun k => .of_unchanged (.refl ..), by simp [verdict]⟩
  case cons id rest hi =>
    obtain ⟨hm, hn⟩ := List.nodup_cons.mp hn
    obtain ⟨hd, hl⟩ := List.forall_mem_cons.mp hl
    have leased {r' : Redis} (hu : ∀ k ≠ id, r.Unchanged k r') :
        ∀ k ∈ rest, ((r'.zsets .activeLeases).score? k).isSome := by
      intro k hk
      rw [(hu k <| ne_of_mem_of_not_mem hk hm).score]
      exact hl k hk
    unfold recoverAll at hr ⊢
    simp only [hd, if_true] at hr ⊢
    cases hj : r.jobs id
    case none   =>
      simp only [hj] at hr ⊢
      have hz := hi hn (leased fun k hk => .zrem hk) hr
      have hv (k) : verdict (id :: rest) r k = verdict rest (r.zrem .activeLeases id) k := by
        by_cases hk : k = id
        case neg => exact verdict_cons_ne hk rfl
        case pos => rw [hk, verdict_not_mem hm, verdict, hj]; simp
      exact ⟨fun k => hv k ▸ .of_zrem (hz.jobs k), fun k s => hv k ▸ hz.items k s⟩
    case some h =>
      simp only [hj] at hr ⊢
      have hrec {item} := @recover_recovered b (r.zrem .activeLeases id) id h now item hj
      have hu (k : JobID) (hk : k ≠ id) : r.Unchanged k (b.recover now id h (r.zrem .activeLeases id)).1 :=
        .trans (.zrem hk) (recover_unchanged hk)
      generalize b.recover now id h (r.zrem .activeLeases id) = x at hr hrec hu ⊢
      obtain ⟨r₁, res⟩ := x
      cases res
      case error e => cases hr
      case ok item =>
        obtain ⟨hid, hst, hx⟩ := hrec rfl
        dsimp only at hr hu hx ⊢
        cases hy : (b.recoverAll now rest r₁).2
        case error e  => rw [hy] at hr; cases hr
        case ok items =>
          rw [hy] at hr
          cases hr
          have hz := hi hn (leased hu) hy
          have hv (k) (hk : k ≠ id) : verdict (id :: rest) r k = verdict rest r₁ k :=
            verdict_cons_ne hk (hu k hk).jobs
          have hvid : verdict (id :: rest) r id = some (recoveredState h) := by simp [verdict, hj]
          have hvid' : verdict rest r₁ id = none := verdict_not_mem hm
          constructor
          · intro k
            by_cases hk : k = id
            case neg => exact hv k hk ▸ .unchanged_trans (hu k hk) (hz.jobs k)
            case pos =>
              subst hk
              have hz := hz.jobs k
              rw [hvid'] at hz
              exact hvid ▸ .trans (.of_zrem hx) hz
          · intro k s
            simp only [List.exists_mem_cons_iff, hz.items]
            by_cases hk : k = id
            case pos => simp [hk, hvid, hvid', hid, hst]
            case neg => simp [hv k hk, hid, Ne.symm hk]

theorem mem_expired_leased {limit : Int} : ∀ id ∈ expired limit now r, ((r.zsets .activeLeases).score? id).isSome := by
  intro id hm
  have ⟨s, hs, _⟩ := SortedSet.mem_rangeByScore hm
  exact hs ▸ rfl

theorem recoverExpiredLua_recoversAll {limit : Int} (hr : (b.recoverExpiredLua limit now r).2 = .ok items) :
    RecoversAll (expired limit now r) r (b.recoverExpiredLua limit now r).1 items :=
  recoverAll_recoversAll SortedSet.rangeByScore_nodup mem_expired_leased hr

end RedisBroker

namespace Scheduler

variable {w w' w'' : World} {j k : JobID} {s : JobState} {h : JobHash} {job : Job} {item : RecoveredLease}
         {items : List RecoveredLease}

-- The database notes the state of the job `j`, and nothing else that its dependents depend on.
structure Notes (j : JobID) (s : JobState) (w w' : World) : Prop where
  redis : w'.redis = w.redis
  edges : w'.postgres.dependencies = w.postgres.dependencies
  rows  : ∀ k, w'.postgres.standing k = (w.postgres.standing k).map fun x => (if k = j then s else x.1, x.2)

theorem Notes.keeps (h : Notes j s w w') (hk : w'.Keeps w'') : Notes j s w w'' where
  redis  := hk.redis.trans h.redis
  edges  := hk.edges.trans h.edges
  rows k := by rw [Postgres.standing, hk.jobs, ← h.rows]; rfl

theorem Notes.of_calls {calls : Nat} (h : Notes j s { w with calls } w') : Notes j s w w' :=
  ⟨h.redis, h.edges, h.rows⟩

theorem Notes.of_update {f : Job → Job} {calls : Nat}
    (hf : ∀ row, (f row).state = s ∧ (f row).blockedReason = row.blockedReason) :
    Notes j s w { w with calls, postgres := w.postgres.updateJob j f } where
  redis  := rfl
  edges  := rfl
  rows k := by
    dsimp only
    unfold Postgres.standing
    rw [Postgres.updateJob_jobs]
    split
    case isTrue  => simp [Function.comp_def, hf]
    case isFalse => simp [Function.comp_def]

theorem markRetried_notes {retryAt : Option Time} (hs : job.state = s)
    (hr : ((markRetried job retryAt).run World.exec w).2 = .ok ()) :
    Notes job.id s w ((markRetried job retryAt).run World.exec w).1 := by
  cases retryAt
  case none   => cases hst : job.startedAt <;> simp [markRetried, hst, valueOrNow, Prog.run_bind] at hr
  case some t =>
    have hm : Notes job.id s w (w.exec (.repo (.markJobRetrying job t))).1 := .of_update fun _ => ⟨hs, rfl⟩
    unfold markRetried
    cases job.startedAt
    case none   => exact hm.keeps <| World.exec_now_keeps.trans <| World.exec_now_keeps.trans World.exec_upsertJobAttempt_keeps
    case some _ => exact hm.keeps <| World.exec_now_keeps.trans World.exec_upsertJobAttempt_keeps

theorem markFailed_notes (hs : job.state = s) : Notes job.id s w ((markFailed job).run World.exec w).1 := by
  have hm : Notes job.id s w ((w.exec .now).1.exec (.repo <| .markJobFailed { job with finishedAt := some w.now })).1 :=
    .of_update fun _ => ⟨hs, rfl⟩
  exact hm.keeps <| World.exec_upsertDeadLetter_keeps.trans World.updateIdempotencyOutcome_keeps

theorem markCanceled_notes (hs : job.state = s) : Notes job.id s w ((markCanceled job).run World.exec w).1 :=
  .of_update fun _ => ⟨hs, rfl⟩

-- The database takes over what `v` says about the jobs of the items.
structure NotesAll (v : JobID → Option JobState) (items : List RecoveredLease) (w w' : World) : Prop where
  redis  : w'.redis = w.redis
  edges  : w'.postgres.dependencies = w.postgres.dependencies
  noted  : ∀ item ∈ items, w'.postgres.standing item.jobID =
    (w.postgres.standing item.jobID).map fun x => ((v item.jobID).getD x.1, x.2)
  others : ∀ k, (∀ item ∈ items, item.jobID ≠ k) → w'.postgres.standing k = w.postgres.standing k

theorem NotesAll.cons {v : JobID → Option JobState} (h : Notes item.jobID s w w') (hv : v item.jobID = some s)
    (h' : NotesAll v items w' w'') : NotesAll v (item :: items) w w'' where
  redis     := h'.redis.trans h.redis
  edges     := h'.edges.trans h.edges
  others k hk := by
    have ⟨hk, hks⟩ := List.forall_mem_cons.mp hk
    rw [h'.others k hks, h.rows]
    simp [Ne.symm hk]
  noted item' hm := by
    by_cases hi : ∃ item'' ∈ items, item''.jobID = item'.jobID
    case pos =>
      have ⟨item'', hm', hi⟩ := hi
      have hn := h'.noted item'' hm'
      rw [hi, h.rows] at hn
      rw [hn]
      by_cases hj : item'.jobID = item.jobID
      case pos => simp [Function.comp_def, hj, hv]
      case neg => simp [hj]
    case neg =>
      simp only [not_exists, not_and] at hi
      have hi' : item' = item := (List.mem_cons.mp hm).resolve_right fun hm => hi item' hm rfl
      rw [h'.others _ hi, h.rows, hi', hv]
      simp

theorem markRecovered_cons_run (hj : w.redis.jobs item.jobID = some h) (items : List RecoveredLease) :
    (markRecovered (item :: items)).run World.exec w = (match item.state with
      | .retrying => (markRetried (jobFromHash h) item.retryAt).bind fun
        | .error e => .ret (.error e)
        | .ok ()   => markRecovered items
      | .failed   => (markFailed (jobFromHash h)).bind fun _ => markRecovered items
      | .canceled => (markCanceled (jobFromHash h)).bind fun _ => markRecovered items
      | _         => markRecovered items : Program (Except Error Unit)).run World.exec { w with calls := w.calls + 1 } := by
  have hl : w.exec (.broker (.loadJob item.jobID)) = ({ w with calls := w.calls + 1 }, .ok (jobFromHash h)) := by
    simp [RedisBroker.exec, RedisBroker.loadJob, hj]
  rw [markRecovered]
  refine (Prog.run_call (Call.broker (.loadJob item.jobID)) _).trans ?_
  rw [hl]
  cases item.state <;> rfl

-- An item that the scheduler can write into the database.
structure Readable (v : JobID → Option JobState) (w : World) (item : RecoveredLease) (h : JobHash) : Prop where
  stored  : w.redis.jobs item.jobID = some h
  keyed   : h.id = item.jobID
  state   : h.state = item.state
  verdict : v item.jobID = some item.state
  ended   : item.state = .canceled ∨ item.state = .retrying ∨ item.state = .failed

theorem markRecovered_notes {v : JobID → Option JobState} (hi : ∀ item ∈ items, ∃ h, Readable v w item h)
    (hr : ((markRecovered items).run World.exec w).2 = .ok ()) :
    NotesAll v items w ((markRecovered items).run World.exec w).1 := by
  induction items generalizing w
  case nil                 => exact ⟨rfl, rfl, by simp, fun _ _ => rfl⟩
  case cons item items hind =>
    have ⟨⟨h, hh⟩, hi⟩ := List.forall_mem_cons.mp hi
    have hid : (jobFromHash h).id = item.jobID := hh.keyed
    have hst : (jobFromHash h).state = item.state := hh.state
    have next {w' : World} (hn : Notes item.jobID item.state w w')
        (hr : ((markRecovered items).run World.exec w').2 = .ok ()) :
        NotesAll v (item :: items) w ((markRecovered items).run World.exec w').1 := by
      refine .cons hn hh.verdict <| hind (fun i hm => ?_) hr
      have ⟨h, hx⟩ := hi i hm
      exact ⟨h, hn.redis ▸ hx.stored, hx.keyed, hx.state, hx.verdict, hx.ended⟩
    rw [markRecovered_cons_run hh.stored] at hr ⊢
    match hs : item.state, hh.ended with
    | .canceled, _ =>
      simp only [hs, Prog.run_bind] at hr ⊢
      exact next (hid ▸ (markCanceled_notes hst).of_calls) hr
    | .failed, _   =>
      simp only [hs, Prog.run_bind] at hr ⊢
      exact next (hid ▸ (markFailed_notes hst).of_calls) hr
    | .retrying, _ =>
      simp only [hs, Prog.run_bind] at hr ⊢
      cases hx : ((markRetried (jobFromHash h) item.retryAt).run World.exec { w with calls := w.calls + 1 }).2
      case error e => simp [hx] at hr
      case ok      =>
        simp only [hx] at hr ⊢
        exact next (hid ▸ (markRetried_notes hst hx).of_calls) hr

-- The broker recovers the leases of a batch, and the database learns what has become of the jobs.
structure Recovery (v : JobID → Option JobState) (w w' : World) : Prop where
  redis : ∀ k, RedisBroker.Recovered k (v k) w.redis w'.redis
  edges : w'.postgres.dependencies = w.postgres.dependencies
  rows  : ∀ k, w'.postgres.standing k = (w.postgres.standing k).map fun x => ((v k).getD x.1, x.2)

theorem recoveredState_cases (h : JobHash) : RedisBroker.recoveredState h = .canceled ∨
    RedisBroker.recoveredState h = .retrying ∨ RedisBroker.recoveredState h = .failed := by
  unfold RedisBroker.recoveredState
  split
  · exact .inl rfl
  · split
    · exact .inr <| .inl rfl
    · exact .inr <| .inr rfl

-- The verdicts on the jobs whose leases have expired.
def verdict (s : Scheduler) (w : World) : JobID → Option JobState :=
  RedisBroker.verdict (RedisBroker.expired s.recoveryBatchSize w.now.unixMilli w.redis) w.redis

theorem readable_of_recovers {ids : List JobID} {v : JobID → Option JobState} {r : Redis}
    (hk : ∀ j h, r.jobs j = some h → h.id = j) (hv : v = RedisBroker.verdict ids r)
    (hx : RedisBroker.RecoversAll ids r w.redis items) (hm : item ∈ items) : ∃ h, Readable v w item h := by
  have hs := (hx.items item.jobID item.state).mp ⟨item, hm, rfl, rfl⟩
  have hr := hx.jobs item.jobID
  have hs' := hs
  unfold RedisBroker.verdict at hs'
  split at hs'
  case isFalse => cases hs'
  case isTrue  =>
    have ⟨h, hj, he⟩ := Option.map_eq_some_iff.mp hs'
    have hst := hr.state
    have hid := hr.id
    rw [hs, hj] at hst
    rw [hj] at hid
    have ⟨h', hj', hst⟩ := Option.map_eq_some_iff.mp hst
    rw [hj', Option.map_some, Option.map_some, Option.some_inj] at hid
    exact ⟨h', hj', hid.trans (hk _ h hj), hst, hv ▸ hs, he ▸ recoveredState_cases h⟩

theorem recoverExpired_eq (sch : Scheduler) : sch.recoverExpired =
    .call .now fun now => .call (.broker (.recoverExpired sch.recoveryBatchSize now)) fun
      | .error e      => .ret (.error e)
      | .ok recovered => markRecovered recovered := by
  refine congrArg (Prog.call _) (funext fun now => congrArg (Prog.call _) (funext fun res => ?_))
  cases res <;> rfl

theorem recoverExpired_run {sch : Scheduler} (hk : ∀ j h, w.redis.jobs j = some h → h.id = j)
    (hr : (sch.recoverExpired.run World.exec w).2 = .ok ()) :
    Recovery (sch.verdict w) w (sch.recoverExpired.run World.exec w).1 := by
  have hx {items} := @RedisBroker.recoverExpiredLua_recoversAll w.broker w.redis w.now.unixMilli items
    sch.recoveryBatchSize
  rw [recoverExpired_eq] at hr ⊢
  simp only [Prog.run_call, World.exec_now, World.exec_broker, RedisBroker.exec] at hr ⊢
  generalize w.broker.recoverExpiredLua sch.recoveryBatchSize w.now.unixMilli w.redis = x at hr hx ⊢
  match x with
  | (r', .error e) => cases hr
  | (r', .ok items) =>
    have ⟨hj, hi⟩ := hx rfl
    have hn : NotesAll (sch.verdict w) items _ _ :=
      markRecovered_notes (fun item hm => readable_of_recovers hk rfl ⟨hj, hi⟩ hm) hr
    constructor
    · exact fun k => hn.redis ▸ hj k
    · exact hn.edges
    · intro k
      cases hv : sch.verdict w k
      case none   =>
        rw [hn.others k fun item hm he => ?_]
        · simp [Postgres.standing, Function.comp_def]
        · have hv' := (hi k item.state).mp ⟨item, hm, he, rfl⟩
          rw [verdict, hv'] at hv
          cases hv
      case some s =>
        have ⟨item, hm, he, _⟩ := (hi k s).mpr hv
        have hn := hn.noted item hm
        rw [he, hv] at hn
        exact hn

end Scheduler
end JobPlatform
