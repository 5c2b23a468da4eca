import JobPlatform.Library.Run
import JobPlatform.Queue.Seats
import JobPlatform.Service.Manager

namespace JobPlatform

-- A worker holds the job under a lease that has not expired, or the job is completed.
def JobHash.Held (h : JobHash) (now : Time) : Prop :=
  h.state = .completed ∨ h.state = .active ∧ ∃ t, h.leaseExpiresAt = some t ∧ now.unixMilli < t

-- When a call moves all jobs that are due.
def BrokerCall.sweeps : BrokerCall → Option Time
  | .activateDue _ now    => some now
  | .recoverExpired _ now => some now
  | _                     => none

namespace Requeuing

variable {b : RedisBroker} {r : Redis} {c : BrokerCall} {cs : List BrokerCall} {j : JobID} {h : JobHash}
         {limit : Int} {now : Time}

def step (b : RedisBroker) (r : Redis) (c : BrokerCall) : Redis :=
  (b.exec r c).1

-- An operator retries a job only when no entry is left of it. A job is enqueued when it is new, or blocked.
def Allowed (r : Redis) : BrokerCall → Prop
  | .enqueue job _                    => (r.jobs job.id).all (·.state = .blocked) ∧ job.leaseToken = "" ∧
    (job.state = .queued ∨ job.state = .scheduled ∨ job.state = .blocked)
  | .complete _ leaseToken ..         => leaseToken ≠ ""
  | .fail _ leaseToken ..             => leaseToken ≠ ""
  | .requeueThrottled _ leaseToken .. => leaseToken ≠ ""
  | .retry job _                      => r.Only job.id none
  | _                                 => True

-- A job which is retried gets one entry, and what is due does not include jobs that are held or completed.
structure Keeps (b : RedisBroker) (r : Redis) (c : BrokerCall) : Prop where
  once : ∀ job now, c = .retry job now →
    ∃ p, (p = .list (.ready job.queue job.priority) ∨ p = .zset .delayed) ∧ (step b r c).Only job.id (some p)
  held : ∀ now, c.sweeps = some now → ∀ j h, r.jobs j = some h → h.Held now → (step b r c).jobs j = some h

theorem seated_step (hr : r.Seated) (ha : Allowed r c) : (step b r c).Seated := by
  cases c
  case enqueue          =>
    have hb := Option.all_eq_true _ _ |>.mp ha.left
    exact hr.enqueue (fun h hj => of_decide_eq_true (hb h hj)) ha.right.left ha.right.right
  case loadJob          => exact hr
  case dequeue          => exact hr.dequeueLua
  case heartbeat        => exact hr.heartbeatLua
  case complete         => exact hr.completeLua ha
  case fail             => exact hr.failLua ha
  case requeueThrottled => exact hr.throttleLua ha
  case activateDue      => exact hr.activateDueLua
  case recoverExpired   => exact hr.recoverExpiredLua
  case retry            => exact hr.retry ha
  case cancelLoaded     => exact hr.cancelLoaded

theorem activateDue_unchanged (hr : r.Seated) (hj : r.jobs j = some h) (hh : h.Held now) :
    r.Unchanged j (RedisBroker.activateDueLua limit now.unixMilli r).1 := by
  apply RedisBroker.activateAll_rule (P := fun r' => r.Unchanged j r') SortedSet.rangeByScore_nodup
  case hr => exact .refl ..
  case hs =>
    intro r' i _ _ hz hu
    have hi : j ≠ i := by
      intro hi
      subst hi
      have ⟨o, ho⟩ := hr j
      have he := ho.only.of_score? (hu.score .delayed ▸ hz)
      subst he
      have hs := (ho.suits h hj).right
      obtain hc | ⟨ha, _⟩ := hh
      · simp [hc] at hs
      · simp [ha] at hs
    exact hu.trans (RedisBroker.activate_unchanged hi)

theorem recoverExpired_unchanged (hr : r.Seated) (hj : r.jobs j = some h) (hh : h.Held now) :
    r.Unchanged j (b.recoverExpiredLua limit now.unixMilli r).1 := by
  have hm (hm : j ∈ (r.zsets .activeLeases).rangeByScore (.ofInt now.unixMilli) limit) : False := by
    have ⟨s, hs, hle⟩ := SortedSet.mem_rangeByScore hm
    have ⟨o, ho⟩ := hr j
    have he := ho.only.of_score? (z := .activeLeases) (by simp [hs])
    subst he
    obtain hc | ⟨ha, t, ht, hlt⟩ := hh
    case inl =>
      have hs := ho.suits h hj
      simp [hc, JobHash.Suits] at hs
    case inr =>
      obtain ⟨t', ht', hs'⟩ := ho.lease h hj ha
      cases ht.symm.trans ht'
      cases hs.symm.trans hs'
      simp [Score.ofInt] at hle
      omega
  apply RedisBroker.recoverAll_rule (P := fun r' => r.Unchanged j r') SortedSet.rangeByScore_nodup
  case hr      => exact .refl ..
  case absent  =>
    intro r' i hi _ _ hu
    exact hu.trans (.zrem fun he => hm (he ▸ hi))
  case present =>
    intro r' i g hi _ _ _ hu
    have hne : j ≠ i := fun he => hm (he ▸ hi)
    exact hu.trans (.trans (.zrem hne) (RedisBroker.recover_unchanged hne))

theorem keeps_of_seated (hr : r.Seated) (ha : Allowed r c) : Keeps b r c where
  once job now hc := by
    subst hc
    have ⟨p, hp, hs⟩ := @Redis.Seated.retry_seat r job now ha
    exact ⟨p, hp, hs.only⟩
  held now hc j h hj hh := by
    cases c
    case activateDue    =>
      cases hc
      exact (activateDue_unchanged hr hj hh).jobs.trans hj
    case recoverExpired =>
      cases hc
      exact (recoverExpired_unchanged hr hj hh).jobs.trans hj
    all_goals cases hc

theorem seated_of_allowed (hg : Run.Guarded (step b) Allowed .empty cs) : (Run.last (step b) .empty cs).Seated :=
  hg.invariant (fun _ _ => seated_step) .empty

end Requeuing

-- The jobs which have been passed to `Retry`. What the repository finds has the identifier that is looked for.
def Requeuing : Protocol Call Call.Resp where
  State        := List JobID
  Allows _ _   := True
  Expected c res := match c, res with
    | .repo (.getJob jobID), .ok job => job.id = jobID
    | _,                     _       => True
  next q c res := match c, res with
    | .broker (.retry job _), .ok () => job.id :: q
    | _,                      _      => q

namespace Requeuing

variable {b : RedisBroker} {cs : List BrokerCall} {jobID : JobID} {q : List JobID} {req : DeadLetterReplayRequest}

-- The procedures of the operator do not succeed without `Retry`.
theorem retryJob_requeues : (Manager.retryJob jobID).Follows Requeuing
    (fun res (q : List JobID) => res.isOk → jobID ∈ q) q := by
  refine ⟨trivial, fun res hr => ?_⟩
  match res with
  | .error _ => exact nofun
  | .ok job  =>
    have hr : job.id = jobID := hr
    refine ⟨trivial, fun now _ => ⟨trivial, fun res _ => ?_⟩⟩
    match res with
    | .error _ => exact nofun
    | .ok ()   =>
      refine ⟨trivial, fun res _ => ?_⟩
      match res with
      | .error _ => exact nofun
      | .ok ()   => exact ⟨trivial, fun _ _ _ => hr ▸ List.mem_cons_self⟩

theorem replayAll_requeues {now : Time} {jobIDs : List JobID} {replayed : List Job} :
    (Manager.replayAll req now jobIDs replayed).Follows Requeuing
      (fun res (q' : List JobID) => res.isOk → ∀ j, j ∈ q ∨ j ∈ jobIDs → j ∈ q') q := by
  induction jobIDs generalizing q replayed
  case nil                => exact fun _ j hj => hj.resolve_right List.not_mem_nil
  case cons jobID rest hi =>
    refine ⟨trivial, fun res hr => ?_⟩
    match res with
    | .error _ => exact nofun
    | .ok job  =>
      have hr : job.id = jobID := hr
      refine ⟨trivial, fun res _ => ?_⟩
      match res with
      | .error _ => exact nofun
      | .ok ()   =>
        refine ⟨trivial, fun res _ => ?_⟩
        match res with
        | .error _ => exact nofun
        | .ok ()   =>
          refine ⟨trivial, fun res _ => ?_⟩
          match res with
          | .error _ => exact nofun
          | .ok ()   =>
            refine hi.mono fun res q' hq hok j hj => hq hok j ?_
            obtain hj | hj := hj
            · exact .inl (List.mem_cons_of_mem _ hj)
            · exact (List.mem_cons.mp hj).imp_left fun he => List.mem_cons.mpr (.inl (he.trans hr.symm))

theorem replayDeadLetters_requeues : (Manager.replayDeadLetters req).Follows Requeuing
    (fun res (q : List JobID) => res.isOk → ∀ j ∈ req.jobIDs, j ∈ q) q := by
  refine ⟨trivial, fun now _ => replayAll_requeues.mono fun res q' hq hok j hj => ?_⟩
  exact hq hok j (.inr hj)

-- As long as operators only retry jobs of which no entry is left, and jobs are enqueued only when they are new or
-- blocked, a job that is retried has one entry, and no job that is held or completed is moved when others are due.
theorem keeps_of_allowed (hg : Run.Guarded (step b) Allowed .empty cs) :
    (∀ jobID, (Manager.retryJob jobID).Follows Requeuing
      (fun res (q : List JobID) => res.isOk → jobID ∈ q) []) ∧
    (∀ req, (Manager.replayDeadLetters req).Follows Requeuing
      (fun res (q : List JobID) => res.isOk → ∀ j ∈ req.jobIDs, j ∈ q) []) ∧
    Run.Guarded (step b) (Keeps b) .empty cs := by
  refine ⟨fun _ => retryJob_requeues, fun _ => replayDeadLetters_requeues, ?_⟩
  have hs := hg.strengthen (fun r c (hr : r.Seated) ha => seated_step hr ha) .empty
  exact hs.mono fun _ _ h => keeps_of_seated h.left h.right

-- A job in such a state has no entry.
theorem only_of_state {r : Redis} {j : JobID} (hr : r.Seated)
    (hs : (r.jobs j).any fun h => h.state = .blocked ∨ h.state = .completed ∨ h.state = .failed) :
    r.Only j none := by
  have ⟨h, hj, hs⟩ := Option.any_eq_true _ _ |>.mp hs
  have hs := of_decide_eq_true hs
  have ⟨o, ho⟩ := hr j
  have ht := ho.suits h hj
  suffices he : o = none from he ▸ ho.only
  match o, ht with
  | none,                       _  => rfl
  | some (.list (.ready _ _)),  ht => obtain hs | hs | hs := hs <;> simp [hs, JobHash.Suits] at ht
  | some (.zset .delayed),      ht => obtain hs | hs | hs := hs <;> simp [hs, JobHash.Suits] at ht
  | some (.zset .activeLeases), ht => obtain hs | hs | hs := hs <;> simp [hs, JobHash.Suits] at ht

namespace Sample

def time (seconds : Int) : Time :=
  .ofUnixMilli 1700000000000 + seconds * Duration.second

def submitted : Job :=
  buildJob (time 0) (.plain "email.send") "job-1"

-- The job fails, and it is not retried by its worker.
def failing : List BrokerCall := [
  .enqueue submitted (time 0),
  .dequeue "worker-1" [] (30 * Duration.second) (time 0),
  .fail submitted "5567c106259ceacb00ef1701815b187dca3f70c3" "boom" none (time 1)
]

-- An operator puts it into another queue, from where it is leased again.
def replayed : List BrokerCall := [
  .retry { Manager.retriedJob submitted (time 59) with queue := "critical", priority := 9 } (time 59),
  .dequeue "worker-2" [] (30 * Duration.second) (time 60),
  .recoverExpired 200 (time 61)
]

theorem failing_allowed : Run.Guarded (step .sample) Allowed .empty failing :=
  ⟨⟨rfl, rfl, by decide⟩, trivial, by unfold Allowed; decide, trivial⟩

theorem replayed_allowed : Run.Guarded (step .sample) Allowed .empty (failing ++ replayed) :=
  Run.Guarded.append.mpr ⟨failing_allowed, only_of_state (seated_of_allowed failing_allowed) (by decide +kernel),
    trivial, trivial, trivial⟩

end Sample

theorem keeps_of_allowed_sample :
    Run.Guarded (step .sample) (Keeps .sample) .empty (Sample.failing ++ Sample.replayed) :=
  (keeps_of_allowed Sample.replayed_allowed).right.right

-- A job which is retried while it waits in its ready list has two entries there.
theorem not_keeps_of_queued : ¬Run.Guarded (step .sample) (Keeps .sample) .empty [
    .enqueue Sample.submitted (Sample.time 0),
    .retry (Manager.retriedJob Sample.submitted (Sample.time 1)) (Sample.time 1)
  ] := by
  intro hg
  obtain ⟨p, _, ho⟩ := hg.right.left.once _ _ rfl
  have ho := ho (.list (.ready "default" 5)) trivial
  have hc : Redis.occurrences (step .sample (step .sample .empty (.enqueue Sample.submitted (Sample.time 0)))
      (.retry (Manager.retriedJob Sample.submitted (Sample.time 1)) (Sample.time 1))) "job-1"
      (.list (.ready "default" 5)) = 2 := by decide +kernel
  have hn := hc.symm.trans ho
  split at hn <;> cases hn

end Requeuing
end JobPlatform
