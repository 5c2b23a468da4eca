import JobPlatform.Queue.Broker

namespace JobPlatform

-- The places in which the identifier of a job can be found.
inductive Place
  | list (k : ListKey)
  | zset (k : ZSetKey)
  deriving DecidableEq

namespace Redis

def occurrences (r : Redis) (j : JobID) : Place → Nat
  | .list k => (r.lists k).count j
  | .zset k => ((r.zsets k).score? j).isSome.toNat

-- Nothing that is stored about the job `j` differs.
structure Unchanged (j : JobID) (r r' : Redis) : Prop where
  jobs  : r'.jobs j = r.jobs j
  count : ∀ k, (r'.lists k).count j = (r.lists k).count j
  score : ∀ k, (r'.zsets k).score? j = (r.zsets k).score? j

variable {r r₁ r₂ r₃ : Redis} {id j : JobID} {f : JobHash → JobHash} {k : ListKey} {z : ZSetKey} {s : Score}
         {ids : List JobID} {p : Place}

namespace Unchanged

theorem refl (j : JobID) (r : Redis) : Unchanged j r r :=
  ⟨rfl, fun _ => rfl, fun _ => rfl⟩

theorem trans (h₁ : Unchanged j r₁ r₂) (h₂ : Unchanged j r₂ r₃) : Unchanged j r₁ r₃ where
  jobs    := h₂.jobs.trans h₁.jobs
  count k := (h₂.count k).trans (h₁.count k)
  score k := (h₂.score k).trans (h₁.score k)

theorem occurrences (h : Unchanged j r₁ r₂) : r₂.occurrences j = r₁.occurrences j := by
  funext p
  cases p
  case list k => exact h.count k
  case zset k => simp [Redis.occurrences, h.score k]

theorem hset (h : j ≠ id) : Unchanged j r (r.hset id f) where
  jobs    := by simp [hset_jobs, h]
  count _ := rfl
  score _ := rfl

theorem lpush (h : j ≠ id) : Unchanged j r (r.lpush k id) where
  jobs    := rfl
  count l := by
    rw [lpush_lists]
    split
    case isTrue he => simp [he, h.symm]
    case isFalse   => rfl
  score _ := rfl

theorem lrem (h : j ≠ id) : Unchanged j r (r.lrem k id) where
  jobs    := rfl
  count l := by
    rw [lrem_lists]
    split
    case isTrue he => simp [he, List.count_filter, h]
    case isFalse   => rfl
  score _ := rfl

theorem lpop (hl : r.lists k = id :: ids) (h : j ≠ id) : Unchanged j r (r.lset k ids) where
  jobs    := rfl
  count l := by
    rw [lset_lists]
    split
    case isTrue he => simp [he, hl, h.symm]
    case isFalse   => rfl
  score _ := rfl

theorem zadd (h : j ≠ id) : Unchanged j r (r.zadd z id s) where
  jobs    := rfl
  count _ := rfl
  score _ := by simp [zadd_score?, h]

theorem zrem (h : j ≠ id) : Unchanged j r (r.zrem z id) where
  jobs    := rfl
  count _ := rfl
  score _ := by simp [zrem_score?, h]

end Unchanged

@[simp]
theorem hset_occurrences : (r.hset id f).occurrences = r.occurrences :=
  rfl

theorem lpush_occurrences :
    (r.lpush k id).occurrences j p = r.occurrences j p + if p = .list k ∧ id = j then 1 else 0 := by
  cases p
  case zset => simp [occurrences]
  case list l =>
    by_cases h : l = k
    case pos => subst h; simp [occurrences, lpush_lists, List.count_cons]
    case neg => simp [occurrences, lpush_lists, h]

theorem lrem_occurrences :
    (r.lrem k id).occurrences j p = if p = .list k ∧ id = j then 0 else r.occurrences j p := by
  cases p
  case zset => simp [occurrences]
  case list l =>
    simp only [occurrences, lrem_lists]
    by_cases h : l = k
    case neg => simp [h]
    case pos =>
      subst h
      by_cases hj : id = j
      case pos => simp [hj, List.count_eq_zero]
      case neg => simp [hj, List.count_filter, Ne.symm hj]

theorem lpop_occurrences (hl : r.lists k = id :: ids) :
    r.occurrences j p = (r.lset k ids).occurrences j p + if p = .list k ∧ id = j then 1 else 0 := by
  cases p
  case zset => simp [occurrences]
  case list l =>
    by_cases h : l = k
    case pos => subst h; simp [occurrences, lset_lists, hl, List.count_cons]
    case neg => simp [occurrences, lset_lists, h]

theorem zadd_occurrences :
    (r.zadd z id s).occurrences j p = if p = .zset z ∧ id = j then 1 else r.occurrences j p := by
  cases p
  case list => simp [occurrences]
  case zset y => by_cases h : y = z ∧ id = j <;> simp [occurrences, zadd_score?, h, eq_comm (a := j)]

theorem zrem_occurrences :
    (r.zrem z id).occurrences j p = if p = .zset z ∧ id = j then 0 else r.occurrences j p := by
  cases p
  case list => simp [occurrences]
  case zset y => by_cases h : y = z ∧ id = j <;> simp [occurrences, zrem_score?, h, eq_comm (a := j)]

end Redis

namespace RedisBroker

variable {b : RedisBroker} {workerID : WorkerID} {ttl now : Int} {keys : List ListKey} {r : Redis}
         {ids : List JobID} {j : JobID} {leaseToken : Token} {body : Redis → Redis} {k : ListKey}

-- A script that ends a lease has no effect, or the hash holds the token and the lease is removed.
theorem endLease_rule {Q : Redis × Bool → Prop} (rejected : Q (r, false))
    (accepted : ∀ h, r.jobs j = some h → h.leaseToken = leaseToken →
      Q (body (r.zrem .activeLeases j), true)) : Q (endLease j leaseToken body r) := by
  unfold endLease
  split
  case isFalse => exact rejected
  case isTrue h =>
    have ⟨h, hj, ht⟩ := Option.any_eq_true _ _ |>.mp h
    exact accepted h hj (of_decide_eq_true ht)

theorem heartbeatLua_rule {Q : Redis × Bool → Prop} (rejected : Q (r, false))
    (accepted : ∀ h, r.jobs j = some h → h.leaseToken = leaseToken → h.state = .active →
      Q (renew ttl now j r, true)) : Q (heartbeatLua j leaseToken ttl now r) := by
  unfold heartbeatLua
  split
  case isFalse => exact rejected
  case isTrue h =>
    have ⟨h, hj, ht⟩ := Option.any_eq_true _ _ |>.mp h
    have ⟨ht, hs⟩ := of_decide_eq_true ht
    exact accepted h hj ht hs

theorem mem_readyKeysForQueues {queues : List QueueName} (h : k ∈ readyKeysForQueues queues) :
    ∃ queueName priority, k = .ready queueName priority := by
  simp only [readyKeysForQueues, List.mem_flatMap, List.mem_map] at h
  have ⟨queueName, _, priority, _, he⟩ := h
  exact ⟨queueName, priority, he.symm⟩

-- The script drops jobs that it cannot lease until it leases one or reaches the end of the lists.
theorem dequeueLua_rule {P : Redis → Prop} {Q : Redis → Option (JobID × Token) → Prop}
    (drop : ∀ r k j rest, P r → k ∈ keys → r.lists k = j :: rest →
      (∀ h, r.jobs j = some h → h.state.isRunnable = false) → P (r.lset k rest))
    (lease : ∀ r k j rest h, P r → k ∈ keys → r.lists k = j :: rest → r.jobs j = some h →
      h.state.isRunnable →
      Q (b.lease workerID ttl now j (r.lset k rest)) (some (j, b.leaseTokenOf workerID j now)))
    (none : ∀ r, P r → Q r none) (hr : P r) :
    Q (b.dequeueLua workerID ttl now keys r).1 (b.dequeueLua workerID ttl now keys r).2 := by
  induction keys generalizing r
  case nil              => exact none _ hr
  case cons key keys hi =>
    have hm {k : ListKey} : k ∈ keys → k ∈ key :: keys := List.mem_cons_of_mem _
    have hi {r : Redis} := @hi r (fun r k j rest hr hk => drop r k j rest hr (hm hk))
      (fun r k j rest h hr hk => lease r k j rest h hr (hm hk))
    have hk : key ∈ key :: keys := List.mem_cons_self
    unfold dequeueLua
    cases hl : r.lists key
    case nil         => exact hi hr
    case cons j rest =>
      cases hj : r.jobs j
      case none   => simpa [hj] using hi <| drop _ _ _ _ hr hk hl (by simp [hj])
      case some h =>
        by_cases hs : h.state.isRunnable
        case pos => simpa [hj, hs] using lease _ _ _ _ _ hr hk hl hj hs
        case neg => simpa [hj, hs] using hi <| drop _ _ _ _ hr hk hl (by simpa [hj] using hs)

-- The tokens that are handed out are not empty.
theorem dequeueLua_token {lease : JobID × Token} (h : (b.dequeueLua workerID ttl now keys r).2 = some lease) :
    lease.2 ≠ "" := by
  revert h
  apply dequeueLua_rule (P := fun _ => True) (Q := fun _ res => res = some lease → lease.2 ≠ "")
  case hr    => trivial
  case none  => exact fun _ _ h => nomatch h
  case drop  => exact fun _ _ _ _ _ _ _ _ => trivial
  case lease =>
    intro r k j rest h _ _ _ _ _ he
    cases he
    exact b.leaseTokenOf_ne_empty workerID j now

-- The delay is not a number if it is zero times infinity, which is no more than the maximal delay.
theorem retryAt_eq_nan_iff {attempts : Int} :
    b.retryAt now attempts = .nan ↔ b.baseRetryDelay.milliseconds = 0 ∧ 1025 ≤ attempts := by
  have hp : 1024 ≤ (if attempts - 1 < 0 then 0 else attempts - 1).toNat ↔ 1025 ≤ attempts := by
    split <;> omega
  rw [retryAt, Double.int_add_eq_nan_iff, retryDelay, ← hp, ← Double.int_mul_pow2_eq_nan_iff]
  generalize (Double.int _).mul _ = d
  split
  case isFalse => rfl
  case isTrue h => cases d <;> simp [Double.gt] at h ⊢

theorem activate_unchanged {id : JobID} (h : j ≠ id) : r.Unchanged j (activate now id r).1 := by
  unfold activate
  split
  · exact .zrem h
  · exact .trans (.zrem h) <| .trans (.hset h) (.lpush h)

-- What has been read about a job still holds when its turn comes.
theorem activateAll_rule {P : Redis → Prop} (hn : ids.Nodup)
    (hs : ∀ r' j, j ∈ ids → r.Unchanged j r' → ((r'.zsets .delayed).score? j).isSome → P r' →
      P (activate now j r').1) (hr : P r) : P (activateAll now ids r).1 := by
  induction ids generalizing r
  case nil             => exact hr
  case cons id rest hi =>
    have ⟨hm, hn⟩ := List.nodup_cons.mp hn
    unfold activateAll
    split
    case isTrue h =>
      have hr' := hs r id List.mem_cons_self (.refl ..) h hr
      refine hi hn (fun r' j hj hu => hs r' j (List.mem_cons_of_mem _ hj) ?_) hr'
      exact .trans (activate_unchanged <| ne_of_mem_of_not_mem hj hm) hu
    case isFalse  => exact hi hn (fun r' j hj => hs r' j (List.mem_cons_of_mem _ hj)) hr

-- A recovered job goes where its new hash says, unless the score of its retry is not a number.
theorem recover_rule {h : JobHash} {Q : Redis × Except Error RecoveredLease → Prop}
    (canceled : h.cancelRequested → Q (r.hset j (·.cancelExpired now), .ok ⟨j, .canceled, none⟩))
    (retrying : ∀ s, h.cancelRequested = false → h.attempts < h.maxAttempts.getD 1 →
      (b.retryAt now h.attempts).toScore = some s →
      Q ((r.hset j (·.retryExpired (storedMillis (b.retryAt now h.attempts)) now)).zadd .delayed j s,
        .ok ⟨j, .retrying, reportedRetryAt (b.retryAt now h.attempts)⟩))
    (aborted : h.cancelRequested = false → h.attempts < h.maxAttempts.getD 1 →
      b.retryAt now h.attempts = .nan → Q (r.hset j (·.retryExpired 0 now), .error .scriptError))
    (failed : h.cancelRequested = false → h.maxAttempts.getD 1 ≤ h.attempts →
      Q ((r.hset j (·.failExpired now)).lpush (.dlq h.queue) j, .ok ⟨j, .failed, none⟩)) :
    Q (b.recover now j h r) := by
  unfold recover
  split
  case isTrue hc  => exact canceled hc
  case isFalse hc =>
    have hc := eq_false_of_ne_true hc
    split
    case isFalse ha => exact failed hc (not_lt.mp ha)
    case isTrue ha  =>
      dsimp only
      split
      case h_2 s hs => exact retrying s hc ha hs
      case h_1 hs   =>
        have hn := Double.toScore_eq_none_iff.mp hs
        simpa [hn, storedMillis] using aborted hc ha hn

theorem recover_unchanged {id : JobID} {h : JobHash} (hj : j ≠ id) :
    r.Unchanged j (b.recover now id h r).1 := by
  apply recover_rule (Q := fun x => r.Unchanged j x.1) <;> dsimp only
  case canceled => exact fun _ => .hset hj
  case retrying => exact fun _ _ _ _ => .trans (.hset hj) (.zadd hj)
  case aborted  => exact fun _ _ _ => .hset hj
  case failed   => exact fun _ _ => .trans (.hset hj) (.lpush hj)

theorem recoverAll_rule {P : Redis → Prop} (hn : ids.Nodup)
    (absent : ∀ r' j, j ∈ ids → r.Unchanged j r' → r'.jobs j = none → P r' →
      P (r'.zrem .activeLeases j))
    (present : ∀ r' j h, j ∈ ids → r.Unchanged j r' → ((r'.zsets .activeLeases).score? j).isSome →
      r'.jobs j = some h → P r' → P (b.recover now j h (r'.zrem .activeLeases j)).1)
    (hr : P r) : P (b.recoverAll now ids r).1 := by
  induction ids generalizing r
  case nil             => exact hr
  case cons id rest hi =>
    have ⟨hm, hn⟩ := List.nodup_cons.mp hn
    -- Nothing changes for the other jobs of the batch when the one at its head is recovered.
    have next {r' : Redis} (hu : ∀ j, j ≠ id → r.Unchanged j r') (hr' : P r') :
        P (b.recoverAll now rest r').1 := by
      refine hi hn (fun r'' j hj hu' => absent r'' j (List.mem_cons_of_mem _ hj) ?_)
        (fun r'' j h hj hu' => present r'' j h (List.mem_cons_of_mem _ hj) ?_) hr'
      all_goals exact .trans (hu j <| ne_of_mem_of_not_mem hj hm) hu'
    unfold recoverAll
    split
    case isFalse  => exact next (fun _ _ => .refl ..) hr
    case isTrue h =>
      split
      case h_1 hj =>
        exact next (fun _ => .zrem) <| absent r id List.mem_cons_self (.refl ..) hj hr
      case h_2 hash hj =>
        have hp := present r id hash List.mem_cons_self (.refl ..) h hj hr
        have hu (j : JobID) (he : j ≠ id) : r.Unchanged j (b.recover now id hash (r.zrem .activeLeases id)).1 :=
          .trans (.zrem he) (recover_unchanged he)
        cases hc : b.recover now id hash (r.zrem .activeLeases id)
        case mk r' res =>
        rw [hc] at hp hu
        cases res
        case error => exact hp
        case ok    => exact next hu hp

theorem lease_unchanged {id : JobID} (h : j ≠ id) :
    r.Unchanged j (b.lease workerID ttl now id r) :=
  .trans (.hset h) (.zadd h)

theorem renew_unchanged {id : JobID} (h : j ≠ id) : r.Unchanged j (renew ttl now id r) :=
  .trans (.hset h) (.zadd h)

theorem heartbeatLua_unchanged {id : JobID} (h : j ≠ id) :
    r.Unchanged j (heartbeatLua id leaseToken ttl now r).1 := by
  apply heartbeatLua_rule (Q := fun x => r.Unchanged j x.1) <;> dsimp only
  case rejected => exact .refl ..
  case accepted => exact fun _ _ _ _ => renew_unchanged h

section

variable {job : Job}

theorem endLease_unchanged {id : JobID} (h : j ≠ id)
    (hb : ∀ r : Redis, r.Unchanged j (body r)) :
    r.Unchanged j (endLease id leaseToken body r).1 := by
  apply endLease_rule (Q := fun x => r.Unchanged j x.1) <;> dsimp only
  case rejected => exact .refl ..
  case accepted => exact fun _ _ _ => .trans (.zrem h) (hb _)

theorem completeLua_unchanged {result : String} (h : j ≠ job.id) :
    r.Unchanged j (completeLua job leaseToken now result r).1 :=
  endLease_unchanged h fun _ => .hset h

theorem failLua_unchanged {errMessage : String} {retryAt : Option Int} (h : j ≠ job.id) :
    r.Unchanged j (failLua job leaseToken errMessage retryAt now r).1 :=
  endLease_unchanged h fun _ =>
    match retryAt with
    | some _ => .trans (.hset h) (.zadd h)
    | none   => .trans (.hset h) (.lpush h)

theorem throttleLua_unchanged {reason : String} {retryAt : Int} (h : j ≠ job.id) :
    r.Unchanged j (throttleLua job leaseToken now reason retryAt r).1 :=
  endLease_unchanged h fun _ => .trans (.hset h) (.zadd h)

theorem enqueue_jobs {now : Time} :
    (enqueue job now r).jobs = (r.hset job.id fun _ => jobHash job).jobs := by
  unfold enqueue
  dsimp only
  split
  · rfl
  · split
    · rfl
    · split <;> rfl

theorem retry_jobs {now : Time} : (retry job now r).jobs job.id =
    let h := ((r.jobs job.id).getD .empty).retry job now.unixMilli
    some (if now < job.runAt then h.schedule else h) := by
  unfold retry
  dsimp only
  split <;> simp

theorem cancelLoaded_jobs : (cancelLoaded j job now r).jobs j =
    let h := ((r.jobs j).getD .empty).requestCancel now
    some (if isCancellable job.state then h.cancel now else h) := by
  unfold cancelLoaded
  dsimp only
  split <;> simp

theorem enqueue_unchanged {now : Time} (h : j ≠ job.id) : r.Unchanged j (enqueue job now r) := by
  unfold enqueue
  dsimp only
  split
  · exact .hset h
  · split
    · exact .trans (.hset h) (.zadd h)
    · split
      · exact .trans (.hset h) (.lpush h)
      · exact .hset h

theorem retry_unchanged {now : Time} (h : j ≠ job.id) : r.Unchanged j (retry job now r) := by
  unfold retry
  dsimp only
  split
  · exact .trans (.hset h) <| .trans (.trans (.hset h) (.zadd h)) (.lrem h)
  · exact .trans (.hset h) <| .trans (.lpush h) (.lrem h)

theorem cancelLoaded_unchanged {id : JobID} (h : j ≠ id) :
    r.Unchanged j (cancelLoaded id job now r) := by
  unfold cancelLoaded
  dsimp only
  split
  · exact .trans (.hset h) <| .trans (.lrem h) <| .trans (.zrem h) <| .trans (.lrem h) (.hset h)
  · exact .hset h

end
end RedisBroker
end JobPlatform
