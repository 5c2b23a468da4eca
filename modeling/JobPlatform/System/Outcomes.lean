import JobPlatform.Service.Requeues
import JobPlatform.System.Summary

namespace JobPlatform

-- The states in which a job is not worked on any more.
def JobState.terminal (s : JobState) : Prop :=
  s = .completed ∨ s = .failed ∨ s = .canceled

-- The job has come to an end, and is nowhere.
structure Redis.Settled (r : Redis) (j : JobID) : Prop where
  only  : r.Only j none
  ended : ∃ h, r.jobs j = some h ∧ h.leaseToken = "" ∧ h.state.terminal

namespace BrokerCall

-- The job is put into its queue, or is stored for the first time.
def Submits (j : JobID) : BrokerCall → Prop
  | enqueue job _ => job.id = j
  | retry job _   => job.id = j
  | _             => False

-- The answer tells that something has been done for the job.
def Serves (j : JobID) : (c : BrokerCall) → Except Error c.Resp → Prop
  | dequeue ..,              res => ∃ lease ∈ res.toOption.join, lease.1 = j
  | heartbeat i ..,          res => res.toOption = some true ∧ i = j
  | complete job ..,         res => res.toOption = some true ∧ job.id = j
  | fail job ..,             res => res.toOption = some true ∧ job.id = j
  | requeueThrottled job .., res => res.toOption = some true ∧ job.id = j
  | activateDue ..,          res => ∃ jobIDs ∈ res.toOption, j ∈ jobIDs
  | recoverExpired ..,       res => ∃ items ∈ res.toOption, ∃ item ∈ items, item.jobID = j
  | _,                       _   => False

-- The answer tells that the job has come to its end.
def Ends (j : JobID) : (c : BrokerCall) → Except Error c.Resp → Prop
  | complete job ..,          res => res.toOption = some true ∧ job.id = j
  | fail job _ _ retryAt _,   res => res.toOption = some true ∧ job.id = j ∧ retryAt = none
  | recoverExpired ..,        res => ∃ items ∈ res.toOption, ∃ item ∈ items, item.jobID = j ∧ item.state ≠ .retrying
  | _,                        _   => False

instance {j : JobID} : (c : BrokerCall) → Decidable (c.Submits j)
  | enqueue ..          => inferInstanceAs (Decidable (_ = _))
  | retry ..            => inferInstanceAs (Decidable (_ = _))
  | loadJob ..          => .isFalse id
  | dequeue ..          => .isFalse id
  | heartbeat ..        => .isFalse id
  | complete ..         => .isFalse id
  | fail ..             => .isFalse id
  | requeueThrottled .. => .isFalse id
  | activateDue ..      => .isFalse id
  | recoverExpired ..   => .isFalse id
  | cancelLoaded ..     => .isFalse id

instance {j : JobID} : (c : BrokerCall) → (res : Except Error c.Resp) → Decidable (c.Ends j res)
  | complete ..,         _ => inferInstanceAs (Decidable (_ ∧ _))
  | fail ..,             _ => inferInstanceAs (Decidable (_ ∧ _))
  | recoverExpired ..,   _ => inferInstanceAs (Decidable (∃ items ∈ _, ∃ item ∈ items, _))
  | enqueue ..,          _ => .isFalse id
  | loadJob ..,          _ => .isFalse id
  | dequeue ..,          _ => .isFalse id
  | heartbeat ..,        _ => .isFalse id
  | requeueThrottled .., _ => .isFalse id
  | activateDue ..,      _ => .isFalse id
  | retry ..,            _ => .isFalse id
  | cancelLoaded ..,     _ => .isFalse id

theorem Ends.serves {j : JobID} {c : BrokerCall} {res : Except Error c.Resp} (h : c.Ends j res) : c.Serves j res := by
  cases c
  case complete       => exact h
  case fail           => exact ⟨h.left, h.right.left⟩
  case recoverExpired =>
    obtain ⟨items, hi, item, hm, hj, _⟩ := h
    exact ⟨items, hi, item, hm, hj⟩
  all_goals exact h.elim

end BrokerCall

namespace Redis.Settled

open RedisBroker

variable {b : RedisBroker} {r r' : Redis} {i j : JobID} {job : Job} {leaseToken : Token} {body : Redis → Redis}
         {limit now : Int} {ids : List JobID} {items : List RecoveredLease} {c : BrokerCall} {k : ListKey}

theorem eq_ok_of_mem {α : Type} {res : Except Error α} {a : α} (h : a ∈ res.toOption) : res = .ok a := by
  cases res
  case error => cases h
  case ok    => cases h; rfl

theorem of_unchanged (h : r.Settled j) (hu : r.Unchanged j r') : r'.Settled j where
  only  := h.only.of_unchanged hu
  ended := by
    obtain ⟨x, hx, he⟩ := h.ended
    exact ⟨x, hu.jobs.trans hx, he⟩

theorem score? (h : r.Settled j) (z : ZSetKey) : (r.zsets z).score? j = none := by
  by_contra hn
  cases h.only.of_score? (Option.isSome_iff_ne_none.mpr hn)

-- Neither is the job runnable, nor does it hold a lease.
theorem of_hash {x : JobHash} (h : r.Settled j) (hx : r.jobs j = some x) :
    x.leaseToken = "" ∧ x.state ≠ .active ∧ x.state.isRunnable = false := by
  obtain ⟨y, hy, ht, hs⟩ := h.ended
  cases hx.symm.trans hy
  obtain hs | hs | hs := hs <;> exact ⟨ht, by simp [hs], by simp [hs, JobState.isRunnable]⟩

theorem of_seated (hr : r.Seated) {x : JobHash} (hx : r.jobs j = some x)
    (hs : x.state = .completed ∨ x.state = .failed) : r.Settled j := by
  obtain ⟨o, ho⟩ := hr j
  have hu := ho.suits x hx
  obtain rfl : o = none := by
    match o, hu with
    | none,                       _  => rfl
    | some (.list (.ready _ _)),  hu => obtain hs | hs := hs <;> simp [hs, JobHash.Suits] at hu
    | some (.zset .delayed),      hu => obtain hs | hs := hs <;> simp [hs, JobHash.Suits] at hu
    | some (.zset .activeLeases), hu => obtain hs | hs := hs <;> simp [hs, JobHash.Suits] at hu
  exact ⟨ho.only, x, hx, hu.left, hs.imp_right .inl⟩

theorem not_mem (h : r.Settled j) {q : QueueName} {n : Int} : j ∉ r.lists (.ready q n) := by
  have ho := h.only (.list (.ready q n)) trivial
  simpa [Redis.occurrences, List.count_eq_zero] using ho

theorem dequeueLua {workerID : WorkerID} {ttl : Int} {queues : List QueueName} (h : r.Settled j) :
    (b.dequeueLua workerID ttl now (readyKeysForQueues queues) r).1.Settled j ∧
    ∀ lease, (b.dequeueLua workerID ttl now (readyKeysForQueues queues) r).2 = some lease → lease.1 ≠ j := by
  apply dequeueLua_rule (P := fun r => r.Settled j)
    (Q := fun r res => r.Settled j ∧ ∀ lease, res = some lease → lease.1 ≠ j)
  case hr    => exact h
  case none  => exact fun _ h => ⟨h, nofun⟩
  case drop  =>
    intro r k i rest h hk hl _
    obtain ⟨q, n, rfl⟩ := mem_readyKeysForQueues hk
    have hm : i ∈ r.lists (.ready q n) := hl ▸ List.mem_cons_self
    have hi : j ≠ i := fun hi => h.not_mem (hi ▸ hm)
    exact h.of_unchanged (.lpop hl hi)
  case lease =>
    intro r k i rest x h hk hl hx hr
    obtain ⟨q, n, rfl⟩ := mem_readyKeysForQueues hk
    have hm : i ∈ r.lists (.ready q n) := hl ▸ List.mem_cons_self
    have hi : j ≠ i := fun hi => h.not_mem (hi ▸ hm)
    refine ⟨h.of_unchanged (.trans (.lpop hl hi) (lease_unchanged hi)), fun lease he => ?_⟩
    cases he
    exact hi.symm

theorem endLease (h : r.Settled j) (ht : leaseToken ≠ "") (hu : j ≠ i → ∀ r : Redis, r.Unchanged j (body r)) :
    (RedisBroker.endLease i leaseToken body r).1.Settled j ∧
    ((RedisBroker.endLease i leaseToken body r).2 = true → i ≠ j) := by
  apply endLease_rule (Q := fun x => x.1.Settled j ∧ (x.2 = true → i ≠ j)) <;> dsimp only
  case rejected => exact ⟨h, nofun⟩
  case accepted =>
    intro x hx he
    have hi : j ≠ i := by
      intro hi
      subst hi
      exact ht (he.symm.trans (h.of_hash hx).left)
    exact ⟨h.of_unchanged (.trans (.zrem hi) (hu hi _)), fun _ => hi.symm⟩

theorem heartbeatLua {ttl : Int} (h : r.Settled j) : (RedisBroker.heartbeatLua i leaseToken ttl now r).1.Settled j ∧
    ((RedisBroker.heartbeatLua i leaseToken ttl now r).2 = true → i ≠ j) := by
  apply heartbeatLua_rule (Q := fun x => x.1.Settled j ∧ (x.2 = true → i ≠ j)) <;> dsimp only
  case rejected => exact ⟨h, nofun⟩
  case accepted =>
    intro x hx _ hs
    have hi : j ≠ i := by
      intro hi
      subst hi
      exact (h.of_hash hx).right.left hs
    exact ⟨h.of_unchanged (renew_unchanged hi), fun _ => hi.symm⟩

theorem failLua {errMessage : String} {retryAt : Option Int} (h : r.Settled j) (ht : leaseToken ≠ "") :
    (RedisBroker.failLua job leaseToken errMessage retryAt now r).1.Settled j ∧
    ((RedisBroker.failLua job leaseToken errMessage retryAt now r).2 = true → job.id ≠ j) := by
  refine h.endLease ht fun hi r => ?_
  cases retryAt
  case none   => exact .trans (.hset hi) (.lpush hi)
  case some _ => exact .trans (.hset hi) (.zadd hi)

theorem activateAll_sub : ∀ i ∈ (activateAll now ids r).2, i ∈ ids := by
  induction ids generalizing r
  case nil             => exact fun _ hm => hm
  case cons id rest hi =>
    unfold activateAll
    intro i hm
    split at hm
    case isFalse => exact List.mem_cons_of_mem _ (hi i hm)
    case isTrue  =>
      dsimp only at hm
      split at hm
      case isFalse => exact List.mem_cons_of_mem _ (hi i hm)
      case isTrue  => exact (List.mem_cons.mp hm).elim (fun he => he ▸ List.mem_cons_self) fun hm =>
          List.mem_cons_of_mem _ (hi i hm)

theorem not_mem_range (h : r.Settled j) (z : ZSetKey) : j ∉ (r.zsets z).rangeByScore (.ofInt now) limit := by
  intro hm
  obtain ⟨s, hs, _⟩ := SortedSet.mem_rangeByScore hm
  cases (h.score? z).symm.trans hs

theorem activateDueLua (h : r.Settled j) : (RedisBroker.activateDueLua limit now r).1.Settled j ∧
    j ∉ (RedisBroker.activateDueLua limit now r).2 := by
  refine ⟨?_, fun hm => h.not_mem_range .delayed (activateAll_sub j hm)⟩
  apply activateAll_rule (P := fun r => r.Settled j) SortedSet.rangeByScore_nodup
  case hr => exact h
  case hs =>
    intro r' i _ _ hz h
    have hi : j ≠ i := fun hi => by simp [← hi, h.score?] at hz
    exact h.of_unchanged (activate_unchanged hi)

theorem recoverAll_unchanged (hn : ids.Nodup) (hj : j ∉ ids) : r.Unchanged j (b.recoverAll now ids r).1 := by
  apply recoverAll_rule (P := fun r' => r.Unchanged j r') hn
  case hr      => exact .refl ..
  case absent  => exact fun r' i hi _ _ hu => hu.trans (.zrem fun he => hj (he ▸ hi))
  case present =>
    intro r' i x hi _ _ _ hu
    have hne : j ≠ i := fun he => hj (he ▸ hi)
    exact hu.trans (.trans (.zrem hne) (recover_unchanged hne))

theorem of_recover {h : JobHash} {item : RecoveredLease} (hr : (b.recover now j h r).2 = .ok item) : item.jobID = j ∧
    (item.state ≠ .retrying → r.Only j none → (b.recover now j h r).1.Settled j) := by
  revert hr
  apply recover_rule (Q := fun x => x.2 = .ok item → item.jobID = j ∧
    (item.state ≠ .retrying → r.Only j none → x.1.Settled j)) <;> dsimp only
  case aborted  => exact fun _ _ _ hr => by cases hr
  case retrying =>
    intro _ _ _ _ hr
    cases hr
    exact ⟨rfl, fun hs => absurd rfl hs⟩
  case canceled =>
    intro _ hr
    cases hr
    exact ⟨rfl, fun _ ho => ⟨ho, _, hset_jobs_self, rfl, .inr (.inr rfl)⟩⟩
  case failed   =>
    intro _ _ hr
    cases hr
    have hj : (r.hset j (·.failExpired now)).jobs j = some (((r.jobs j).getD .empty).failExpired now) := hset_jobs_self
    exact ⟨rfl, fun _ ho => ⟨Only.lpush_dlq (r := r.hset j _) ho, _, hj, rfl, .inr (.inl rfl)⟩⟩

-- A job of which the script tells that it has come to its end is settled when the script returns.
theorem of_recoverAll {o : Option Place} {item : RecoveredLease} (hn : ids.Nodup)
    (hr : (b.recoverAll now ids r).2 = .ok items) (hm : item ∈ items) (hs : item.state ≠ .retrying)
    (ho : r.Seat item.jobID o) : (b.recoverAll now ids r).1.Settled item.jobID := by
  induction ids generalizing r items
  case nil             => cases hr; cases hm
  case cons id rest hi =>
    obtain ⟨hd, hn'⟩ := List.nodup_cons.mp hn
    have ne_of_mem {r : Redis} {items : List RecoveredLease} (hr : (b.recoverAll now rest r).2 = .ok items)
        (hm : item ∈ items) : item.jobID ≠ id :=
      fun he => hd (he ▸ (recoverAll_recovers hn' hr).left item hm)
    unfold recoverAll at hr ⊢
    by_cases hz : ((r.zsets .activeLeases).score? id).isSome
    case neg =>
      simp only [hz, Bool.false_eq_true, if_false] at hr ⊢
      exact hi hn' hr hm ho
    case pos =>
      simp only [hz, if_true] at hr ⊢
      cases hj : r.jobs id
      case none      =>
        simp only [hj] at hr ⊢
        exact hi hn' hr hm (ho.of_unchanged (.zrem (ne_of_mem hr hm)))
      case some hash =>
        simp only [hj] at hr ⊢
        have hu (k : JobID) (hk : k ≠ id) : r.Unchanged k (b.recover now id hash (r.zrem .activeLeases id)).1 :=
          .trans (.zrem hk) (recover_unchanged hk)
        have hx {item} := @of_recover b (r.zrem .activeLeases id) id now hash item
        generalize b.recover now id hash (r.zrem .activeLeases id) = x at hr hu hx ⊢
        obtain ⟨r₁, res⟩ := x
        cases res
        case error    => cases hr
        case ok item' =>
          dsimp only at hr hu hx ⊢
          cases hy : (b.recoverAll now rest r₁).2
          case error     => rw [hy] at hr; cases hr
          case ok items' =>
            rw [hy] at hr
            cases hr
            obtain ⟨he, hx⟩ := hx rfl
            obtain rfl | hm := List.mem_cons.mp hm
            · subst he
              cases ho.only.of_score? hz
              exact (hx hs ho.only.zrem_self).of_unchanged (recoverAll_unchanged hn' hd)
            · exact hi hn' hy hm (ho.of_unchanged (hu _ (ne_of_mem hy hm)))

theorem recoverExpiredLua (h : r.Settled j) : (b.recoverExpiredLua limit now r).1.Settled j ∧
    ∀ items ∈ (b.recoverExpiredLua limit now r).2.toOption, ∀ item ∈ items, item.jobID ≠ j := by
  refine ⟨h.of_unchanged (recoverAll_unchanged SortedSet.rangeByScore_nodup (h.not_mem_range _)), ?_⟩
  intro items hi item hm he
  have hs := (recoverAll_recovers SortedSet.rangeByScore_nodup (eq_ok_of_mem hi)).left item hm
  exact h.not_mem_range .activeLeases (he ▸ hs)

theorem cancelLoaded (h : r.Settled j) : (RedisBroker.cancelLoaded i job now r).Settled j := by
  by_cases hi : j = i
  case neg => exact h.of_unchanged (cancelLoaded_unchanged hi)
  case pos =>
    subst hi
    obtain ⟨x, hx, ht, hs⟩ := h.ended
    unfold RedisBroker.cancelLoaded
    dsimp only
    split
    case isTrue  =>
      refine ⟨?_, _, hset_jobs_self, ?_, .inr (.inr rfl)⟩
      · exact ((Only.lrem (r := r.hset j (·.requestCancel now)) h.only).zrem).lrem_dlq
      · simp [JobHash.cancel, JobHash.requestCancel, hx, ht]
    case isFalse =>
      have ht' : (((r.jobs j).getD .empty).requestCancel now).leaseToken = "" := by simp [JobHash.requestCancel, hx, ht]
      exact ⟨h.only, _, hset_jobs_self, ht', by simpa [JobHash.requestCancel, hx] using hs⟩

-- Once a job has come to its end, nothing is done for it until it is put into its queue again.
theorem exec (h : r.Settled j) (ha : Requeuing.Allowed r c) (hs : ¬c.Submits j) :
    (b.exec r c).1.Settled j ∧ ¬c.Serves j (b.exec r c).2 := by
  cases c
  case enqueue          => exact ⟨h.of_unchanged (enqueue_unchanged (Ne.symm hs)), id⟩
  case retry            => exact ⟨h.of_unchanged (retry_unchanged (Ne.symm hs)), id⟩
  case cancelLoaded     => exact ⟨h.cancelLoaded, id⟩
  case loadJob          => exact ⟨h, id⟩
  case activateDue      =>
    refine ⟨h.activateDueLua.left, ?_⟩
    rintro ⟨jobIDs, ⟨⟩, hm⟩
    exact h.activateDueLua.right hm
  case recoverExpired   =>
    refine ⟨h.recoverExpiredLua.left, ?_⟩
    rintro ⟨items, hi, item, hm, hj⟩
    exact h.recoverExpiredLua.right items hi item hm hj
  case dequeue          =>
    refine ⟨h.dequeueLua.left, ?_⟩
    rintro ⟨lease, hl, he⟩
    exact h.dequeueLua.right lease hl he
  case heartbeat        =>
    refine ⟨h.heartbeatLua.left, ?_⟩
    rintro ⟨he, hi⟩
    exact h.heartbeatLua.right (Option.some.inj he) hi
  case complete         =>
    refine ⟨(h.endLease ha fun hi _ => .hset hi).left, ?_⟩
    rintro ⟨he, hi⟩
    exact (h.endLease ha fun hi _ => .hset hi).right (Option.some.inj he) hi
  case fail             =>
    refine ⟨(h.failLua ha).left, ?_⟩
    rintro ⟨he, hi⟩
    exact (h.failLua ha).right (Option.some.inj he) hi
  case requeueThrottled =>
    refine ⟨(h.endLease ha fun hi _ => .trans (.hset hi) (.zadd hi)).left, ?_⟩
    rintro ⟨he, hi⟩
    exact (h.endLease ha fun hi _ => .trans (.hset hi) (.zadd hi)).right (Option.some.inj he) hi

theorem of_completeLua {result : String} (hr : r.Seated) (ht : leaseToken ≠ "")
    (he : (completeLua job leaseToken now result r).2 = true) :
    (completeLua job leaseToken now result r).1.Settled job.id := by
  have hx : ∃ x, (completeLua job leaseToken now result r).1.jobs job.id = some x ∧ x.state = .completed := by
    revert he
    apply endLease_rule (Q := fun x => x.2 = true → ∃ h, x.1.jobs job.id = some h ∧ h.state = .completed)
    case rejected => exact nofun
    case accepted =>
      intro _ _ _ _
      exact ⟨(((r.zrem .activeLeases job.id).jobs job.id).getD .empty).complete job now result, by simp, rfl⟩
  obtain ⟨x, hx, hc⟩ := hx
  exact of_seated (hr.completeLua ht) hx (.inl hc)

theorem of_failLua {errMessage : String} (hr : r.Seated) (ht : leaseToken ≠ "")
    (he : (RedisBroker.failLua job leaseToken errMessage none now r).2 = true) :
    (RedisBroker.failLua job leaseToken errMessage none now r).1.Settled job.id := by
  have hx : ∃ x, (RedisBroker.failLua job leaseToken errMessage none now r).1.jobs job.id = some x ∧
      x.state = .failed := by
    revert he
    apply endLease_rule (Q := fun x => x.2 = true → ∃ h, x.1.jobs job.id = some h ∧ h.state = .failed)
    case rejected => exact nofun
    case accepted =>
      intro _ _ _ _
      exact ⟨((((r.zrem .activeLeases job.id).jobs job.id).getD .empty).fail errMessage now), by simp, rfl⟩
  obtain ⟨x, hx, hf⟩ := hx
  exact of_seated (hr.failLua ht) hx (.inr hf)

-- What is told about the end of a job is true.
theorem of_ends (hr : r.Seated) (ha : Requeuing.Allowed r c) (he : c.Ends j (b.exec r c).2) :
    (b.exec r c).1.Settled j := by
  cases c
  case complete       =>
    obtain ⟨he, rfl⟩ := he
    exact of_completeLua hr ha (Option.some.inj he)
  case fail           =>
    obtain ⟨he, rfl, rfl⟩ := he
    exact of_failLua hr ha (Option.some.inj he)
  case recoverExpired =>
    obtain ⟨items, hi, item, hm, rfl, hn⟩ := he
    obtain ⟨o, ho⟩ := hr item.jobID
    exact of_recoverAll SortedSet.rangeByScore_nodup (eq_ok_of_mem hi) hm hn ho
  all_goals exact he.elim

end Redis.Settled

-- The broker, and how often each job has been reported to have come to its end since it was submitted.
structure Docket where
  redis : Redis
  ended : JobID → Nat

namespace Docket

def initial : Docket where
  redis := .empty
  ended := fun _ => 0

def step (b : RedisBroker) (s : Docket) (c : BrokerCall) : Docket where
  redis   := (b.exec s.redis c).1
  ended j :=
    if c.Submits j then 0
    else if c.Ends j (b.exec s.redis c).2 then s.ended j + 1
    else s.ended j

-- Jobs that have been reported are settled.
structure Closed (s : Docket) : Prop where
  seated  : s.redis.Seated
  settled : ∀ j, s.ended j = 0 ∨ s.ended j = 1 ∧ s.redis.Settled j

variable {b : RedisBroker} {s : Docket} {c : BrokerCall} {cs : List BrokerCall} {j : JobID}

theorem Closed.step (h : Closed s) (ha : Requeuing.Allowed s.redis c) : Closed (s.step b c) where
  seated    := Requeuing.seated_step h.seated ha
  settled j := by
    unfold Docket.step
    dsimp only
    split
    case isTrue     => exact .inl rfl
    case isFalse hs =>
      obtain h0 | ⟨h1, hd⟩ := h.settled j
      case inl =>
        split
        case isTrue he => exact .inr ⟨by rw [h0], .of_ends h.seated ha he⟩
        case isFalse   => exact .inl h0
      case inr =>
        obtain ⟨hd, hn⟩ := hd.exec (b := b) ha hs
        rw [if_neg fun he => hn he.serves]
        exact .inr ⟨h1, hd⟩

theorem closed_of_allowed (hg : Run.Guarded (step b) (fun s c => Requeuing.Allowed s.redis c) .initial cs) :
    Closed (Run.last (step b) .initial cs) :=
  hg.invariant (fun _ _ => Closed.step) ⟨.empty, fun _ => .inl rfl⟩

-- Each time that a job is submitted, it comes to its end once at most, and then it is over.
theorem ended_once_of_allowed
    (hg : Run.Guarded (step b) (fun s c => Requeuing.Allowed s.redis c) .initial cs) (j : JobID) :
    let s : Docket := Run.last (step b) .initial cs
    s.ended j ≤ 1 ∧ (s.ended j = 1 → ∀ c, Requeuing.Allowed s.redis c → ¬c.Submits j →
      ¬c.Serves j (b.exec s.redis c).2 ∧ (s.step b c).redis.Settled j) := by
  obtain h0 | ⟨h1, hd⟩ := (closed_of_allowed hg).settled j
  case inl => exact ⟨h0.trans_le (Nat.zero_le 1), fun h1 => absurd (h0.symm.trans h1) (by decide)⟩
  case inr => exact ⟨h1.le, fun _ c ha hn => (hd.exec ha hn).symm⟩

namespace Sample

def time (seconds : Int) : Time :=
  .ofUnixMilli 1700000000000 + seconds * Duration.second

def submitted : Job :=
  buildJob (time 0) (.plain "email.send") "job-1"

-- The job fails, and it is not retried by its worker.
def failing : List BrokerCall := [
  .enqueue submitted (time 0),
  .dequeue "worker-1" [] (30 * Duration.second) (time 0),
  .fail submitted "5567c106259ceacb00ef1701815b187dca3f70c3" "boom" none (time 1)
]

-- An operator puts it into its queue again, and its next lease expires.
def retried : List BrokerCall := [
  .retry (Manager.retriedJob submitted (time 59)) (time 59),
  .dequeue "worker-2" [] (30 * Duration.second) (time 60),
  .cancelLoaded "job-1" { submitted with state := .active } (time 61),
  .recoverExpired 200 (time 91)
]

theorem failing_allowed : Run.Guarded (step .sample) (fun s c => Requeuing.Allowed s.redis c) .initial failing :=
  ⟨⟨rfl, rfl, by decide⟩, trivial, by unfold Requeuing.Allowed; decide, trivial⟩

theorem retried_allowed :
    Run.Guarded (step .sample) (fun s c => Requeuing.Allowed s.redis c) .initial (failing ++ retried) := by
  have he : (Run.last (step .sample) .initial failing).ended "job-1" = 1 := by decide +kernel
  obtain h0 | ⟨_, hd⟩ := (closed_of_allowed failing_allowed).settled "job-1"
  · cases he.symm.trans h0
  · exact Run.Guarded.append.mpr ⟨failing_allowed, hd.only, trivial, trivial, trivial, trivial⟩

theorem retried_ended : (Run.last (step .sample) .initial (failing ++ retried)).ended "job-1" = 1 := by
  decide +kernel

end Sample

-- A worker which comes late does not complete the job.
theorem ended_once_of_allowed_sample :
    let late := BrokerCall.complete Sample.submitted "5567c106259ceacb00ef1701815b187dca3f70c3" "done" (Sample.time 92)
    let s := Run.last (step .sample) .initial (Sample.failing ++ Sample.retried)
    ¬late.Serves "job-1" (RedisBroker.sample.exec s.redis late).2 := by
  have h := (ended_once_of_allowed Sample.retried_allowed "job-1").right Sample.retried_ended
  have hl := h (.complete Sample.submitted "5567c106259ceacb00ef1701815b187dca3f70c3" "done" (Sample.time 92))
  exact (hl (by unfold Requeuing.Allowed; decide) id).left

end Docket
end JobPlatform
