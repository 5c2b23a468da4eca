import JobPlatform.Queue.Task
import JobPlatform.Service.Manager

namespace JobPlatform

structure Registry where
  validators : String → Option (Int → Option (String → Except Error Unit))

namespace Registry

def new : Registry where
  validators _ := none

def register (r : Registry) (jobType : String) (version : Int) (validator : String → Except Error Unit) : Registry where
  validators :=
    let version  := if version ≤ 0 then 1 else version
    let versions := (r.validators jobType).getD fun _ => none
    Function.update r.validators jobType <| some <| Function.update versions version <| some validator

def validate (r : Registry) (jobType : String) (version : Int) (payload : String) : Except Error Unit :=
  let version := if version ≤ 0 then 1 else version
  match r.validators jobType with
  | none          => .ok ()
  | some versions =>
    match versions version with
    | none           => .error <| .invalid <| "no schema registered for " ++ jobType ++ " version " ++ toString version
    | some validator => validator payload

-- The service which validates payloads by the registry.
def manager (r : Registry) (defaultDedupeWindow : Duration) : Manager where
  validateSchema      := r.validate
  defaultDedupeWindow := defaultDedupeWindow

variable {registry : Registry} {jobType payload : String} {version : Int}

theorem validate_of_unknown (h : registry.validators jobType = none) : registry.validate jobType version payload = .ok () := by
  simp [validate, h]

-- The first version is the default.
theorem validate_default :
    registry.validate jobType (if version ≤ 0 then 1 else version) payload = registry.validate jobType version payload := by
  unfold validate
  by_cases h : version ≤ 0
  case pos => simp [h]
  case neg => simp [h]

end Registry

def IsPriority (n : Int) : Prop :=
  0 ≤ n ∧ n ≤ 9

-- What has been checked about every job that may run.
structure Task.Admitted (registry : Registry) (t : Task) : Prop where
  priority : IsPriority t.priority
  payload  : registry.validate t.type t.schemaVersion t.payload = .ok ()

variable {registry : Registry} {m : Manager} {req : JobRequest} {job : Job}

theorem JobRequest.validate_priority (h : req.validate = .ok ()) : ∀ p ∈ req.priority, IsPriority p := by
  intro p hp
  by_contra hn
  have hp : req.priority.any (fun p => p < 0 ∨ 9 < p) := by
    rw [Option.mem_def.mp hp]
    simp only [IsPriority, not_and_or, not_le] at hn
    simpa using hn
  unfold validate at h
  by_cases ht : req.type = ""
  case pos => rw [if_pos ht] at h; cases h
  case neg => rw [if_neg ht, if_pos hp] at h; cases h

-- The requests that the service accepts lead to such jobs.
theorem Manager.accepts_admitted (now : Time) (id : JobID) (hm : m.validateSchema = registry.validate)
    (h : m.accepts req = .ok ()) : (buildJob now req id).task.Admitted registry := by
  unfold accepts at h
  cases hv : req.validate
  case error => rw [hv] at h; cases h
  case ok    =>
    rw [hv, hm] at h
    constructor
    case payload  => exact h
    case priority =>
      have hp := JobRequest.validate_priority hv
      change IsPriority (req.priority.getD 5)
      cases he : req.priority
      case none   => exact ⟨by decide, by decide⟩
      case some p => exact hp p he

namespace Redis

-- Every job has been admitted, and the ready lists hold jobs of their own priorities.
structure Admitted (registry : Registry) (r : Redis) : Prop where
  tasks : ∀ j t, r.tasks j = some t → t.Admitted registry
  ready : ∀ queueName priority, ∀ j ∈ r.lists (.ready queueName priority), IsPriority priority ∧ (r.tasks j).isSome

namespace Admitted

variable {r r' : Redis} {j : JobID} {t : Task} {queueName : QueueName} {priority : Int}

theorem empty : Admitted registry .empty :=
  ⟨fun _ _ h => (nomatch h), fun _ _ _ h => (nomatch h)⟩

theorem frame (h : Admitted registry r) (ht : r'.tasks = r.tasks)
    (hl : ∀ q p, r'.lists (.ready q p) ⊆ r.lists (.ready q p)) : Admitted registry r' :=
  ⟨ht ▸ h.tasks, fun q p j hj => ht ▸ h.ready q p j (hl q p hj)⟩

theorem lpush (h : Admitted registry r) (hp : IsPriority priority) (hj : (r.tasks j).isSome) :
    Admitted registry (r.lpush (.ready queueName priority) j) := by
  constructor
  case tasks => exact h.tasks
  case ready =>
    intro q p i hi
    rw [lpush_lists] at hi
    split at hi
    case isFalse    => exact h.ready q p i hi
    case isTrue he =>
      cases he
      cases hi
      case head    => exact ⟨hp, hj⟩
      case tail hi => exact h.ready _ _ i hi

-- A job gets a task that has been admitted.
theorem assign (h : Admitted registry r) (hl : r'.lists = r.lists)
    (ht : r'.tasks = Function.update r.tasks j (some t)) (ha : t.Admitted registry) : Admitted registry r' := by
  constructor
  case tasks =>
    intro i t' hi
    rw [ht, Function.update_apply] at hi
    split at hi
    case isTrue  => cases hi; exact ha
    case isFalse => exact h.tasks i t' hi
  case ready =>
    intro q p i hi
    have ⟨hp, hs⟩ := h.ready q p i (hl ▸ hi)
    refine ⟨hp, ?_⟩
    rw [ht, Function.update_apply]
    split
    case isTrue  => rfl
    case isFalse => exact hs

end Admitted
end Redis

namespace RedisBroker

variable {b : RedisBroker} {workerID : WorkerID} {ttl now : Int} {keys : List ListKey} {r : Redis} {ids : List JobID}
         {i : JobID} {leaseToken : Token} {c : BrokerCall}

-- The calls which only take jobs out of the ready lists.
def ShrinksReady (r r' : Redis) : Prop :=
  ∀ q p, r'.lists (.ready q p) ⊆ r.lists (.ready q p)

theorem ShrinksReady.of_lists {r' : Redis} (h : r'.lists = r.lists) : ShrinksReady r r' :=
  fun _ _ => h ▸ List.Subset.refl _

theorem ShrinksReady.of_dlq {r' : Redis} {q : QueueName} (h : r'.lists = (r.lpush (.dlq q) i).lists) : ShrinksReady r r' := by
  intro q p
  rw [h, Redis.lpush_lists, if_neg (by simp)]
  exact List.Subset.refl _

theorem ShrinksReady.trans {r₁ r₂ : Redis} (h : ShrinksReady r r₁) (h' : ShrinksReady r₁ r₂) : ShrinksReady r r₂ :=
  fun q p => List.Subset.trans (h' q p) (h q p)

theorem ShrinksReady.lset {k : ListKey} {ids : List JobID} (h : ids ⊆ r.lists k) : ShrinksReady r (r.lset k ids) := by
  intro q p
  rw [Redis.lset_lists]
  split
  case isTrue he => rw [he]; exact h
  case isFalse   => exact List.Subset.refl _

theorem dequeueLua_shrinks : ShrinksReady r (b.dequeueLua workerID ttl now keys r).1 := by
  have pop {r' : Redis} {k : ListKey} {j : JobID} {rest : List JobID} (h : ShrinksReady r r') (hl : r'.lists k = j :: rest) :
      ShrinksReady r (r'.lset k rest) := by
    refine h.trans (.lset ?_)
    rw [hl]
    exact List.subset_cons_self j rest
  apply dequeueLua_rule (P := ShrinksReady r) (Q := fun r' _ => ShrinksReady r r')
  case drop  => exact fun r' k j rest h _ hl _ => pop h hl
  case lease => exact fun r' k j rest _ h _ hl _ _ => pop h hl
  case none  => exact fun _ h => h
  case hr    => exact .of_lists rfl

theorem heartbeatLua_shrinks : ShrinksReady r (heartbeatLua i leaseToken ttl now r).1 := by
  apply heartbeatLua_rule (Q := fun x => ShrinksReady r x.1)
  case rejected => exact .of_lists rfl
  case accepted => exact fun _ _ _ _ => .of_lists rfl

theorem endLease_shrinks {body : Redis → Redis} (hb : ∀ r : Redis, ShrinksReady r (body r)) :
    ShrinksReady r (endLease i leaseToken body r).1 := by
  apply endLease_rule (Q := fun x => ShrinksReady r x.1)
  case rejected => exact .of_lists rfl
  case accepted => exact fun _ _ _ => (ShrinksReady.of_lists rfl).trans (hb _)

theorem completeLua_shrinks {job : Job} {result : String} :
    ShrinksReady r (completeLua job leaseToken now result r).1 :=
  endLease_shrinks fun _ => .of_lists rfl

theorem throttleLua_shrinks {job : Job} {reason : String} {retryAt : Int} :
    ShrinksReady r (throttleLua job leaseToken now reason retryAt r).1 :=
  endLease_shrinks fun _ => .of_lists rfl

theorem failLua_shrinks {job : Job} {errMessage : String} {retryAt : Option Int} :
    ShrinksReady r (failLua job leaseToken errMessage retryAt now r).1 :=
  endLease_shrinks fun _ =>
    match retryAt with
    | none   => .of_dlq rfl
    | some _ => .of_lists rfl

theorem recoverAll_shrinks (hn : ids.Nodup) : ShrinksReady r (b.recoverAll now ids r).1 := by
  refine recoverAll_rule (P := ShrinksReady r) hn ?_ ?_ (.of_lists rfl)
  case refine_1 => exact fun _ _ _ _ _ h => h
  case refine_2 =>
    intro r' j h _ _ _ _ hr
    refine hr.trans ?_
    apply recover_rule (Q := fun x => ShrinksReady r' x.1)
    case canceled => exact fun _ => .of_lists rfl
    case retrying => exact fun _ _ _ _ => .of_lists rfl
    case aborted  => exact fun _ _ _ => .of_lists rfl
    case failed   => exact fun _ _ => .of_dlq rfl

theorem recoverExpiredLua_tasks {limit : Int} : (b.recoverExpiredLua limit now r).1.tasks = r.tasks :=
  recoverAll_tasks SortedSet.rangeByScore_nodup

theorem recoverExpiredLua_shrinks {limit : Int} : ShrinksReady r (b.recoverExpiredLua limit now r).1 :=
  recoverAll_shrinks SortedSet.rangeByScore_nodup

theorem cancelLoaded_shrinks {job : Job} : ShrinksReady r (cancelLoaded i job now r) := by
  unfold cancelLoaded
  dsimp only
  split
  case isFalse => exact .of_lists rfl
  case isTrue  =>
    have remove {r : Redis} {k : ListKey} : ShrinksReady r (r.lrem k i) := .lset (List.filter_subset_self _)
    exact .trans (.of_lists rfl) <| .trans remove <| .trans (.of_lists rfl) <| .trans remove (.of_lists rfl)

theorem activateAll_admitted (hn : ids.Nodup) (h : Redis.Admitted registry r) :
    Redis.Admitted registry (activateAll now ids r).1 := by
  refine activateAll_rule (P := Redis.Admitted registry) hn (fun r' j _ _ _ h => ?_) h
  unfold activate
  split
  case h_1       => exact h.frame rfl fun _ _ => List.Subset.refl _
  case h_2 g hj =>
    have ht := @activate_tasks now r' j
    have hg : (r'.tasks j) = some g.task := Redis.tasks_eq_some.mpr ⟨g, hj, rfl⟩
    simp only [activate, hj, Redis.lpush_tasks] at ht
    have h' : Redis.Admitted registry ((r'.zrem .delayed j).hset j (·.activate now)) :=
      h.frame ht fun _ _ => List.Subset.refl _
    exact h'.lpush (h.tasks j _ hg).priority (by rw [ht, hg]; rfl)

-- All other calls keep what has been admitted. Only a job that exists can be canceled.
theorem exec_admitted (hc : ∀ j, ¬c.assigns j) (hj : ∀ j job now, c = .cancelLoaded j job now → (r.jobs j).isSome)
    (h : Redis.Admitted registry r) : Redis.Admitted registry (b.exec r c).1 := by
  cases c
  case loadJob          => exact h
  case enqueue job _    => exact absurd rfl (hc job.id)
  case retry job _      => exact absurd rfl (hc job.id)
  case dequeue          => exact h.frame dequeueLua_tasks dequeueLua_shrinks
  case heartbeat        => exact h.frame heartbeatLua_tasks heartbeatLua_shrinks
  case complete         => exact h.frame completeLua_tasks completeLua_shrinks
  case requeueThrottled => exact h.frame throttleLua_tasks throttleLua_shrinks
  case activateDue      => exact activateAll_admitted SortedSet.rangeByScore_nodup h
  case fail             => exact h.frame failLua_tasks failLua_shrinks
  case recoverExpired   => exact h.frame recoverExpiredLua_tasks recoverExpiredLua_shrinks
  case cancelLoaded     => exact h.frame (cancelLoaded_tasks <| hj _ _ _ rfl) cancelLoaded_shrinks

variable {job : Job} {now : Time}

theorem enqueue_admitted (h : Redis.Admitted registry r) (ha : job.task.Admitted registry) :
    Redis.Admitted registry (enqueue job now r) := by
  have h : Redis.Admitted registry (r.hset job.id fun _ => jobHash job) := h.assign rfl Redis.hset_assigns ha
  unfold enqueue
  dsimp only
  split
  case isTrue  => exact h
  case isFalse =>
    split
    case isTrue  => exact h.frame rfl fun _ _ => List.Subset.refl _
    case isFalse =>
      split
      case isTrue  => exact h.lpush ha.priority (by simp [Redis.tasks])
      case isFalse => exact h

theorem retry_admitted (h : Redis.Admitted registry r) (ha : (r.retriedTask job).Admitted registry) :
    Redis.Admitted registry (retry job now r) := by
  have h : Redis.Admitted registry (r.hset job.id (·.retry job now.unixMilli)) := h.assign rfl Redis.hset_assigns ha
  have hp : IsPriority job.priority := ha.priority
  have remove {r : Redis} (h : Redis.Admitted registry r) : Redis.Admitted registry (r.lrem (.dlq job.queue) job.id) :=
    h.frame rfl (ShrinksReady.lset (List.filter_subset_self _))
  unfold retry
  dsimp only
  split
  case isFalse => exact remove <| h.lpush hp (by simp [Redis.tasks])
  case isTrue  =>
    refine remove <| h.frame ?_ fun _ _ => List.Subset.refl _
    exact Redis.hset_tasks (f := (·.schedule)) (fun _ => rfl) (by simp)

end RedisBroker
end JobPlatform
