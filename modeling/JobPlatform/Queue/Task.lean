import JobPlatform.Queue.Fields

namespace JobPlatform

-- What a job is about. It decides which handler is called, on what, and in which list the job waits.
structure Task where
  type          : String
  queue         : QueueName
  payload       : String
  priority      : Int
  schemaVersion : Int
  deriving DecidableEq

def JobHash.task (h : JobHash) : Task where
  type          := h.type
  queue         := h.queue
  payload       := h.payload
  priority      := h.priority
  schemaVersion := h.schemaVersion

def Job.task (job : Job) : Task where
  type          := job.type
  queue         := job.queue
  payload       := job.payload
  priority      := job.priority
  schemaVersion := job.schemaVersion

@[simp]
theorem jobHash_task {job : Job} : (jobHash job).task = job.task :=
  rfl

@[simp]
theorem jobFromHash_task {h : JobHash} : (jobFromHash h).task = h.task :=
  rfl

-- The calls which decide about the task of a job.
def BrokerCall.assigns (j : JobID) : BrokerCall → Prop
  | enqueue job _ => job.id = j
  | retry job _   => job.id = j
  | _             => False

namespace Redis

def tasks (r : Redis) (j : JobID) : Option Task :=
  (r.jobs j).map JobHash.task

-- A job that is retried keeps its type and its version. If it has no hash, it has neither of them.
def retriedTask (r : Redis) (job : Job) : Task :=
  let t := ((r.jobs job.id).getD .empty).task
  { t with queue := job.queue, payload := job.payload, priority := job.priority }

variable {r : Redis} {i j : JobID} {f : JobHash → JobHash} {t : Task} {k : ListKey} {z : ZSetKey} {s : Score}
         {ids : List JobID}

@[simp]
theorem lset_tasks : (r.lset k ids).tasks = r.tasks :=
  rfl

@[simp]
theorem lpush_tasks : (r.lpush k i).tasks = r.tasks :=
  rfl

@[simp]
theorem lrem_tasks : (r.lrem k i).tasks = r.tasks :=
  rfl

@[simp]
theorem zadd_tasks : (r.zadd z i s).tasks = r.tasks :=
  rfl

@[simp]
theorem zrem_tasks : (r.zrem z i).tasks = r.tasks :=
  rfl

theorem tasks_eq_some : r.tasks j = some t ↔ ∃ h, r.jobs j = some h ∧ h.task = t :=
  Option.map_eq_some_iff

-- Writing other fields of a hash that is there keeps all tasks.
theorem hset_tasks (hf : ∀ h, (f h).task = h.task) (hi : (r.jobs i).isSome) : (r.hset i f).tasks = r.tasks :=
  hset_fields_of_isSome hf hi

theorem hset_assigns : (r.hset i f).tasks = Function.update r.tasks i (some (f ((r.jobs i).getD .empty)).task) :=
  hset_fields

end Redis

-- The scripts do not write the task of a job.
theorem JobHash.task_lasting : JobHash.Lasting JobHash.task := by
  constructor <;> intros <;> rfl

namespace RedisBroker

variable {b : RedisBroker} {workerID : WorkerID} {ttl now : Int} {keys : List ListKey} {r : Redis} {ids : List JobID}
         {i j : JobID} {leaseToken : Token} {job : Job} {c : BrokerCall}

theorem dequeueLua_tasks : (b.dequeueLua workerID ttl now keys r).1.tasks = r.tasks := by
  have h := @dequeueLua_fields _ JobHash.task b workerID ttl now keys r id fun _ _ _ _ _ => rfl
  revert h
  generalize b.dequeueLua workerID ttl now keys r = x
  match x with
  | (r', none)        => exact fun h => h
  | (r', some (i, _)) =>
    intro ⟨x, hi, hr⟩
    exact hr.trans (Function.update_eq_self_iff.mpr hi.symm)

theorem heartbeatLua_tasks : (heartbeatLua i leaseToken ttl now r).1.tasks = r.tasks :=
  heartbeatLua_fields JobHash.task_lasting

theorem completeLua_tasks {result : String} : (completeLua job leaseToken now result r).1.tasks = r.tasks :=
  completeLua_fields JobHash.task_lasting

theorem failLua_tasks {errMessage : String} {retryAt : Option Int} :
    (failLua job leaseToken errMessage retryAt now r).1.tasks = r.tasks :=
  failLua_fields JobHash.task_lasting

theorem throttleLua_tasks {reason : String} {retryAt : Int} :
    (throttleLua job leaseToken now reason retryAt r).1.tasks = r.tasks :=
  throttleLua_fields JobHash.task_lasting

theorem activate_tasks : (activate now i r).1.tasks = r.tasks :=
  activate_fields JobHash.task_lasting

theorem recoverAll_tasks (hn : ids.Nodup) : (b.recoverAll now ids r).1.tasks = r.tasks :=
  recoverAll_fields JobHash.task_lasting hn

theorem cancelLoaded_tasks {now : Int} (hj : (r.jobs i).isSome) : (cancelLoaded i job now r).tasks = r.tasks :=
  cancelLoaded_fields_of_isSome JobHash.task_lasting hj

theorem enqueue_tasks {now : Time} : (enqueue job now r).tasks = Function.update r.tasks job.id (some job.task) :=
  enqueue_fields

theorem retry_tasks {now : Time} : (retry job now r).tasks = Function.update r.tasks job.id (some (r.retriedTask job)) :=
  retry_fields JobHash.task_lasting

-- A job keeps its task until it is enqueued or retried.
theorem exec_tasks (hc : ¬c.assigns j) (hj : (r.jobs j).isSome ∨ ∀ job now, c ≠ .cancelLoaded j job now) :
    (b.exec r c).1.tasks j = r.tasks j := by
  have hl (hc : Lasts c) : (b.exec r c).1.tasks j = r.tasks j := congrFun (exec_fields JobHash.task_lasting hc) j
  cases c
  case dequeue  => exact congrFun dequeueLua_tasks j
  case enqueue  => rw [Redis.tasks, exec, (enqueue_unchanged (Ne.symm hc)).jobs, Redis.tasks]
  case retry    => rw [Redis.tasks, exec, (retry_unchanged (Ne.symm hc)).jobs, Redis.tasks]
  case cancelLoaded i job now =>
    by_cases hi : j = i
    case neg => rw [Redis.tasks, exec, (cancelLoaded_unchanged hi).jobs, Redis.tasks]
    case pos =>
      subst hi
      cases hj
      case inl hj => exact congrFun (cancelLoaded_tasks hj) j
      case inr hj => exact absurd rfl (hj job now)
  all_goals exact hl trivial

end RedisBroker
end JobPlatform
