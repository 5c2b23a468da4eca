import JobPlatform.Library.SortedSet
import JobPlatform.Queue.Hash

namespace JobPlatform

abbrev Score := WithBot (WithTop Int)

def Score.ofInt (n : Int) : Score :=
  ((n : WithTop Int) : WithBot (WithTop Int))

inductive ListKey
  | ready (queueName : QueueName) (priority : Int)
  | dlq (queueName : QueueName)
  deriving DecidableEq

inductive ZSetKey
  | delayed
  | activeLeases
  deriving DecidableEq

-- The keys of Redis which the broker reads. Keys that do not exist are empty.
structure Redis where
  jobs  : JobID → Option JobHash
  lists : ListKey → List JobID
  zsets : ZSetKey → SortedSet JobID Score

namespace Redis

def empty : Redis where
  jobs _  := none
  lists _ := []
  zsets _ := ∅

-- Overwrites the fields of the hash of `id`, which is created if it does not exist.
def hset (r : Redis) (id : JobID) (f : JobHash → JobHash) : Redis :=
  { r with jobs := Function.update r.jobs id <| some <| f <| (r.jobs id).getD .empty }

def lset (r : Redis) (k : ListKey) (ids : List JobID) : Redis :=
  { r with lists := Function.update r.lists k ids }

def lpush (r : Redis) (k : ListKey) (id : JobID) : Redis :=
  r.lset k (id :: r.lists k)

def lrem (r : Redis) (k : ListKey) (id : JobID) : Redis :=
  r.lset k <| (r.lists k).filter (· ≠ id)

def zadd (r : Redis) (k : ZSetKey) (id : JobID) (s : Score) : Redis :=
  { r with zsets := Function.update r.zsets k <| (r.zsets k).add id s }

def zrem (r : Redis) (k : ZSetKey) (id : JobID) : Redis :=
  { r with zsets := Function.update r.zsets k <| (r.zsets k).remove id }

variable {r : Redis} {id j : JobID} {f : JobHash → JobHash} {k l : ListKey} {y z : ZSetKey} {s : Score}
         {ids : List JobID}

theorem hset_jobs : (r.hset id f).jobs j = if j = id then some (f <| (r.jobs id).getD .empty) else r.jobs j := by
  simp [hset, Function.update_apply]

@[simp]
theorem hset_jobs_self : (r.hset id f).jobs id = some (f <| (r.jobs id).getD .empty) := by
  simp [hset_jobs]

@[simp]
theorem hset_lists : (r.hset id f).lists = r.lists :=
  rfl

@[simp]
theorem hset_zsets : (r.hset id f).zsets = r.zsets :=
  rfl

@[simp]
theorem lset_jobs : (r.lset k ids).jobs = r.jobs :=
  rfl

@[simp]
theorem lset_zsets : (r.lset k ids).zsets = r.zsets :=
  rfl

theorem lset_lists : (r.lset k ids).lists l = if l = k then ids else r.lists l := by
  simp [lset, Function.update_apply]

@[simp]
theorem lpush_jobs : (r.lpush k id).jobs = r.jobs :=
  rfl

@[simp]
theorem lpush_zsets : (r.lpush k id).zsets = r.zsets :=
  rfl

theorem lpush_lists : (r.lpush k id).lists l = if l = k then id :: r.lists k else r.lists l :=
  lset_lists

@[simp]
theorem lrem_jobs : (r.lrem k id).jobs = r.jobs :=
  rfl

@[simp]
theorem lrem_zsets : (r.lrem k id).zsets = r.zsets :=
  rfl

theorem lrem_lists :
    (r.lrem k id).lists l = if l = k then (r.lists k).filter (· ≠ id) else r.lists l :=
  lset_lists

@[simp]
theorem zadd_jobs : (r.zadd z id s).jobs = r.jobs :=
  rfl

@[simp]
theorem zadd_lists : (r.zadd z id s).lists = r.lists :=
  rfl

theorem zadd_score? : ((r.zadd z id s).zsets y).score? j =
    if y = z ∧ j = id then some s else (r.zsets y).score? j := by
  by_cases h : y = z
  case pos => subst h; simp [zadd, SortedSet.score?_add]
  case neg => simp [zadd, h]

@[simp]
theorem zrem_jobs : (r.zrem z id).jobs = r.jobs :=
  rfl

@[simp]
theorem zrem_lists : (r.zrem z id).lists = r.lists :=
  rfl

theorem zrem_score? : ((r.zrem z id).zsets y).score? j =
    if y = z ∧ j = id then none else (r.zsets y).score? j := by
  by_cases h : y = z
  case pos => subst h; simp [zrem, SortedSet.score?_remove]
  case neg => simp [zrem, h]

end Redis
end JobPlatform
