import JobPlatform.Library.Run
import JobPlatform.Queue.Effects

namespace JobPlatform

-- The pipeline of `EnqueueBatch`.
def RedisBroker.enqueueBatch (jobs : List Job) (now : Time) (r : Redis) : Redis :=
  jobs.foldl (fun r job => enqueue job now r) r

-- The steps which put jobs into ready lists or take them out of there.
inductive LineStep
  | enqueue (job : Job) (now : Time)
  | enqueueBatch (jobs : List Job) (now : Time)
  | activateDue (limit : Int) (now : Time)
  | dequeue (workerID : WorkerID) (queues : List QueueName) (leaseTTL : Duration) (now : Time)

-- The broker, and for each entry of its lists the number of the step in which it has been pushed.
structure Line where
  redis   : Redis
  entries : ListKey → List (JobID × Nat)
  steps   : Nat

namespace Line

def start : Line where
  redis     := .empty
  entries _ := []
  steps     := 0

-- The entries of a list whose identifiers are now `ids`. Lists change at their heads only.
def renumber (n : Nat) (entries : List (JobID × Nat)) (ids : List JobID) : List (JobID × Nat) :=
  (ids.take (ids.length - entries.length)).map (·, n) ++ entries.drop (entries.length - ids.length)

def apply (b : RedisBroker) (r : Redis) : LineStep → Redis × Option JobID
  | .enqueue job now                         => (RedisBroker.enqueue job now r, none)
  | .enqueueBatch jobs now                   => (RedisBroker.enqueueBatch jobs now r, none)
  | .activateDue limit now                   => ((RedisBroker.activateDueLua limit now.unixMilli r).1, none)
  | .dequeue workerID queues leaseTTL now    =>
    let (r', res) := b.dequeueLua workerID leaseTTL.milliseconds now.unixMilli (readyKeysForQueues queues) r
    (r', res.map (·.1))

def step (b : RedisBroker) (s : Line) (a : LineStep) : Line where
  redis     := (apply b s.redis a).1
  entries k := renumber s.steps (s.entries k) ((apply b s.redis a).1.lists k)
  steps     := s.steps + 1

-- The entries which the step takes out of a list.
def taken (b : RedisBroker) (s : Line) (a : LineStep) (k : ListKey) : List (JobID × Nat) :=
  (s.entries k).take ((s.entries k).length - ((apply b s.redis a).1.lists k).length)

-- When a job is leased, no other job which has been pushed in an earlier step is left in its list.
def InOrder (b : RedisBroker) (s : Line) (a : LineStep) : Prop :=
  ∀ j, (apply b s.redis a).2 = some j → ∀ k n, (j, n) ∈ taken b s a k →
    ∀ e ∈ (step b s a).entries k, e.1 ≠ j → n ≤ e.2

-- The job is pushed into a ready list as soon as it is enqueued.
def IsReady (job : Job) (now : Time) : Prop :=
  job.state = .queued ∧ ¬now < job.runAt

-- The list contains no job but `j`.
def OnlyHolds (r : Redis) (queueName : QueueName) (priority : Int) (j : JobID) : Prop :=
  ∀ i ∈ r.lists (.ready queueName priority), i = j

instance {r : Redis} {queueName : QueueName} {priority : Int} {j : JobID} :
    Decidable (OnlyHolds r queueName priority j) :=
  inferInstanceAs <| Decidable (∀ i ∈ r.lists (.ready queueName priority), i = j)

-- No job is pushed into a list which contains another one already.
def Spaced (s : Line) : LineStep → Prop
  | .enqueue job now       => IsReady job now → OnlyHolds s.redis job.queue job.priority job.id
  | .enqueueBatch jobs now => ∀ job ∈ jobs, IsReady job now → OnlyHolds s.redis job.queue job.priority job.id
  | .activateDue limit now => ∀ j ∈ (s.redis.zsets .delayed).rangeByScore (.ofInt now.unixMilli) limit,
    ∀ h ∈ s.redis.jobs j, OnlyHolds s.redis h.queue h.priority j
  | .dequeue ..            => True

variable {b : RedisBroker} {s : Line} {a : LineStep} {r r' : Redis} {k : ListKey} {j : JobID} {now : Time}
         {job : Job} {jobs : List Job} {ids : List JobID} {n : Nat} {entries : List (JobID × Nat)}

-- Jobs are pushed onto the list `k`, for each of which `p` holds.
def Pushes (p : JobID → ListKey → Prop) (r r' : Redis) : Prop :=
  ∀ k, ∃ pushed, r'.lists k = pushed ++ r.lists k ∧ ∀ i ∈ pushed, p i k

def Pops (r r' : Redis) : Prop :=
  ∀ k, ∃ popped, r.lists k = popped ++ r'.lists k

section

variable {p : JobID → ListKey → Prop}

theorem Pushes.of_lists (h : r'.lists = r.lists) : Pushes p r r' :=
  fun k => ⟨[], by simp [h], by simp⟩

theorem Pushes.trans {r₁ : Redis} (h : Pushes p r r₁) (h' : Pushes p r₁ r') : Pushes p r r' := by
  intro k
  have ⟨ids, hl, hp⟩ := h k
  have ⟨ids', hl', hp'⟩ := h' k
  refine ⟨ids' ++ ids, by rw [hl', hl, List.append_assoc], fun i hi => ?_⟩
  exact (List.mem_append.mp hi).elim (hp' i) (hp i)

theorem Pushes.of_lpush (h : p j k) : Pushes p r (r.lpush k j) := by
  intro l
  rw [Redis.lpush_lists]
  split
  case isTrue he => exact ⟨[j], by rw [he]; rfl, fun i hi => by rwa [he, List.mem_singleton.mp hi]⟩
  case isFalse   => exact ⟨[], rfl, by simp⟩

theorem enqueue_pushes (h : IsReady job now → p job.id (.ready job.queue job.priority)) :
    Pushes p r (RedisBroker.enqueue job now r) := by
  unfold RedisBroker.enqueue
  dsimp only
  split
  case isTrue    => exact .of_lists rfl
  case isFalse   =>
    split
    case isTrue    => exact .of_lists rfl
    case isFalse ht =>
      split
      case isTrue hs => exact .of_lpush (r := r.hset job.id fun _ => jobHash job) (h ⟨hs, by simp_all⟩)
      case isFalse   => exact .of_lists rfl

theorem enqueueBatch_pushes (h : ∀ job ∈ jobs, IsReady job now → p job.id (.ready job.queue job.priority)) :
    Pushes p r (RedisBroker.enqueueBatch jobs now r) := by
  unfold RedisBroker.enqueueBatch
  induction jobs generalizing r
  case nil              => exact .of_lists rfl
  case cons job jobs hi =>
    have ⟨hj, hjs⟩ := List.forall_mem_cons.mp h
    exact (enqueue_pushes hj).trans (hi hjs)

theorem activateAll_pushes {now : Int} (hn : ids.Nodup)
    (h : ∀ j ∈ ids, ∀ h ∈ r.jobs j, p j (.ready h.queue h.priority)) :
    Pushes p r (RedisBroker.activateAll now ids r).1 := by
  refine RedisBroker.activateAll_rule (P := Pushes p r) hn (fun r' j hj hu _ hr => hr.trans ?_) (.of_lists rfl)
  unfold RedisBroker.activate
  split
  case h_1      => exact .of_lists rfl
  case h_2 g hg =>
    have hp := h j hj g (hu.jobs ▸ hg)
    exact .of_lpush (r := (r'.zrem .delayed j).hset j (·.activate now)) hp

end

theorem dequeueLua_pops {workerID : WorkerID} {ttl now : Int} {keys : List ListKey} :
    Pops r (b.dequeueLua workerID ttl now keys r).1 := by
  have pop {r' : Redis} {k : ListKey} {j : JobID} {rest : List JobID} (h : Pops r r') (hl : r'.lists k = j :: rest) :
      Pops r (r'.lset k rest) := by
    intro l
    have ⟨popped, he⟩ := h l
    rw [Redis.lset_lists]
    split
    case isFalse   => exact ⟨popped, he⟩
    case isTrue hk => exact ⟨popped ++ [j], by rw [he, hk, hl, List.append_assoc]; rfl⟩
  apply RedisBroker.dequeueLua_rule (P := Pops r) (Q := fun r' _ => Pops r r')
  case drop  => exact fun r' k j rest hr _ hl _ => pop hr hl
  case lease => exact fun r' k j rest h hr _ hl _ _ => pop hr hl
  case none  => exact fun r' hr => hr
  case hr    => exact fun k => ⟨[], rfl⟩

-- Only entries of the same job have been pushed in different steps.
structure Inv (s : Line) : Prop where
  ids  : ∀ k, (s.entries k).map Prod.fst = s.redis.lists k
  old  : ∀ k, ∀ e ∈ s.entries k, e.2 < s.steps
  same : ∀ k, ∀ e ∈ s.entries k, ∀ e' ∈ s.entries k, e.2 ≠ e'.2 → e.1 = e'.1

theorem Inv.start : Inv start :=
  ⟨fun _ => rfl, by simp [Line.start], by simp [Line.start]⟩

theorem Inv.length (hi : Inv s) (k : ListKey) : (s.entries k).length = (s.redis.lists k).length := by
  rw [← hi.ids k, List.length_map]

theorem renumber_push (h : entries.length = ids.length) (pushed : List JobID) :
    renumber n entries (pushed ++ ids) = pushed.map (·, n) ++ entries := by
  simp [renumber, h]

theorem renumber_pop {popped : List JobID} (h : entries.length = (popped ++ ids).length) :
    renumber n entries ids = entries.drop popped.length := by
  simp [renumber, h]

-- Jobs are pushed only onto lists which contain no other job.
theorem Inv.push (hi : Inv s) (hp : Pushes (fun j k => ∀ i ∈ s.redis.lists k, i = j) s.redis (apply b s.redis a).1) :
    Inv (step b s a) := by
  have he (k : ListKey) : ∃ pushed, (apply b s.redis a).1.lists k = pushed ++ s.redis.lists k ∧
      (step b s a).entries k = pushed.map (·, s.steps) ++ s.entries k ∧
      ∀ j ∈ pushed, ∀ i ∈ s.redis.lists k, i = j := by
    have ⟨pushed, hl, hs⟩ := hp k
    refine ⟨pushed, hl, ?_, hs⟩
    simp only [step, hl]
    exact renumber_push (hi.length k) pushed
  constructor
  case ids  =>
    intro k
    have ⟨pushed, hl, he, _⟩ := he k
    have hm : (pushed.map (·, s.steps)).map Prod.fst = pushed := by simp [Function.comp_def]
    rw [he, List.map_append, hm, hi.ids k]
    exact hl.symm
  case old  =>
    intro k e hm
    have ⟨pushed, _, he, _⟩ := he k
    have hs : (step b s a).steps = s.steps + 1 := rfl
    rw [he, List.mem_append, List.mem_map] at hm
    rw [hs]
    cases hm
    case inl h =>
      obtain ⟨j, _, rfl⟩ := h
      exact Nat.lt_succ_self _
    case inr h => exact Nat.lt_succ_of_lt (hi.old k e h)
  case same =>
    intro k e hm e' hm' hn
    have ⟨pushed, _, he, hs⟩ := he k
    have old {e : JobID × Nat} (h : e ∈ s.entries k) : e.1 ∈ s.redis.lists k :=
      hi.ids k ▸ List.mem_map_of_mem h
    rw [he, List.mem_append, List.mem_map] at hm hm'
    cases hm <;> cases hm'
    case inl.inl h h' =>
      obtain ⟨_, _, rfl⟩ := h
      obtain ⟨_, _, rfl⟩ := h'
      exact absurd rfl hn
    case inl.inr h h' =>
      obtain ⟨j, hj, rfl⟩ := h
      exact (hs j hj e'.1 (old h')).symm
    case inr.inl h h' =>
      obtain ⟨j, hj, rfl⟩ := h'
      exact hs j hj e.1 (old h)
    case inr.inr h h' => exact hi.same k e h e' h' hn

theorem Inv.pop (hi : Inv s) (hp : Pops s.redis (apply b s.redis a).1) : Inv (step b s a) := by
  have he (k : ListKey) : ∃ popped, s.redis.lists k = popped ++ (apply b s.redis a).1.lists k ∧
      (step b s a).entries k = (s.entries k).drop popped.length := by
    have ⟨popped, hl⟩ := hp k
    exact ⟨popped, hl, renumber_pop (by rw [hi.length k, hl])⟩
  have sub {k : ListKey} {e : JobID × Nat} (hm : e ∈ (step b s a).entries k) : e ∈ s.entries k := by
    have ⟨popped, _, he⟩ := he k
    exact List.mem_of_mem_drop (he ▸ hm)
  constructor
  case ids  =>
    intro k
    have ⟨popped, hl, he⟩ := he k
    rw [he, List.map_drop, hi.ids k, hl, List.drop_left]
    rfl
  case old  => exact fun k e hm => Nat.lt_succ_of_lt (hi.old k e (sub hm))
  case same => exact fun k e hm e' hm' => hi.same k e (sub hm) e' (sub hm')

theorem Inv.step (hi : Inv s) (hs : Spaced s a) : Inv (step b s a) := by
  cases a
  case enqueue      => exact hi.push (enqueue_pushes hs)
  case enqueueBatch => exact hi.push (enqueueBatch_pushes hs)
  case activateDue  => exact hi.push (activateAll_pushes SortedSet.rangeByScore_nodup hs)
  case dequeue      => exact hi.pop dequeueLua_pops

-- What a step takes out of a list and what it leaves there has been in the list before.
theorem Inv.inOrder (hi : Inv s) : InOrder b s a := by
  intro j hj k n hm e he hne
  cases a
  case enqueue      => cases hj
  case enqueueBatch => cases hj
  case activateDue  => cases hj
  case dequeue workerID queues leaseTTL now =>
    have hp : Pops s.redis (apply b s.redis (.dequeue workerID queues leaseTTL now)).1 := dequeueLua_pops
    have ⟨popped, hl⟩ := hp k
    have hd : (Line.step b s (.dequeue workerID queues leaseTTL now)).entries k = (s.entries k).drop popped.length :=
      renumber_pop (by rw [hi.length k, hl])
    have he : e ∈ s.entries k := List.mem_of_mem_drop (hd ▸ he)
    have hm : (j, n) ∈ s.entries k := List.mem_of_mem_take hm
    by_contra hn
    exact hne (hi.same k e he (j, n) hm (by dsimp only; omega))

-- Ready lists are stacks. They are left in the order in which they are entered if no job enters one
-- that holds another job.
theorem inOrder_of_spaced {as : List LineStep} (hg : Run.Guarded (step b) Spaced start as) :
    Run.Guarded (step b) (InOrder b) start as := by
  have keep (s : Line) (a : LineStep) (hi : Inv s) (hs : Spaced s a) : Inv (step b s a) := hi.step hs
  exact (hg.strengthen keep .start).mono fun _ _ h => h.left.inOrder

-- Examples of steps.
def put (j : JobID) : LineStep :=
  .enqueue (buildJob (.ofUnixMilli 1700000000000) (.plain "email.send") j) (.ofUnixMilli 1700000000000)

def take : LineStep :=
  .dequeue "worker-1" ["default"] (30 * Duration.second) (.ofUnixMilli 1700000000000)

theorem inOrder_of_spaced_sample :
    Run.Guarded (step .sample) (InOrder .sample) start [put "job-1", take, put "job-2", take] :=
  inOrder_of_spaced ⟨fun _ => by decide, trivial, fun _ => by decide, trivial, trivial⟩

-- The job which has been enqueued first is left behind by the one which has been enqueued after it.
theorem not_inOrder_of_pushes : ¬Run.Guarded (step .sample) (InOrder .sample) start [put "job-1", put "job-2", take] := by
  intro h
  have ht : (apply .sample (Run.last (step .sample) start [put "job-1", put "job-2"]).redis take).2 = some "job-2" := by
    decide
  have ho := h.right.right.left "job-2" ht (.ready "default" 5) 1 (by decide) ("job-1", 0) (by decide) (by decide)
  exact absurd ho (by decide)

end Line
end JobPlatform
