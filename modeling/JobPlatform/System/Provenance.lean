import JobPlatform.System.Precedence
import JobPlatform.Worker.Provenance

namespace JobPlatform

namespace JobHash

-- A hash that has been begun by a retry or a cancellation says nothing about what is to be done.
theorem mandate_lasting : Lasting mandate := by
  constructor <;> intros <;> rfl

end JobHash

namespace Mandate

variable {m m' : Mandate} {job : Job} {ops : Operations} {j : JobID}

-- No handler is registered for it.
def Blank (m : Mandate) : Prop :=
  m.task.type = ""

theorem Blank.assign (h : m.Blank) : (m.assign job).Blank :=
  h

-- What a replay has changed is assigned anew.
theorem assign_of_derives (h : ops.Derives j m m') : m'.assign job = m.assign job := by
  obtain rfl | ⟨req, _, _, rfl⟩ := h
  · rfl
  · rfl

end Mandate

-- The number of attempts is always written when a hash says what is to be done.
theorem Operations.Derives.maxAttempts {ops : Operations} {j : JobID} {m m' : Mandate} (h : ops.Derives j m m') :
    m'.maxAttempts = m.maxAttempts := by
  obtain rfl | ⟨req, _, _, rfl⟩ := h
  · rfl
  · rfl

namespace Postgres

variable {p p' : Postgres} {c : RepoCall} {j : JobID} {job : Job} {m : Mandate}

-- What has been asked for is never changed.
theorem exec_mandates (h : p.mandates j = some m) : (p.exec c).1.mandates j = some m := by
  have hr := @exec_records p c
  cases hc : creates c
  case none     =>
    rw [hc] at hr
    exact (congrFun hr j).trans h
  case some job =>
    rw [hc] at hr
    obtain he | ⟨hn, he⟩ := hr
    · exact (congrFun he j).trans h
    · have hj : j ≠ job.id := fun hj => by simp [← hj, h] at hn
      rw [he, Function.update_of_ne hj, h]

theorem Relational.mandate (hp : p.Relational) (h : p.jobs j = some job) : p.mandates job.id = some job.mandate := by
  rw [hp.keyed j job h]
  exact mandates_eq_some.mpr ⟨job, h, rfl⟩

theorem Inserted.mandate {dependencies : List JobID} (h : Inserted job dependencies p p') :
    p'.mandates job.id = some job.mandate :=
  mandates_eq_some.mpr ⟨newRow job, by simp [h.jobs], rfl⟩

-- What is told about rows is true.
theorem told_mandates {a : c.Resp} (hp : p.Relational) (h : (p.exec c).2 = .ok a) :
    ∀ job ∈ Provenance.told (.repo c) (.ok a), (p.exec c).1.mandates job.id = some job.mandate := by
  cases c
  case createJobBundle job dependencies =>
    intro job' hj
    obtain rfl := List.mem_singleton.mp hj
    exact (createJobBundle_inserted h).mandate
  case createJobWithIdempotency job dependencies dedupeWindow =>
    intro job' hj
    by_cases hd : a.duplicateSuppressed
    case pos => simp [Provenance.told, hd] at hj
    case neg =>
      obtain ⟨ha, hi⟩ := createJobWithIdempotency_inserted h (by simpa using hd)
      have hj : job' = a.job := by simpa [Provenance.told, hd] using hj
      rw [hj, ha]
      exact hi.mandate
  case getJob j =>
    intro job' hj
    obtain rfl := List.mem_singleton.mp hj
    have h : p.getJob j = .ok job' := h
    unfold getJob at h
    split at h
    case h_1 hr => cases h; exact hp.mandate hr
    case h_2    => cases h
  case listDependentJobs j =>
    intro job' hj
    cases h
    obtain ⟨e, _, _, he⟩ := mem_listDependentJobs.mp hj
    exact hp.mandate he
  all_goals exact fun _ hj => absurd hj List.not_mem_nil

end Postgres

-- Each row is one that has been asked for, and what is done for a job is what its row says or a replay has made of it.
structure Rooted (ops : Operations) (w : World) : Prop where
  relational : w.postgres.Relational
  rows       : ∀ j m, w.postgres.mandates j = some m → ops.Submits j m
  hashes     : ∀ j m', w.redis.fields JobHash.mandate j = some m' →
    m'.Blank ∨ ∃ m, w.postgres.mandates j = some m ∧ ops.Derives j m m'

-- What a process has been told is still true.
def World.Knows (w : World) (q : Sources) : Prop :=
  ∀ x ∈ q, w.postgres.mandates x.1 = some x.2

namespace Rooted

variable {ops : Operations} {w w' : World} {q : Sources} {c : Call} {faults : Nat → Fault} {j : JobID} {m : Mandate}

theorem dequeue_mandates {b : RedisBroker} {r : Redis} {workerID : WorkerID} {ttl now : Int} {keys : List ListKey} :
    (b.dequeueLua workerID ttl now keys r).1.fields JobHash.mandate = r.fields JobHash.mandate := by
  have h := @RedisBroker.dequeueLua_fields _ JobHash.mandate b workerID ttl now keys r id fun _ _ _ _ _ => rfl
  revert h
  generalize b.dequeueLua workerID ttl now keys r = x
  obtain ⟨r', _ | ⟨i, t⟩⟩ := x
  case none => exact id
  case some =>
    rintro ⟨x, hi, hr⟩
    exact hr.trans (Function.update_eq_self_iff.mpr hi.symm)

theorem repo {c : RepoCall} (h : Rooted ops w) (hc : (Provenance ops).Allows q (.repo c)) :
    Rooted ops (w.exec (.repo c)).1 where
  relational   := Postgres.exec_relational h.relational
  hashes j m' hm' := (h.hashes j m' hm').imp_right fun ⟨m, hm, hd⟩ => ⟨m, Postgres.exec_mandates hm, hd⟩
  rows         := by
    have hr := @Postgres.exec_records w.postgres c
    cases hx : Postgres.creates c
    case none     =>
      rw [hx] at hr
      exact fun j m hm => h.rows j m ((congrFun hr j).symm.trans hm)
    case some job =>
      rw [hx] at hr
      intro j m hm
      have hm : (w.postgres.exec c).1.mandates j = some m := hm
      obtain he | ⟨_, he⟩ := hr
      · exact h.rows j m ((congrFun he j).symm.trans hm)
      · rw [he, Function.update_apply] at hm
        split at hm
        case isTrue hj => cases hm; exact hj ▸ hc job hx
        case isFalse   => exact h.rows j m hm

theorem broker {c : BrokerCall} (h : Rooted ops w) (hq : w.Knows q) (hc : (Provenance ops).Allows q (.broker c)) :
    Rooted ops (w.exec (.broker c)).1 := by
  refine ⟨h.relational, h.rows, ?_⟩
  -- One of the hashes says something else.
  have assign {r : Redis} {i : JobID} {m' : Mandate}
      (hr : r.fields JobHash.mandate = Function.update (w.redis.fields JobHash.mandate) i (some m'))
      (hm : m'.Blank ∨ ∃ m, w.postgres.mandates i = some m ∧ ops.Derives i m m') (j : JobID) (x : Mandate)
      (hx : r.fields JobHash.mandate j = some x) :
      x.Blank ∨ ∃ m, w.postgres.mandates j = some m ∧ ops.Derives j m x := by
    rw [hr, Function.update_apply] at hx
    split at hx
    case isTrue hj => cases hx; exact hj ▸ hm
    case isFalse   => exact h.hashes j x hx
  have hash (i : JobID) : ((w.redis.jobs i).getD .empty).mandate.Blank ∨
      ∃ m, w.postgres.mandates i = some m ∧ ops.Derives i m ((w.redis.jobs i).getD .empty).mandate := by
    cases hi : w.redis.jobs i
    case none   => exact .inl rfl
    case some x => exact h.hashes i _ (Redis.fields_eq_some.mpr ⟨x, hi, rfl⟩)
  have lasting (hl : RedisBroker.Lasts c) (j : JobID) (x : Mandate)
      (hx : (w.broker.exec w.redis c).1.fields JobHash.mandate j = some x) :
      x.Blank ∨ ∃ m, w.postgres.mandates j = some m ∧ ops.Derives j m x :=
    h.hashes j x ((congrFun (RedisBroker.exec_fields JobHash.mandate_lasting hl) j).symm.trans hx)
  cases c
  case enqueue job now          =>
    exact assign RedisBroker.enqueue_fields (.inr ⟨job.mandate, hq _ hc, .inl rfl⟩)
  case retry job now            =>
    obtain ⟨m, hm, hd⟩ := hc
    refine assign (RedisBroker.retry_fields JobHash.mandate_lasting) ((hash job.id).imp Mandate.Blank.assign ?_)
    rintro ⟨m', hm', hd'⟩
    cases hm'.symm.trans (hq _ hm)
    refine ⟨m, hm', ?_⟩
    have ha : (((w.redis.jobs job.id).getD .empty).retry job now.unixMilli).mandate =
        ((w.redis.jobs job.id).getD .empty).mandate.assign job := rfl
    rw [ha, Mandate.assign_of_derives hd']
    exact hd
  case cancelLoaded i job now   =>
    exact assign (RedisBroker.cancelLoaded_fields JobHash.mandate_lasting) (hash i)
  case dequeue workerID queues leaseTTL now =>
    exact fun j x hx => h.hashes j x ((congrFun dequeue_mandates j).symm.trans hx)
  all_goals exact lasting trivial

theorem exec (h : Rooted ops w) (hq : w.Knows q) (hc : (Provenance ops).Allows q c) :
    Rooted ops (w.tryExec faults c).1 := by
  obtain he | he := World.tryExec_cases faults w c
  case inl => exact he ▸ ⟨h.relational, h.rows, h.hashes⟩
  case inr =>
    rw [he]
    cases c
    case broker => exact h.broker hq hc
    case repo   => exact h.repo hc
    all_goals exact ⟨h.relational, h.rows, h.hashes⟩

end Rooted

theorem World.tryExec_mandates {w : World} {c : Call} {faults : Nat → Fault} {j : JobID} {m : Mandate}
    (h : w.postgres.mandates j = some m) : (w.tryExec faults c).1.postgres.mandates j = some m := by
  obtain he | he := World.tryExec_cases faults w c
  case inl => exact he ▸ h
  case inr =>
    rw [he]
    cases c
    case repo => exact Postgres.exec_mandates h
    all_goals exact h

namespace World.Knows

variable {w : World} {q : Sources} {c : Call} {faults : Nat → Fault}

theorem extend (h : w.Knows q) : (w.tryExec faults c).1.Knows q :=
  fun x hx => tryExec_mandates (h x hx)

theorem next (ops : Operations) (h : w.Knows q) (hp : w.postgres.Relational) :
    (w.tryExec faults c).1.Knows ((Provenance ops).next q c (w.tryExec faults c).2) := by
  rintro x (hx | ⟨job, hj, rfl⟩)
  case inl => exact h.extend x hx
  case inr =>
    cases c
    case repo c =>
      cases hr : (w.tryExec faults (.repo c)).2
      case error e =>
        rw [hr, Provenance.told_error] at hj
        exact absurd hj List.not_mem_nil
      case ok a    =>
        rw [hr] at hj
        obtain ⟨hw, ha⟩ := World.tryExec_repo hr
        rw [hw]
        exact Postgres.told_mandates hp ha job hj
    all_goals exact absurd hj List.not_mem_nil

end World.Knows

-- The processes of the platform, with what they have been told.
abbrev Tracers (ops : Operations) :=
  Pool (Provenance ops) (Except Error Unit) World

namespace Tracers

variable (ops : Operations)

abbrev Label :=
  Pool.Label (Provenance ops) (Except Error Unit)

def semantics (faults : Nat → Fault) : Pool.Semantics (Provenance ops) (Except Error Unit) World where
  exec  := World.tryExec faults
  forks := (platform (Provenance ops) fun _ _ => ∅).forks

def start (w : World) : Tracers ops where
  world := { w with redis := .empty, postgres := .empty }
  procs := []

-- The procedures are started at any time, and take turns in any order.
def Launched : Label ops → Prop
  | .spawn p => p.state = ∅ ∧ ∃ op, ops op ∧ p.prog = op.program
  | .run _   => True

structure Sound (s : Tracers ops) : Prop where
  follows : ∀ p ∈ s.procs, p.prog.Follows (Provenance ops) (fun _ _ => True) p.state
  knows   : ∀ p ∈ s.procs, s.world.Knows p.state
  rooted  : Rooted ops s.world

variable {ops} {faults : Nat → Fault} {s : Tracers ops} {w : World} {i : Nat} {l : Label ops} {c : Call}
         {p : Proc (Provenance ops) (Except Error Unit)}

theorem forks_follow (c : Call) : ∀ p ∈ (semantics ops faults).forks c,
    p.state = ∅ ∧ p.prog.Follows (Provenance ops) (fun _ _ => True) p.state := by
  cases c
  case heartbeats =>
    intro p hp
    rw [List.mem_singleton.mp hp]
    refine ⟨rfl, .bind ?_⟩
    exact (Runtime.follows_of_works Provenance.works Runtime.heartbeatLoop_works).mono fun _ _ _ => trivial
  all_goals exact fun p hp => absurd hp List.not_mem_nil

namespace Sound

theorem start : Sound ops (start ops w) where
  follows := List.forall_mem_nil _
  knows   := List.forall_mem_nil _
  rooted  := {
    relational := ⟨fun _ _ h => (nomatch h), fun _ h => (nomatch h)⟩
    rows       := fun _ _ h => (nomatch h)
    hashes     := fun _ _ h => (nomatch h)
  }

theorem spawn (h : Sound ops s) (hl : Launched ops (.spawn p)) : Sound ops { s with procs := s.procs ++ [p] } where
  rooted  := h.rooted
  follows := by
    obtain ⟨hq, op, ho, hp⟩ := hl
    have hf : p.prog.Follows (Provenance ops) (fun _ _ => True) p.state := by
      rw [hp, hq]
      exact op.traced ho
    simpa [or_imp, forall_and] using ⟨h.follows, hf⟩
  knows   := by
    have hk : s.world.Knows p.state := by
      rw [hl.left]
      exact fun _ hx => absurd hx (Set.notMem_empty _)
    simpa [or_imp, forall_and] using ⟨h.knows, hk⟩

theorem run (h : Sound ops s) : Sound ops (Pool.step (semantics ops faults) s (.run i)) := by
  refine Pool.step_run_rule _ h fun c k q hi => ?_
  have hm := List.mem_of_getElem? hi
  obtain ⟨hc, hn⟩ := h.follows _ hm
  have hq := h.knows _ hm
  refine ⟨fun r hr => ?_, fun r hr => ?_, h.rooted.exec hq hc⟩
  · obtain hr | hr := List.mem_append.mp hr
    · obtain hr | rfl := List.mem_or_eq_of_mem_set hr
      · exact h.follows r hr
      · exact hn _ ⟨faults, s.world, h.rooted.relational, rfl⟩
    · exact (forks_follow c r hr).right
  · obtain hr | hr := List.mem_append.mp hr
    · obtain hr | rfl := List.mem_or_eq_of_mem_set hr
      · exact (h.knows r hr).extend
      · exact hq.next ops h.rooted.relational
    · rw [(forks_follow c r hr).left]
      exact fun _ hx => absurd hx (Set.notMem_empty _)

theorem step (h : Sound ops s) (hl : Launched ops l) : Sound ops (Pool.step (semantics ops faults) s l) := by
  cases l
  case run   => exact h.run
  case spawn => exact h.spawn hl

end Sound

namespace Sample

def submit : Operation :=
  .enqueueJob .sample (JobRequest.plain "email.send") "job-1"

def replay : Operation :=
  .replayDeadLetters {
    jobIDs   := ["job-1"]
    queue    := ""
    payload  := "[]"
    jobType  := ""
    priority := some 9
  }

def operations : Operations :=
  fun op => op = submit ∨ op = replay

def launch (op : Operation) : Label operations :=
  .spawn ⟨op.program, ∅⟩

def turns (count i : Nat) : List (Label operations) :=
  (List.replicate count i).map .run

-- The job is replayed with another payload and a higher priority.
def replayed : List (Label operations) :=
  launch submit :: turns 4 0 ++ launch replay :: turns 5 1

theorem launched_turns {count i : Nat} : ∀ l ∈ turns count i, Launched operations l := by
  intro l hl
  obtain ⟨_, _, rfl⟩ := List.mem_map.mp hl
  trivial

def world : World :=
  (Run.last (Pool.step (semantics operations fun _ => .none)) (start operations .sample) replayed).world

end Sample

example : (Sample.world.redis.jobs "job-1").map (·.payload) = some "[]" := by
  decide +kernel

end Tracers
end JobPlatform
