import JobPlatform.Library.Apart
import JobPlatform.Queue.Fields
import JobPlatform.Service.Validation
import JobPlatform.Store.Attempts
import JobPlatform.System.Platform
import JobPlatform.Worker.Attempts

namespace JobPlatform

-- A hash names its job, and counts how often it has been leased.
def JobHash.counter (h : JobHash) : JobID × Int :=
  (h.id, h.attempts)

theorem JobHash.counter_lasting : JobHash.Lasting JobHash.counter := by
  constructor <;> intros <;> rfl

def World.counters (w : World) : JobID → Option (JobID × Int) :=
  w.redis.fields JobHash.counter

namespace Recording

variable {m : Manager} {req : JobRequest} {jobID : JobID} {now : Time} {s : Scheduler}

theorem enqueueJob (h : jobID ≠ "") : (m.enqueueJob req jobID).Only Steady := by
  unfold Manager.enqueueJob
  split
  case h_1 => trivial
  case h_2 =>
    refine ⟨trivial, fun now => ?_⟩
    refine Prog.Only.bind (p := m.createJob req (buildJob now req jobID)) ?_ fun res => ?_
    case refine_1 =>
      unfold Manager.createJob
      dsimp only
      split
      case isTrue  => exact ⟨h, fun _ => trivial⟩
      case isFalse =>
        refine ⟨h, fun res => ?_⟩
        cases res
        case error => trivial
        case ok    => trivial
    case refine_2 =>
      cases res
      case error     => trivial
      case ok result =>
        dsimp only
        split
        case isTrue  => trivial
        case isFalse =>
          refine ⟨trivial, fun _ => ⟨trivial, fun res => ?_⟩⟩
          cases res
          case error => trivial
          case ok    => trivial

theorem activateDue : s.activateDue.Only Steady := by
  have hm (jobIDs : List JobID) : (Scheduler.markActivated jobIDs).Only Steady := by
    induction jobIDs
    case nil       => trivial
    case cons _ hi =>
      refine ⟨trivial, fun res => ?_⟩
      cases res
      case error => exact hi
      case ok    => exact ⟨trivial, fun _ => hi⟩
  refine ⟨trivial, fun _ => ⟨trivial, fun res => ?_⟩⟩
  cases res
  case error     => trivial
  case ok jobIDs => exact (hm jobIDs).bind fun _ => trivial

theorem markRetried {job : Job} {retryAt : Option Time} : (Scheduler.markRetried job retryAt).Only Steady := by
  have hv (value : Option Time) : (Scheduler.valueOrNow value).Only Steady := by
    cases value
    case none   => exact ⟨trivial, fun _ => trivial⟩
    case some _ => trivial
  have hr : (Prog.bind (fun started => Prog.call Call.now fun finished =>
      Prog.call (Call.repo (.upsertJobAttempt <| Scheduler.expiredAttempt job started finished)) fun _ =>
        .ret (if retryAt.isSome then .ok () else .error .nilDereference : Except Error Unit))
      (Scheduler.valueOrNow job.startedAt)).Only Steady :=
    (hv _).bind fun _ => ⟨trivial, fun _ => ⟨rfl, fun _ => trivial⟩⟩
  cases retryAt
  case none   => exact hr
  case some _ => exact ⟨trivial, fun _ => hr⟩

theorem recoverExpired : s.recoverExpired.Only Steady := by
  have hm (items : List RecoveredLease) : (Scheduler.markRecovered items).Only Steady := by
    induction items
    case nil             => trivial
    case cons item _ hi =>
      refine ⟨trivial, fun res => ?_⟩
      cases res
      case error  => exact hi
      case ok job =>
        dsimp only
        split
        case h_1 =>
          refine Prog.Only.bind (p := Scheduler.markRetried job item.retryAt) markRetried fun res => ?_
          cases res
          case error => trivial
          case ok    => exact hi
        case h_2 =>
          refine Prog.Only.bind (p := Scheduler.markFailed job) ?_ fun _ => hi
          exact ⟨trivial, fun _ => ⟨trivial, fun _ => ⟨trivial, fun _ => updateIdempotencyOutcome⟩⟩⟩
        case h_3 => exact ⟨trivial, fun _ => ⟨trivial, fun _ => hi⟩⟩
        case h_4 => exact hi
  refine ⟨trivial, fun _ => ⟨trivial, fun res => ?_⟩⟩
  cases res
  case error    => trivial
  case ok items => exact hm items

theorem retryJob : (Manager.retryJob jobID).Only Steady := by
  refine ⟨trivial, fun res => ?_⟩
  cases res
  case error  => trivial
  case ok job =>
    refine ⟨trivial, fun _ => ⟨trivial, fun res => ?_⟩⟩
    cases res
    case error => trivial
    case ok    =>
      refine ⟨trivial, fun res => ?_⟩
      cases res
      case error => trivial
      case ok    => exact ⟨trivial, fun _ => trivial⟩

theorem replayDeadLetters {req : DeadLetterReplayRequest} : (Manager.replayDeadLetters req).Only Steady := by
  have hr (now : Time) (jobIDs : List JobID) (replayed : List Job) :
      (Manager.replayAll req now jobIDs replayed).Only Steady := by
    induction jobIDs generalizing replayed
    case nil       => trivial
    case cons _ hi =>
      refine ⟨trivial, fun res => ?_⟩
      cases res
      case error  => trivial
      case ok job =>
        refine ⟨trivial, fun res => ?_⟩
        cases res
        case error => trivial
        case ok    =>
          refine ⟨trivial, fun res => ?_⟩
          cases res
          case error => trivial
          case ok    =>
            refine ⟨trivial, fun res => ?_⟩
            cases res
            case error => trivial
            case ok    => exact hi _
  exact ⟨trivial, fun _ => hr ..⟩

theorem cancelJob : (Manager.cancelJob jobID).Only Steady := by
  refine ⟨trivial, fun res => ?_⟩
  cases res
  case error  => trivial
  case ok job =>
    refine ⟨trivial, fun res => ?_⟩
    cases res
    case error  => trivial
    case ok job =>
      refine ⟨trivial, fun _ => ⟨trivial, fun res => ?_⟩⟩
      cases res
      case error => trivial
      case ok    =>
        refine ⟨trivial, fun _ => ⟨trivial, fun res => ?_⟩⟩
        cases res
        case error => trivial
        case ok    => trivial

end Recording

-- The identifier that is drawn for a new job is not empty.
def Operation.Named : Operation → Prop
  | enqueueJob _ _ jobID => jobID ≠ ""
  | _                    => True

theorem Operation.follows {op : Operation} (h : op.Named) :
    op.program.Follows Recording (fun _ _ => True) .idle := by
  have hs {α : Type} {p : Program α} {f : α → Except Error Unit} (hp : p.Only Recording.Steady) :
      (p.bind fun a => .ret (f a)).Follows Recording (fun _ _ => True) .idle :=
    Recording.steady (hp.bind fun _ => trivial) (by simp)
  cases op
  case enqueueJob        => exact hs (Recording.enqueueJob h)
  case work              => exact .bind <| Recording.work.mono fun _ _ _ => trivial
  case activateDue       => exact Recording.steady Recording.activateDue (by simp)
  case recoverExpired    => exact Recording.steady Recording.recoverExpired (by simp)
  case retryJob          => exact hs Recording.retryJob
  case replayDeadLetters => exact hs Recording.replayDeadLetters
  case cancelJob         => exact hs Recording.cancelJob

namespace Recording.State

variable {counters counters' : JobID → Option (JobID × Int)} {q q' : State} {jobID : JobID} {number : Int}

-- The number of an attempt has been counted. Hashes without a name do not count.
def Counted (counters : JobID → Option (JobID × Int)) : State → Prop
  | attempt jobID number => jobID ≠ "" → ∃ x ∈ counters jobID, number ≤ x.2
  | _                    => True

-- The next attempt of a job has a number of its own.
def Later (counters : JobID → Option (JobID × Int)) (jobID : JobID) (number : Int) : Prop :=
  jobID ≠ "" → ∃ x ∈ counters jobID, number < x.2

-- No two processes work on the same attempt, or will do so when the leased job is loaded.
def Disjoint (counters : JobID → Option (JobID × Int)) : State → State → Prop
  | leased jobID,         leased jobID'          => jobID = jobID' → jobID = ""
  | leased jobID,         attempt jobID' number  => jobID = jobID' → Later counters jobID' number
  | attempt jobID number, leased jobID'          => jobID = jobID' → Later counters jobID number
  | attempt jobID number, attempt jobID' number' => jobID = jobID' → number = number' → jobID = ""
  | _,                    _                      => True

-- The counters may change as far as the state allows it.
def Permits (counters counters' : JobID → Option (JobID × Int)) : State → Prop
  | idle                 => True
  | leased jobID         => jobID ≠ "" → ∀ x ∈ counters jobID, ∃ x' ∈ counters' jobID, x.2 ≤ x'.2
  | attempt jobID number => jobID ≠ "" → ∀ x ∈ counters jobID, number ≤ x.2 → ∃ x' ∈ counters' jobID, number ≤ x'.2

theorem Disjoint.symm (h : Disjoint counters q q') : Disjoint counters q' q := by
  cases q <;> cases q'
  case leased.leased   => exact fun he => he ▸ h he.symm
  case leased.attempt  => exact fun he => h he.symm
  case attempt.leased  => exact fun he => h he.symm
  case attempt.attempt => exact fun he hn => he ▸ h he.symm hn.symm
  all_goals trivial

theorem Permits.counted (hp : Permits counters counters' q) (h : Counted counters q) : Counted counters' q := by
  cases q
  case attempt jobID number =>
    intro hj
    have ⟨x, hx, hn⟩ := h hj
    exact hp hj x hx hn
  all_goals trivial

theorem Permits.later (hp : Permits counters counters' (leased jobID)) (h : Later counters jobID number) :
    Later counters' jobID number := by
  intro hj
  have ⟨x, hx, hn⟩   := h hj
  have ⟨x', hx', hl⟩ := hp hj x hx
  exact ⟨x', hx', hn.trans_le hl⟩

theorem Permits.disjoint (hp : Permits counters counters' q) (hp' : Permits counters counters' q')
    (h : Disjoint counters q q') : Disjoint counters' q q' := by
  cases q <;> cases q'
  case leased.leased   => exact h
  case attempt.attempt => exact h
  case leased.attempt  => exact fun he => he ▸ hp.later (he ▸ h he)
  case attempt.leased  => exact fun he => he ▸ hp'.later (he ▸ h he)
  all_goals trivial

theorem Permits.refl : Permits counters counters q := by
  cases q
  case idle    => trivial
  case leased  => exact fun _ x hx => ⟨x, hx, le_rfl⟩
  case attempt => exact fun _ x hx hn => ⟨x, hx, hn⟩

-- Nothing is wrong with counters that grow.
theorem Permits.of_le (h : ∀ jobID, ∀ x ∈ counters jobID, ∃ x' ∈ counters' jobID, x.2 ≤ x'.2) :
    Permits counters counters' q := by
  cases q
  case idle    => trivial
  case leased  => exact fun _ => h _
  case attempt =>
    intro _ x hx hn
    have ⟨x', hx', hl⟩ := h _ x hx
    exact ⟨x', hx', hn.trans hl⟩

end Recording.State

-- The processes that share the broker and the repository.
abbrev Recorders :=
  Pool Recording (Except Error Unit) World

namespace Recorders

open Recording (State)

abbrev Label :=
  Pool.Label Recording (Except Error Unit)

def semantics (faults : Nat → Fault) : Pool.Semantics Recording (Except Error Unit) World where
  exec  := World.tryExec faults
  forks := (platform Recording fun _ _ => .idle).forks

def start (w : World) : Recorders where
  world := { w with redis := .empty, postgres := .empty }
  procs := []

-- Procedures are started at any time, and take turns in any order.
def Launched : Label → Prop
  | .spawn p => p.state = .idle ∧ ∃ op : Operation, op.Named ∧ p.prog = op.program
  | .run _   => True

-- No attempt of the job has a number above the given one, nor will there be one when the job is loaded.
def Unstarted (s : Recorders) (jobID : JobID) (attempts : Int) : Prop :=
  ∀ p ∈ s.procs, match p.state with
    | .idle                  => True
    | .leased jobID'         => jobID' = jobID → ∀ h ∈ s.world.redis.jobs jobID, h.attempts ≤ attempts
    | .attempt jobID' number => jobID' = jobID → number ≤ attempts

-- The counter of a job is not set back below its attempts, and a job is not leased for a second time
-- before it is loaded by the process that has leased it before.
def Spares (faults : Nat → Fault) (s : Recorders) : Call → Prop
  | .broker (.enqueue job _) => faults s.world.calls ≠ .refused → s.Unstarted job.id job.attempts
  | .broker (.retry job _)   => faults s.world.calls ≠ .refused → s.Unstarted job.id job.attempts
  | .broker (.dequeue workerID queues leaseTTL now) =>
    ∀ x, (s.world.tryExec faults (.broker (.dequeue workerID queues leaseTTL now))).2 = .ok (some x) →
      ∀ p ∈ s.procs, p.state ≠ .leased x.1
  | _ => True

def Allowed (faults : Nat → Fault) (s : Recorders) : Label → Prop
  | .spawn p => Launched (.spawn p)
  | .run i   => ∀ p ∈ s.procs[i]?, match p.prog with
    | .call c _ => s.Spares faults c
    | .ret _    => True

instance Unstarted.decidable {s : Recorders} {jobID : JobID} {attempts : Int} :
    Decidable (s.Unstarted jobID attempts) :=
  have (p : Proc Recording (Except Error Unit)) : Decidable (match p.state with
      | .idle                  => True
      | .leased jobID'         => jobID' = jobID → ∀ h ∈ s.world.redis.jobs jobID, h.attempts ≤ attempts
      | .attempt jobID' number => jobID' = jobID → number ≤ attempts) :=
    match p.state with
    | .idle       => .isTrue trivial
    | .leased ..  => inferInstanceAs (Decidable (_ → _))
    | .attempt .. => inferInstanceAs (Decidable (_ → _))
  inferInstanceAs (Decidable (∀ p ∈ s.procs, _))

instance Spares.decidable {faults : Nat → Fault} {s : Recorders} : (c : Call) → Decidable (s.Spares faults c)
  | .broker (.enqueue ..)          => inferInstanceAs (Decidable (_ → _))
  | .broker (.retry ..)            => inferInstanceAs (Decidable (_ → _))
  | .broker (.loadJob ..)          => .isTrue trivial
  | .broker (.heartbeat ..)        => .isTrue trivial
  | .broker (.complete ..)         => .isTrue trivial
  | .broker (.fail ..)             => .isTrue trivial
  | .broker (.requeueThrottled ..) => .isTrue trivial
  | .broker (.activateDue ..)      => .isTrue trivial
  | .broker (.recoverExpired ..)   => .isTrue trivial
  | .broker (.cancelLoaded ..)     => .isTrue trivial
  | .now                           => .isTrue trivial
  | .heartbeats ..                 => .isTrue trivial
  | .repo _                        => .isTrue trivial
  | .limiter _                     => .isTrue trivial
  | .broker (.dequeue workerID queues leaseTTL now) =>
    match h : (s.world.tryExec faults (.broker (.dequeue workerID queues leaseTTL now))).2 with
    | .ok (some x) => decidable_of_iff (∀ p ∈ s.procs, p.state ≠ .leased x.1)
      ⟨fun hp _ hx => by cases h.symm.trans hx; exact hp, fun hp => hp x h⟩
    | .ok none     => .isTrue fun _ hx => nomatch h.symm.trans hx
    | .error _     => .isTrue fun _ hx => nomatch h.symm.trans hx

instance Allowed.decidable {faults : Nat → Fault} {s : Recorders} {i : Nat} : Decidable (s.Allowed faults (.run i)) :=
  match hi : s.procs[i]? with
  | none                 => .isTrue fun _ hp => nomatch hi.symm.trans hp
  | some ⟨.ret _, _⟩    => .isTrue fun _ hp => by cases hi.symm.trans hp; trivial
  | some ⟨.call c k, q⟩ => decidable_of_iff (s.Spares faults c)
    ⟨fun hs _ hp => by cases hi.symm.trans hp; exact hs, fun ha => ha _ hi⟩

-- A hash is that of its job, or else it has no name.
def Keyed (w : World) : Prop :=
  ∀ jobID, ∀ x ∈ w.counters jobID, x.1 = jobID ∨ x.1 = ""

structure Numbered (s : Recorders) : Prop where
  follows  : ∀ p ∈ s.procs, p.prog.Follows Recording (fun _ _ => True) p.state
  unnamed  : s.world.postgres.tasks "" = none
  keyed    : Keyed s.world
  counted  : ∀ p ∈ s.procs, p.state.Counted s.world.counters
  disjoint : Apart (fun p p' => p.state.Disjoint s.world.counters p'.state) s.procs

-- The job whose counter is set by the call.
def assigned : BrokerCall → Option Job
  | .enqueue job _ => some job
  | .retry job _   => some job
  | _              => none

section

variable {s : Recorders} {w : World} {c : BrokerCall} {faults : Nat → Fault}

-- The counter of at most one job changes, and it only grows if it is not set.
theorem exec_counters (hk : Keyed w) :
    (w.exec (.broker c)).1.counters = w.counters ∨
    ∃ jobID x, (w.exec (.broker c)).1.counters = Function.update w.counters jobID (some x) ∧
      (x.1 = jobID ∨ x.1 = "") ∧
      ((∀ y ∈ w.counters jobID, y.2 ≤ x.2) ∨ ∃ job, assigned c = some job ∧ jobID = job.id ∧ x.2 = job.attempts) := by
  have hn (jobID : JobID) : ((w.redis.jobs jobID).getD .empty).id = jobID ∨
      ((w.redis.jobs jobID).getD .empty).id = "" := by
    cases hj : w.redis.jobs jobID
    case none   => exact .inr rfl
    case some h => exact hk jobID h.counter (Redis.fields_eq_some.mpr ⟨h, hj, rfl⟩)
  have hl (hc : RedisBroker.Lasts c) : (w.exec (.broker c)).1.counters = w.counters :=
    RedisBroker.exec_fields JobHash.counter_lasting hc
  cases c
  case enqueue job now =>
    exact .inr ⟨job.id, (job.id, job.attempts), RedisBroker.enqueue_fields, .inl rfl, .inr ⟨job, rfl, rfl, rfl⟩⟩
  case retry job now   =>
    exact .inr ⟨job.id, (_, job.attempts), RedisBroker.retry_fields JobHash.counter_lasting, hn job.id,
      .inr ⟨job, rfl, rfl, rfl⟩⟩
  case cancelLoaded jobID job now =>
    refine .inr ⟨jobID, _, RedisBroker.cancelLoaded_fields JobHash.counter_lasting, hn jobID, .inl fun y hy => ?_⟩
    have ⟨h, hj, he⟩ := Redis.fields_eq_some.mp hy
    rw [hj, ← he]
    exact le_rfl
  case dequeue workerID queues leaseTTL now =>
    have hd := @RedisBroker.dequeueLua_fields _ JobHash.counter w.broker workerID leaseTTL.milliseconds now.unixMilli
      (readyKeysForQueues queues) w.redis (fun x => (x.1, x.2 + 1)) fun _ _ _ _ _ => rfl
    have he : (w.exec (.broker (.dequeue workerID queues leaseTTL now))).1.counters =
      (w.broker.dequeueLua workerID leaseTTL.milliseconds now.unixMilli (readyKeysForQueues queues) w.redis).1.fields
        JobHash.counter := rfl
    rw [he]
    revert hd
    generalize w.broker.dequeueLua workerID leaseTTL.milliseconds now.unixMilli (readyKeysForQueues queues) w.redis = x
    match x with
    | (r, none)            => exact fun hd => .inl hd
    | (r, some (jobID, _)) =>
      intro ⟨x, hx, hd⟩
      refine .inr ⟨jobID, _, hd, hk jobID x hx, .inl fun y hy => ?_⟩
      obtain rfl : x = y := Option.some.inj (hx.symm.trans hy)
      exact Int.le_add_one le_rfl
  all_goals exact .inl (hl trivial)

theorem keyed_broker (hk : Keyed w) : Keyed (w.tryExec faults (.broker c)).1 := by
  match World.tryExec_cases faults w (.broker c) with
  | .inl he => exact he ▸ hk
  | .inr he =>
    rw [he]
    match exec_counters (c := c) hk with
    | .inl hc                   => unfold Keyed; rw [hc]; exact hk
    | .inr ⟨jobID, x, hc, hn, _⟩ =>
      intro j y hy
      rw [hc, Function.update_apply] at hy
      split at hy
      case isFalse   => exact hk j y hy
      case isTrue hj =>
        cases hy
        exact hj ▸ hn

-- A counter may be set to any number which is not below those of the attempts.
theorem Unstarted.permits {job : Job} {x : JobID × Int} (h : s.Unstarted job.id job.attempts)
    (hx : x.2 = job.attempts) : ∀ p ∈ s.procs,
      p.state.Permits s.world.counters (Function.update s.world.counters job.id (some x)) := by
  intro p hp
  have h := h p hp
  cases hq : p.state <;> simp only [hq] at h
  case idle => trivial
  case leased jobID =>
    intro _ y hy
    by_cases hj : jobID = job.id
    case neg => exact ⟨y, (Function.update_of_ne hj ..).trans hy, le_rfl⟩
    case pos =>
      have ⟨g, hg, he⟩ := Redis.fields_eq_some.mp hy
      subst he
      refine ⟨x, hj ▸ Function.update_self .., ?_⟩
      exact hx ▸ h hj g (hj ▸ hg)
  case attempt jobID number =>
    intro _ y hy hn
    by_cases hj : jobID = job.id
    case neg => exact ⟨y, (Function.update_of_ne hj ..).trans hy, hn⟩
    case pos => exact ⟨x, hj ▸ Function.update_self .., hx ▸ h hj⟩

-- What is allowed of a call is what the states of all processes permit.
theorem permits_broker (hk : Keyed s.world) (ha : s.Spares faults (.broker c)) :
    ∀ p ∈ s.procs, p.state.Permits s.world.counters (s.world.tryExec faults (.broker c)).1.counters := by
  by_cases hf : faults s.world.calls = .refused
  case pos =>
    have he : (s.world.tryExec faults (.broker c)).1 = { s.world with calls := s.world.calls + 1 } := by
      simp [World.tryExec, hf, Call.failure?]
    exact fun _ _ => he ▸ State.Permits.refl
  case neg =>
    have he : (s.world.tryExec faults (.broker c)).1 = (s.world.exec (.broker c)).1 := by
      unfold World.tryExec
      cases hf' : faults s.world.calls
      case refused => exact absurd hf' hf
      case none    => rfl
      case lost    => rfl
    rw [he]
    obtain hc | ⟨jobID, x, hc, _, hx | ⟨job, hj, hi, hx⟩⟩ := exec_counters (c := c) hk
    · exact fun _ _ => hc ▸ State.Permits.refl
    · rw [hc]
      refine fun _ _ => State.Permits.of_le fun j y hy => ?_
      by_cases hj : j = jobID
      case pos => subst hj; exact ⟨x, Function.update_self .., hx y hy⟩
      case neg => exact ⟨y, (Function.update_of_ne hj ..).trans hy, le_rfl⟩
    · have hu : s.Unstarted job.id job.attempts := by
        cases c
        case enqueue => cases hj; exact ha hf
        case retry   => cases hj; exact ha hf
        all_goals cases hj
      rw [hc, hi]
      exact hu.permits hx

end

namespace Numbered

variable {s : Recorders} {w w' : World} {p p' : Proc Recording (Except Error Unit)} {i : Nat}
         {faults : Nat → Fault} {l : Label}

theorem start : Numbered (start w) where
  follows  := by simp [Recorders.start]
  unnamed  := rfl
  keyed    := by simp [Recorders.start, Keyed, World.counters, Redis.fields, Redis.empty]
  counted  := by simp [Recorders.start]
  disjoint := .nil

theorem spawn (h : Numbered s) (hq : p.state = .idle) (hf : p.prog.Follows Recording (fun _ _ => True) p.state) :
    Numbered { s with procs := s.procs ++ [p] } where
  follows  := by simpa [or_imp, forall_and] using ⟨h.follows, hf⟩
  unnamed  := h.unnamed
  keyed    := h.keyed
  counted  := by simpa [or_imp, forall_and, hq, State.Counted] using h.counted
  disjoint := h.disjoint.snoc (fun _ _ => State.Disjoint.symm) fun _ _ => by rw [hq]; trivial

theorem spawnAll {ps : List (Proc Recording (Except Error Unit))} (h : Numbered s)
    (hp : ∀ p ∈ ps, p.state = .idle ∧ p.prog.Follows Recording (fun _ _ => True) p.state) :
    Numbered { s with procs := s.procs ++ ps } := by
  induction ps generalizing s
  case nil          => simpa using h
  case cons p ps hi =>
    have ⟨⟨hq, hf⟩, hp⟩ := List.forall_mem_cons.mp hp
    simpa using hi (h.spawn hq hf) hp

-- A process makes a call, and goes on to another state.
theorem call (h : Numbered s)
    (hf : p'.prog.Follows Recording (fun _ _ => True) p'.state)
    (hu : w'.postgres.tasks "" = none) (hk : Keyed w')
    (hp : ∀ p ∈ s.procs, p.state.Permits s.world.counters w'.counters) (hc : p'.state.Counted w'.counters)
    (hd : ∀ r ∈ s.procs.eraseIdx i, p'.state.Disjoint w'.counters r.state) :
    Numbered { world := w', procs := s.procs.set i p' } where
  unnamed  := hu
  keyed    := hk
  follows  := by
    intro r hr
    match Apart.mem_of_mem_set hr with
    | .inl hr => exact h.follows r (List.mem_of_mem_eraseIdx hr)
    | .inr he => exact he ▸ hf
  counted  := by
    intro r hr
    match Apart.mem_of_mem_set hr with
    | .inr he => exact he ▸ hc
    | .inl hr =>
      have hr := List.mem_of_mem_eraseIdx hr
      exact (hp r hr).counted (h.counted r hr)
  disjoint := by
    refine Apart.set (fun j k a b hjk ha hb => ?_) (fun _ _ => State.Disjoint.symm) hd
    exact (hp a (List.mem_of_getElem? ha)).disjoint (hp b (List.mem_of_getElem? hb)) (h.disjoint j k a b hjk ha hb)

-- The state of the process stays the same, or the process leaves its attempt.
theorem stay (h : Numbered s) (hi : s.procs[i]? = some p)
    (hf : p'.prog.Follows Recording (fun _ _ => True) p'.state)
    (hu : w'.postgres.tasks "" = none) (hk : Keyed w')
    (hp : ∀ p ∈ s.procs, p.state.Permits s.world.counters w'.counters)
    (hs : p'.state = p.state ∨ p'.state = .idle) : Numbered { world := w', procs := s.procs.set i p' } := by
  have hm := List.mem_of_getElem? hi
  refine h.call hf hu hk hp ?_ ?_
  case refine_1 =>
    match hs with
    | .inl he => exact he ▸ (hp p hm).counted (h.counted p hm)
    | .inr he => rw [he]; trivial
  case refine_2 =>
    intro r hr
    match hs with
    | .inr he => rw [he]; trivial
    | .inl he =>
      have hm' := List.mem_of_mem_eraseIdx hr
      exact he ▸ (hp p hm).disjoint (hp r hm') (h.disjoint.rel hi hr)

theorem unnamed_repo {c : RepoCall} (hu : w.postgres.tasks "" = none)
    (hc : ∀ job ∈ Postgres.creates c, job.id ≠ "") : (w.postgres.exec c).1.tasks "" = none := by
  cases hj : Postgres.creates c
  case none     => exact (congrFun (Postgres.exec_tasks hj) "").trans hu
  case some job =>
    match Postgres.exec_stores (p := w.postgres) hj with
    | .inl ht      => exact (congrFun ht "").trans hu
    | .inr ⟨_, ht⟩ =>
      refine (congrFun ht "").trans ?_
      rw [Function.update_of_ne (hc job hj).symm]
      exact hu

theorem forks_follow (c : Call) : ∀ p ∈ (semantics faults).forks c,
    p.state = .idle ∧ p.prog.Follows Recording (fun _ _ => True) p.state := by
  cases c
  case heartbeats =>
    intro p hp
    rw [List.mem_singleton.mp hp]
    exact ⟨rfl, Recording.steady (Recording.heartbeatLoop.bind fun _ => trivial) (by simp)⟩
  all_goals exact fun p hp => nomatch hp

-- What a call leaves behind in the world.
structure Leaves (faults : Nat → Fault) (s : Recorders) (c : Call) : Prop where
  unnamed : (s.world.tryExec faults c).1.postgres.tasks "" = none
  keyed   : Keyed (s.world.tryExec faults c).1
  permits : ∀ p ∈ s.procs, p.state.Permits s.world.counters (s.world.tryExec faults c).1.counters

-- The calls which do not reach the broker.
theorem leaves_of_exec {c : Call} (h : Numbered s) (hu : (s.world.exec c).1.postgres.tasks "" = none)
    (hr : (s.world.exec c).1.redis = s.world.redis) : Leaves faults s c := by
  have hr : (s.world.tryExec faults c).1.counters = s.world.counters := by
    unfold World.counters
    match World.tryExec_cases faults s.world c with
    | .inl he => rw [he]
    | .inr he => rw [he, hr]
  constructor
  case unnamed =>
    match World.tryExec_cases faults s.world c with
    | .inl he => exact he ▸ h.unnamed
    | .inr he => exact he ▸ hu
  case keyed   => unfold Keyed; exact hr ▸ h.keyed
  case permits => exact fun _ _ => hr ▸ State.Permits.refl

theorem leaves (h : Numbered s) {c : Call} {q : State} (hc : Recording.Allows q c) (ha : s.Spares faults c) :
    Leaves faults s c := by
  cases c
  case now        => exact h.leaves_of_exec h.unnamed rfl
  case heartbeats => exact h.leaves_of_exec h.unnamed rfl
  case limiter    => exact h.leaves_of_exec h.unnamed rfl
  case broker c   =>
    refine ⟨?_, keyed_broker h.keyed, permits_broker h.keyed ha⟩
    match World.tryExec_cases faults s.world (.broker c) with
    | .inl he => exact he ▸ h.unnamed
    | .inr he => exact he ▸ h.unnamed
  case repo c     =>
    refine h.leaves_of_exec (unnamed_repo h.unnamed fun job hj => ?_) rfl
    cases q
    case leased => cases hc
    all_goals
      cases c
      case createJobBundle          => cases hj; exact hc
      case createJobWithIdempotency => cases hj; exact hc
      all_goals cases hj

-- The hash which an answer has been read from.
theorem loaded {jobID : JobID} {job : Job} (hx : w.tryExec faults (.broker (.loadJob jobID)) = (w', .ok job)) :
    w'.counters jobID = some (job.id, job.attempts) := by
  unfold World.tryExec at hx
  cases hf : faults w.calls <;> rw [hf] at hx
  case refused => cases hx
  case lost    => cases hx
  case none    =>
    simp only [World.exec_broker, RedisBroker.exec, RedisBroker.loadJob] at hx
    cases hj : w.redis.jobs jobID <;> rw [hj] at hx
    case none   => cases hx
    case some h =>
      cases hx
      exact Redis.fields_eq_some.mpr ⟨h, hj, rfl⟩

-- A process that is about to load a job loads it, or else it does not get an answer.
theorem load {jobID : JobID} {k : Except Error Job → Program (Except Error Unit)} {res : Except Error Job}
    (h : Numbered s) (hi : s.procs[i]? = some ⟨.call (.broker (.loadJob jobID)) k, .leased jobID⟩)
    (hl : Leaves faults s (.broker (.loadJob jobID)))
    (hx : s.world.tryExec faults (.broker (.loadJob jobID)) = (w', res)) : Numbered {
      world := w'
      procs := s.procs.set i ⟨k res, Recording.next (.leased jobID) (.broker (.loadJob jobID)) res⟩
    } := by
  have ⟨_, hf⟩ := h.follows _ (List.mem_of_getElem? hi)
  have hf := hf res trivial
  have ⟨hu, hk, hp⟩ := hl
  rw [hx] at hu hk hp
  cases res
  case error e => exact h.stay hi hf hu hk hp (.inr rfl)
  case ok job  =>
    have hc : w'.counters jobID = some (job.id, job.attempts) := loaded hx
    have hn : job.id = jobID ∨ job.id = "" := hk jobID _ hc
    refine h.call hf hu hk hp (fun hne => ?_) fun r hr => ?_
    case refine_1 =>
      have he := hn.resolve_right hne
      exact ⟨_, (congrArg w'.counters he).trans hc, le_rfl⟩
    case refine_2 =>
      have hd := (hp _ (List.mem_of_getElem? hi)).disjoint (hp r (List.mem_of_mem_eraseIdx hr)) (h.disjoint.rel hi hr)
      show State.Disjoint _ (.attempt job.id job.attempts) r.state
      revert hd
      cases r.state
      case idle                  => exact fun _ => trivial
      case leased jobID'         =>
        intro hd he hne
        have hj := hn.resolve_right hne
        exact absurd (hj.trans (hd (hj.symm.trans he))) hne
      case attempt jobID' number =>
        intro hd he hm
        refine hn.elim (fun hj => ?_) id
        by_contra hne
        have ⟨y, hy, hlt⟩ := hd (hj.symm.trans he) (he ▸ hne)
        rw [← he, hj] at hy
        cases hy.symm.trans hc
        exact absurd hm hlt.ne'

-- The counter of the job which is leased has been above those of all its attempts before.
theorem leases {workerID : WorkerID} {queues : List QueueName} {leaseTTL : Duration} {now : Time} {jobID : JobID}
    {leaseToken : Token}
    (hx : w.tryExec faults (.broker (.dequeue workerID queues leaseTTL now)) = (w', .ok (some (jobID, leaseToken)))) :
    ∃ x ∈ w.counters jobID, w'.counters jobID = some (x.1, x.2 + 1) := by
  have hd := @RedisBroker.dequeueLua_fields _ JobHash.counter w.broker workerID leaseTTL.milliseconds now.unixMilli
    (readyKeysForQueues queues) w.redis (fun x => (x.1, x.2 + 1)) fun _ _ _ _ _ => rfl
  unfold World.tryExec at hx
  cases hf : faults w.calls <;> rw [hf] at hx
  case refused => cases hx
  case lost    => cases hx
  case none    =>
    simp only [World.exec_broker, RedisBroker.exec] at hx
    generalize w.broker.dequeueLua workerID leaseTTL.milliseconds now.unixMilli (readyKeysForQueues queues) w.redis = y
      at hd hx
    obtain ⟨r, res⟩ := y
    cases hx
    obtain ⟨x, hx, hr⟩ := hd
    exact ⟨x, hx, (congrFun hr jobID).trans (Function.update_self ..)⟩

theorem dequeue {workerID : WorkerID} {queues : List QueueName} {leaseTTL : Duration} {now : Time}
    {k : Except Error (Option (JobID × Token)) → Program (Except Error Unit)}
    {res : Except Error (Option (JobID × Token))} (h : Numbered s)
    (hi : s.procs[i]? = some ⟨.call (.broker (.dequeue workerID queues leaseTTL now)) k, .idle⟩)
    (hl : Leaves faults s (.broker (.dequeue workerID queues leaseTTL now)))
    (ha : s.Spares faults (.broker (.dequeue workerID queues leaseTTL now)))
    (hx : s.world.tryExec faults (.broker (.dequeue workerID queues leaseTTL now)) = (w', res)) : Numbered {
      world := w'
      procs := s.procs.set i
        ⟨k res, Recording.next .idle (.broker (.dequeue workerID queues leaseTTL now)) res⟩
    } := by
  have ⟨_, hf⟩ := h.follows _ (List.mem_of_getElem? hi)
  have hf := hf res trivial
  have ⟨hu, hk, hp⟩ := hl
  rw [hx] at hu hk hp
  match res with
  | .error _                       => exact h.stay hi hf hu hk hp (.inr rfl)
  | .ok none                       => exact h.stay hi hf hu hk hp (.inr rfl)
  | .ok (some (jobID, leaseToken)) =>
    have ⟨x, hc, hc'⟩ := leases hx
    refine h.call hf hu hk hp trivial fun r hr => ?_
    have hr := List.mem_of_mem_eraseIdx hr
    have hn : r.state ≠ .leased jobID := ha (jobID, leaseToken) (congrArg Prod.snd hx) r hr
    have hm := h.counted r hr
    show State.Disjoint _ (.leased jobID) r.state
    revert hn hm
    cases r.state
    case idle                  => exact fun _ _ => trivial
    case leased jobID'         => exact fun hn _ he => absurd (he ▸ rfl) hn
    case attempt jobID' number =>
      intro _ hm he hne
      subst he
      have ⟨y, hy, hle⟩ := hm hne
      cases hy.symm.trans hc
      exact ⟨_, hc', by dsimp only; omega⟩

theorem run (h : Numbered s) (ha : s.Allowed faults (.run i)) :
    Numbered (Pool.step (semantics faults) s (.run i)) := by
  refine Pool.step_run_rule _ h fun c k q hi => ?_
  have ⟨hc, hn⟩ := h.follows _ (List.mem_of_getElem? hi)
  replace ha : s.Spares faults c := ha _ hi
  have hl := h.leaves hc ha
  refine spawnAll (s := { world := _, procs := s.procs.set i _ }) ?_ (forks_follow c)
  generalize hx : (semantics faults).exec s.world c = x
  obtain ⟨w', res⟩ := x
  have hf := hn res trivial
  clear hn
  have hs (he : Recording.next q c res = q ∨ Recording.next q c res = .idle) :
      Numbered { world := w', procs := s.procs.set i ⟨k res, Recording.next q c res⟩ } := by
    have ⟨hu, hk, hp⟩ := hl
    rw [show s.world.tryExec faults c = (w', res) from hx] at hu hk hp
    exact h.stay hi hf hu hk hp he
  cases q
  case leased jobID =>
    cases (hc : c = .broker (.loadJob jobID))
    exact h.load hi hl hx
  case idle =>
    cases c
    case broker c =>
      cases c
      case dequeue => exact h.dequeue hi hl ha hx
      all_goals exact hs (.inl rfl)
    all_goals exact hs (.inl rfl)
  case attempt jobID number =>
    cases c
    case broker c =>
      cases c
      case requeueThrottled => exact hs (.inr rfl)
      all_goals exact hs (.inl rfl)
    all_goals exact hs (.inl rfl)

theorem step (h : Numbered s) (ha : s.Allowed faults l) : Numbered (Pool.step (semantics faults) s l) := by
  cases l
  case run i   => exact h.run ha
  case spawn p =>
    have ⟨hq, op, hn, hp⟩ := ha
    exact h.spawn hq (by rw [hp, hq]; exact op.follows hn)

theorem upsert {k : Except Error Unit → Program (Except Error Unit)} {q : State} {attempt : JobAttempt} {j : Nat}
    {jobID : JobID} {number : Int} (h : Numbered s)
    (hj : s.procs[j]? = some ⟨.call (.repo (.upsertJobAttempt attempt)) k, q⟩) (hi : s.procs[i]? = some p)
    (hq : p.state = .attempt jobID number) (hc : Recording.Allows q (.repo (.upsertJobAttempt attempt))) :
    let row' := (s.world.postgres.upsertJobAttempt attempt).1.attempts jobID number
    .run j = (.run i : Label) ∨ row' = s.world.postgres.attempts jobID number ∨ row'.any (·.leaseExpired) := by
  match @Postgres.upsertJobAttempt_attempts s.world.postgres jobID attempt number with
  | .inl he => exact .inr (.inl he)
  | .inr ⟨hs, hji, hn, row, hr, hx⟩ =>
    have hc : attempt.leaseExpired = true ∨ q = .attempt attempt.jobID attempt.attempt := by
      cases q
      case leased  => cases hc
      case idle    => exact hc
      case attempt => exact hc
    match hc with
    | .inl hl => exact .inr (.inr (by simp [hr, hx, hl]))
    | .inr he =>
      by_cases hij : j = i
      case pos => exact .inl (congrArg _ hij)
      case neg =>
        have hd := h.disjoint j i _ p hij hj hi
        rw [he, hq] at hd
        have hu : attempt.jobID = "" := hd hji.symm hn.symm
        have hs' := h.unnamed
        rw [hji, hu] at hs
        simp [Postgres.tasks, Option.isSome_iff_ne_none.mp hs] at hs'

end Numbered

namespace Sample

def worker (workerID : WorkerID) : Runtime where
  workerID          := workerID
  queues            := ["default"]
  leaseTTL          := 30 * Duration.second
  heartbeatInterval := 10 * Duration.second
  baseRetryDelay    := 5 * Duration.second
  maxRetryDelay     := 15 * Duration.minute
  limited           := false

def launch (op : Operation) : Label :=
  .spawn ⟨op.program, .idle⟩

def submit : Operation :=
  .enqueueJob .sample { JobRequest.plain "email.send" with maxAttempts := 1 } "job-1"

-- There is no handler, and so the attempt fails.
def work (workerID : WorkerID) : Operation :=
  .work (worker workerID) [] fun _ => none

def turns (count i : Nat) : List Label :=
  (List.replicate count i).map .run

-- A job is submitted and fails.
def failing : List Label :=
  launch submit :: turns 4 0 ++ launch (work "worker-1") :: turns 11 1

-- Then an operator retries it, and another worker begins to work on it.
def retrying : List Label :=
  launch (.retryJob "job-1") :: turns 5 2 ++ launch (work "worker-2") :: turns 5 3

def step : Recorders → Label → Recorders :=
  Pool.step (semantics fun _ => .none)

theorem launched (op : Operation) (h : op.Named) : Launched (launch op) :=
  ⟨rfl, op, h, rfl⟩

theorem launched_turns {count i : Nat} : ∀ l ∈ turns count i, Launched l := by
  intro l hl
  have ⟨_, _, he⟩ := List.mem_map.mp hl
  exact he ▸ trivial

theorem submit_named : submit.Named :=
  show "job-1" ≠ "" by decide

theorem failing_allowed {ls : List Label}
    (h : Run.Guarded step (Allowed fun _ => .none) (Run.last step (start .sample) failing) ls) :
    Run.Guarded step (Allowed fun _ => .none) (start .sample) (failing ++ ls) := by
  have he : Run.Guarded step (Allowed fun _ => .none) (start .sample) (launch submit :: turns 4 0) :=
    ⟨launched submit submit_named, Run.Guarded.map.mpr (by decide +kernel)⟩
  have hw : Run.Guarded step (Allowed fun _ => .none) (Run.last step (start .sample) (launch submit :: turns 4 0))
      (launch (work "worker-1") :: turns 11 1) :=
    ⟨launched (work "worker-1") trivial, Run.Guarded.map.mpr (by decide +kernel)⟩
  exact Run.Guarded.append.mpr ⟨Run.Guarded.append.mpr ⟨he, hw⟩, h⟩

end Sample

end Recorders
end JobPlatform
