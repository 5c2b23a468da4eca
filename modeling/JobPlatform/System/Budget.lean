import JobPlatform.Library.Apart
import JobPlatform.Service.Replay
import JobPlatform.Service.Validation
import JobPlatform.Store.States
import JobPlatform.System.Footprint
import JobPlatform.Worker.Budget

namespace JobPlatform

theorem buildJob_fresh (now : Time) (req : JobRequest) (id : JobID) : (buildJob now req id).Fresh where
  attempts := rfl
  unleased := rfl
  max      := by
    show 0 < if req.maxAttempts ≤ 0 then 5 else req.maxAttempts
    split <;> omega
  waits    := by
    obtain hs | hs | hs := buildJob_state now req id
    all_goals simp [hs, JobState.waits]

namespace Budgeting

variable {m : Manager} {req : JobRequest} {jobID : JobID} {now : Time} {q : State} {job : Job}

theorem createJob (hf : job.Fresh) : (m.createJob req job).Follows Budgeting
    (fun res q => q = .idle ∧ ∀ result, res = .ok result → result.duplicateSuppressed = false → result.job.Fresh)
    .idle := by
  unfold Manager.createJob
  dsimp only
  split
  case isTrue  =>
    refine ⟨trivial, fun res ⟨faults, w, hw⟩ => ⟨rfl, fun result he hd => ?_⟩⟩
    subst he
    have ⟨_, _, hr⟩ := repo_ok (show (repo _).run (World.tryExec faults) w = ((w.tryExec faults _).1, _) from Prod.ext rfl hw)
    rw [(Postgres.createJobWithIdempotency_states hr hd).left]
    exact hf
  case isFalse =>
    refine ⟨trivial, fun res _ => ?_⟩
    cases res
    case error => exact ⟨rfl, fun _ he => nomatch he⟩
    case ok    =>
      refine ⟨rfl, fun result he _ => ?_⟩
      cases he
      exact hf

theorem enqueueJob : (m.enqueueJob req jobID).Follows Budgeting (fun _ _ => True) .idle := by
  unfold Manager.enqueueJob
  split
  case h_1 => trivial
  case h_2 =>
    refine ⟨trivial, fun now _ => Prog.Follows.bind (p := m.createJob req (buildJob now req jobID)) ?_⟩
    refine (createJob (buildJob_fresh ..)).mono fun res q hq => ?_
    obtain ⟨rfl, hf⟩ := hq
    cases res
    case error     => trivial
    case ok result =>
      dsimp only
      split
      case isTrue     => trivial
      case isFalse hd =>
        refine ⟨trivial, fun _ _ => ⟨hf result rfl (by simpa using hd), fun res _ => ?_⟩⟩
        cases res
        case error => trivial
        case ok    => trivial

theorem steady_of_sweeps (c : Call) (h : Scheduler.Sweeps c) : Steady False c := by
  cases c
  case broker c => cases c <;> first | exact h.elim | trivial
  all_goals trivial

theorem retryJob : (Manager.retryJob jobID).Follows Budgeting (fun _ _ => True) .idle := by
  refine ⟨trivial, fun res _ => ?_⟩
  cases res
  case error  => trivial
  case ok job =>
    refine ⟨trivial, fun now _ => ⟨rfl, fun res _ => ?_⟩⟩
    cases res
    case error => trivial
    case ok    =>
      refine ⟨trivial, fun res _ => ?_⟩
      cases res
      case error => trivial
      case ok    => exact ⟨trivial, fun _ _ => trivial⟩

theorem replayDeadLetters {req : DeadLetterReplayRequest} :
    (Manager.replayDeadLetters req).Follows Budgeting (fun _ _ => True) .idle := by
  have hr (now : Time) (jobIDs : List JobID) (replayed : List Job) :
      (Manager.replayAll req now jobIDs replayed).Follows Budgeting (fun _ _ => True) .idle := by
    induction jobIDs generalizing replayed
    case nil       => trivial
    case cons _ hi =>
      refine ⟨trivial, fun res _ => ?_⟩
      cases res
      case error  => trivial
      case ok job =>
        refine ⟨rfl, fun res _ => ?_⟩
        cases res
        case error => trivial
        case ok    =>
          refine ⟨trivial, fun res _ => ?_⟩
          cases res
          case error => trivial
          case ok    =>
            refine ⟨trivial, fun res _ => ?_⟩
            cases res
            case error => trivial
            case ok    => exact hi _
  exact ⟨trivial, fun _ _ => hr ..⟩

theorem cancelJob : (Manager.cancelJob jobID).Follows Budgeting (fun _ _ => True) .idle := by
  refine ⟨trivial, fun res _ => ?_⟩
  cases res
  case error  => trivial
  case ok job =>
    refine ⟨trivial, fun res _ => ?_⟩
    cases res
    case error  => trivial
    case ok job =>
      refine ⟨trivial, fun _ _ => ⟨rfl, fun res _ => ?_⟩⟩
      cases res
      case error => trivial
      case ok    =>
        refine ⟨trivial, fun _ _ => ⟨trivial, fun res _ => ?_⟩⟩
        cases res
        case error => trivial
        case ok    => trivial

end Budgeting

theorem Operation.budgets (op : Operation) : op.program.Follows Budgeting (fun _ _ => True) .idle := by
  cases op
  case enqueueJob        => exact .bind <| Budgeting.enqueueJob.mono fun _ _ _ => trivial
  case work              => exact .bind <| Budgeting.work.mono fun _ _ _ => trivial
  case activateDue       =>
    exact Budgeting.follows_of_free (Scheduler.activateDue_sweeps.mono Budgeting.steady_of_sweeps) trivial
  case recoverExpired    =>
    exact Budgeting.follows_of_free (Scheduler.recoverExpired_sweeps.mono Budgeting.steady_of_sweeps) trivial
  case retryJob          => exact .bind <| Budgeting.retryJob.mono fun _ _ _ => trivial
  case replayDeadLetters => exact .bind <| Budgeting.replayDeadLetters.mono fun _ _ _ => trivial
  case cancelJob         => exact .bind <| Budgeting.cancelJob.mono fun _ _ _ => trivial

-- The world, and how the leases of each job have ended.
structure Accounts where
  world : World
  tally : JobID → Tally

namespace Accounts

-- A call that is refused does not change anything.
def settle (faults : Nat → Fault) (w : World) (tally : JobID → Tally) : Call → JobID → Tally
  | .broker c, j => if faults w.calls = .refused then tally j else c.tally w.redis (w.broker.exec w.redis c).1 j (tally j)
  | _,         j => tally j

def exec (faults : Nat → Fault) (a : Accounts) (c : Call) : Accounts × c.Resp :=
  let (world, res) := a.world.tryExec faults c
  ({ world, tally := settle faults a.world a.tally c }, res)

variable {faults : Nat → Fault} {a : Accounts}

theorem exec_broker {c : BrokerCall} {Q : Accounts × Except Error c.Resp → Prop}
    (refused : ∀ w : World, w.redis = a.world.redis → Q ({ world := w, tally := a.tally }, .error .unavailable))
    (executed : faults a.world.calls ≠ .refused → ∀ (w : World) res,
      w.redis = (a.world.broker.exec a.world.redis c).1 →
      res = .error .unavailable ∨ res = (a.world.broker.exec a.world.redis c).2 →
      Q ({ world := w, tally := fun j => c.tally a.world.redis w.redis j (a.tally j) }, res)) :
    Q (a.exec faults (.broker c)) := by
  unfold exec World.tryExec
  cases hf : faults a.world.calls
  case refused =>
    have ht : settle faults a.world a.tally (.broker c) = a.tally := by
      funext j
      simp [settle, hf]
    simp only [Call.failure?, ht]
    exact refused _ rfl
  all_goals
    have hn : faults a.world.calls ≠ .refused := by simp [hf]
    have ht : settle faults a.world a.tally (.broker c) =
        fun j => c.tally a.world.redis (a.world.broker.exec a.world.redis c).1 j (a.tally j) := by
      funext j
      simp [settle, hf]
    simp only [Call.failure?, ht]
  case lost => exact executed hn (a.world.exec (.broker c)).1 _ rfl (.inl rfl)
  case none => exact executed hn (a.world.exec (.broker c)).1 _ rfl (.inr rfl)

-- Only calls to the broker count.
theorem exec_other {c : Call} (hc : ∀ c', c ≠ .broker c') :
    (a.exec faults c).1.world.redis = a.world.redis ∧ (a.exec faults c).1.tally = a.tally := by
  have ht : (a.exec faults c).1.tally = a.tally := by
    cases c
    case broker c => exact absurd rfl (hc c)
    all_goals rfl
  refine ⟨?_, ht⟩
  show (a.world.tryExec faults c).1.redis = a.world.redis
  obtain he | he := World.tryExec_cases faults a.world c
  · rw [he]
  · rw [he]
    cases c
    case broker c => exact absurd rfl (hc c)
    all_goals rfl

end Accounts

namespace Budgeting.State

-- The lease which a worker may end.
def holder : State → Option (JobID × Token)
  | working jobID leaseToken _ _ => some (jobID, leaseToken)
  | _                            => none

-- The budget of a worker is that of its job as long as its lease has not ended.
def Agrees (r : Redis) : State → Prop
  | idle                                           => True
  | loaded jobID                                   => (r.jobs jobID).isSome
  | leased _ leaseToken                            => leaseToken ≠ ""
  | done                                           => True
  | working jobID leaseToken attempts maxAttempts  => leaseToken ≠ "" ∧
    ∀ h, r.jobs jobID = some h → h.leaseToken = leaseToken → h.budget = (attempts, some maxAttempts)

variable {b : RedisBroker} {r r' : Redis} {q : State} {c : BrokerCall}

theorem Agrees.exec (h : q.Agrees r) (hc : c.Fair r) (hg : ∀ lease ∈ c.grants (b.exec r c).2, q.holder ≠ some lease) :
    q.Agrees (b.exec r c).1 := by
  cases q
  case idle   => trivial
  case done   => trivial
  case loaded => exact RedisBroker.exec_isSome h
  case leased => exact h
  case working jobID leaseToken attempts maxAttempts =>
    refine ⟨h.left, fun x hx ht => ?_⟩
    have hn : c.grants (b.exec r c).2 ≠ some (jobID, x.leaseToken) := fun he => hg _ he (by rw [ht]; rfl)
    obtain ⟨y, hy, ht', hb⟩ := RedisBroker.exec_keeps hc hx (ht ▸ h.left) hn
    rw [← hb]
    exact h.right y hy (ht'.trans ht)

-- A worker reads the budget that its job has.
theorem Agrees.next (h : q.Agrees r) (h' : q.Agrees (b.exec r c).1) (hb : ∀ j, ∃ t, r.Balanced j t)
    (hc : Budgeting.Allows q (.broker c)) :
    State.Agrees (b.exec r c).1 (Budgeting.next q (.broker c) (b.exec r c).2) := by
  cases q
  case done    => exact h'
  case working =>
    cases c
    case fail             => trivial
    case complete         => trivial
    case requeueThrottled => trivial
    all_goals exact h'
  case leased jobID leaseToken =>
    cases hc
    cases hj : r.jobs jobID
    case none   => simp [RedisBroker.exec, RedisBroker.loadJob, hj, State.Agrees]
    case some x =>
      obtain ⟨t, hb⟩ := hb jobID
      obtain ⟨hi, m, hb⟩ := hb.hash x hj
      simp only [RedisBroker.exec, RedisBroker.loadJob, hj]
      refine ⟨h, fun y hy _ => ?_⟩
      have hy : r.jobs x.id = some y := hy
      rw [hi, hj] at hy
      cases hy
      simp [JobHash.budget, jobFromHash, hb.max]
  case loaded =>
    cases c
    case loadJob j =>
      cases hj : r.jobs j
      case none   => simpa [RedisBroker.exec, RedisBroker.loadJob, hj] using h'
      case some x => simp [RedisBroker.exec, RedisBroker.loadJob, hj, State.Agrees]
    all_goals exact h'
  case idle   =>
    cases c
    case loadJob j =>
      cases hj : r.jobs j
      case none   => simp [RedisBroker.exec, RedisBroker.loadJob, hj, State.Agrees]
      case some x => simp [RedisBroker.exec, RedisBroker.loadJob, hj, State.Agrees]
    case dequeue workerID queues leaseTTL now =>
      cases hd : (b.dequeueLua workerID leaseTTL.milliseconds now.unixMilli (readyKeysForQueues queues) r).2
      case none       => simp [RedisBroker.exec, hd, State.Agrees]
      case some lease =>
        simp only [RedisBroker.exec, Prod.map_snd, hd]
        exact RedisBroker.dequeueLua_token hd
    all_goals trivial

end Budgeting.State

-- The processes of the platform, whose leases are counted.
abbrev Budgeters :=
  Pool Budgeting (Except Error Unit) Accounts

namespace Budgeters

open Budgeting (State)

abbrev Label :=
  Pool.Label Budgeting (Except Error Unit)

def semantics (faults : Nat → Fault) : Pool.Semantics Budgeting (Except Error Unit) Accounts where
  exec  := Accounts.exec faults
  forks := (platform Budgeting fun _ _ => .idle).forks

def start (w : World) : Budgeters where
  world := { world := { w with redis := .empty }, tally := fun _ => .zero }
  procs := []

-- Procedures are started at any time, and take turns in any order.
def Launched : Label → Prop
  | .spawn p => p.state = .idle ∧ ∃ op : Operation, p.prog = op.program
  | .run _   => True

-- Dependents are released before they have been attempted, jobs are retried only after they have been enqueued, what
-- is due waits for its next attempt, and the token of a lease is not that of a worker.
def Spares (s : Budgeters) (q : State) : BrokerCall → Prop
  | .enqueue job _                          => q = .idle ∨ job.Fresh
  | .retry job _                            => (s.world.world.redis.jobs job.id).isSome
  | .activateDue limit now                  =>
    ∀ j ∈ (s.world.world.redis.zsets .delayed).rangeByScore (.ofInt now.unixMilli) limit,
      (s.world.world.redis.jobs j).all (·.state.waits)
  | .dequeue workerID queues leaseTTL now   =>
    let c := BrokerCall.dequeue workerID queues leaseTTL now
    ∀ lease ∈ c.grants (s.world.world.broker.exec s.world.world.redis c).2, ∀ p ∈ s.procs, p.state.holder ≠ some lease
  | _                                       => True

def Allowed (faults : Nat → Fault) (s : Budgeters) : Label → Prop
  | .spawn p => Launched (.spawn p)
  | .run i   => ∀ p ∈ s.procs[i]?, match p.prog with
    | .call (.broker c) _ => faults s.world.world.calls ≠ .refused → s.Spares p.state c
    | _                   => True

-- All budgets are known to those who decide about them, and add up.
structure Accounted (s : Budgeters) : Prop where
  follows  : ∀ p ∈ s.procs, p.prog.Follows Budgeting (fun _ _ => True) p.state
  balanced : ∀ j, s.world.world.redis.Balanced j (s.world.tally j)
  agrees   : ∀ p ∈ s.procs, p.state.Agrees s.world.world.redis

section

variable {faults : Nat → Fault} {s : Budgeters} {w : World} {a : Accounts} {i : Nat} {l : Label} {q : State} {c : Call}
         {k : c.Resp → Program (Except Error Unit)} {p p' : Proc Budgeting (Except Error Unit)}

theorem Spares.fair {c : BrokerCall} (hs : s.Spares q c) (ha : Budgeting.Allows q (.broker c))
    (hq : q.Agrees s.world.world.redis) : c.Fair s.world.world.redis := by
  cases c
  case enqueue          =>
    cases q
    case idle   => exact ha
    case loaded => exact ha.elim
    case leased => cases ha
    all_goals exact hs.resolve_left nofun
  case retry            => exact ⟨(by cases q <;> first | exact ha | cases ha), hs⟩
  case cancelLoaded     =>
    cases q
    case loaded => cases ha; exact hq
    all_goals cases ha
  case activateDue      => exact hs
  case complete         =>
    cases q
    case working => exact ha ▸ hq.left
    all_goals cases ha
  case requeueThrottled =>
    cases q
    case working => exact ha ▸ hq.left
    all_goals cases ha
  case fail             =>
    cases q
    case working =>
      obtain ⟨rfl, rfl, hr⟩ := ha
      refine ⟨hq.left, fun h m hj he hm => ?_⟩
      obtain ⟨rfl, hm'⟩ := Prod.ext_iff.mp (hq.right h hj he)
      cases hm.symm.trans hm'
      exact hr
    all_goals cases ha
  all_goals trivial

theorem forks_follow (c : Call) : ∀ p ∈ (semantics faults).forks c,
    p.state = .idle ∧ p.prog.Follows Budgeting (fun _ _ => True) p.state := by
  cases c
  case heartbeats =>
    intro p hp
    rw [List.mem_singleton.mp hp]
    exact ⟨rfl, Budgeting.follows_of_free (Budgeting.heartbeatLoop.bind fun _ => trivial) trivial⟩
  all_goals exact fun p hp => nomatch hp

namespace Accounted

theorem start : Accounted (start w) where
  follows    := by simp [Budgeters.start]
  balanced _ := .empty
  agrees     := by simp [Budgeters.start]

theorem spawn (h : Accounted s) (hq : p.state = .idle) (hf : p.prog.Follows Budgeting (fun _ _ => True) p.state) :
    Accounted { s with procs := s.procs ++ [p] } where
  follows  := by simpa [or_imp, forall_and] using ⟨h.follows, hf⟩
  balanced := h.balanced
  agrees   := by simpa [or_imp, forall_and, hq, State.Agrees] using h.agrees

theorem call (h : Accounted s) (hf : p'.prog.Follows Budgeting (fun _ _ => True) p'.state)
    (hb : ∀ j, a.world.redis.Balanced j (a.tally j)) (ha : ∀ p ∈ s.procs, p.state.Agrees a.world.redis)
    (hp : p'.state.Agrees a.world.redis) :
    Accounted { world := a, procs := s.procs.set i p' ++ (semantics faults).forks c } where
  follows  := by
    intro r hm
    obtain hm | hm := List.mem_append.mp hm
    · obtain hm | rfl := Apart.mem_of_mem_set hm
      · exact h.follows r (List.mem_of_mem_eraseIdx hm)
      · exact hf
    · exact (forks_follow c r hm).right
  balanced := hb
  agrees   := by
    intro r hm
    obtain hm | hm := List.mem_append.mp hm
    · obtain hm | rfl := Apart.mem_of_mem_set hm
      · exact ha r (List.mem_of_mem_eraseIdx hm)
      · exact hp
    · rw [(forks_follow c r hm).left]
      trivial

-- What a call leaves behind, where `q` is the state of the process that makes it.
structure Leaves (s : Budgeters) (q : State) (c : Call) (x : Accounts × c.Resp) : Prop where
  balanced : ∀ j, x.1.world.redis.Balanced j (x.1.tally j)
  agrees   : ∀ p ∈ s.procs, p.state.Agrees x.1.world.redis
  next     : State.Agrees x.1.world.redis (Budgeting.next q c x.2)

theorem leaves_broker {c : BrokerCall} (h : Accounted s) (hq : q.Agrees s.world.world.redis)
    (hc : Budgeting.Allows q (.broker c)) (ha : faults s.world.world.calls ≠ .refused → s.Spares q c)
    (hm : ∃ p ∈ s.procs, p.state = q) : Leaves s q (.broker c) (s.world.exec faults (.broker c)) := by
  have he {r : Redis} {e : Error} (hq : q.Agrees r) : State.Agrees r (Budgeting.next q (.broker c) (.error e)) := by
    cases q
    case leased  => cases c <;> trivial
    case idle    => cases c <;> trivial
    case done    => trivial
    case loaded  => cases c <;> exact hq
    case working => cases c <;> first | exact hq | trivial
  apply Accounts.exec_broker
  case refused  =>
    intro w hw
    refine ⟨?_, ?_, ?_⟩ <;> dsimp only <;> rw [hw]
    · exact h.balanced
    · exact h.agrees
    · exact he hq
  case executed =>
    intro hf w res hw hr
    have ha := ha hf
    have hc' := ha.fair hc hq
    have hg (p) (hp : p ∈ s.procs) : ∀ lease ∈ c.grants (s.world.world.broker.exec s.world.world.redis c).2,
        p.state.holder ≠ some lease := by
      cases c
      case dequeue => exact fun lease hl => ha lease hl p hp
      all_goals exact fun _ hl => nomatch hl
    have hs (p) (hp : p ∈ s.procs) := (h.agrees p hp).exec hc' (hg p hp)
    obtain ⟨p, hp, rfl⟩ := hm
    refine ⟨fun j => ?_, ?_, ?_⟩ <;> dsimp only <;> rw [hw]
    · exact (h.balanced j).exec hc'
    · exact hs
    · obtain rfl | rfl := hr
      · exact he (hs p hp)
      · exact hq.next (hs p hp) (fun j => ⟨_, h.balanced j⟩) hc

theorem leaves_other (h : Accounted s) (hq : q.Agrees s.world.world.redis) (hc : Budgeting.Allows q c)
    (hb : ∀ c', c ≠ .broker c') : Leaves s q c (s.world.exec faults c) := by
  obtain ⟨hr, ht⟩ := Accounts.exec_other hb
  refine ⟨?_, ?_, ?_⟩ <;> rw [hr]
  · rw [ht]
    exact h.balanced
  · exact h.agrees
  · cases q
    case leased => exact absurd hc (hb _)
    all_goals
      cases c
      case broker c => exact absurd rfl (hb c)
      all_goals exact hq

theorem run (h : Accounted s) (ha : s.Allowed faults (.run i)) :
    Accounted (Pool.step (semantics faults) s (.run i)) := by
  refine Pool.step_run_rule _ h fun c k q hi => ?_
  have hm := List.mem_of_getElem? hi
  have ⟨hc, hn⟩ := h.follows _ hm
  have hf := hn _ ⟨faults, s.world.world, rfl⟩
  have hl : Leaves s q c (s.world.exec faults c) := by
    by_cases hb : ∃ c', c = .broker c'
    case neg => exact h.leaves_other (h.agrees _ hm) hc (by simpa using hb)
    case pos =>
      obtain ⟨c, rfl⟩ := hb
      exact h.leaves_broker (h.agrees _ hm) hc (ha _ hi) ⟨_, hm, rfl⟩
  exact h.call hf hl.balanced hl.agrees hl.next

theorem step (h : Accounted s) (ha : s.Allowed faults l) : Accounted (Pool.step (semantics faults) s l) := by
  cases l
  case run i   => exact h.run ha
  case spawn p =>
    have ⟨hq, op, hp⟩ := ha
    exact h.spawn hq (by rw [hp, hq]; exact op.budgets)

end Accounted
end

-- The job has no more attempts than it may have, and it has failed only if all of them ended without being throttled.
def Kept (s : Budgeters) (j : JobID) : Prop :=
  ∀ h, s.world.world.redis.jobs j = some h → ∃ m, h.maxAttempts = some m ∧ h.attempts ≤ m ∧
    (h.state = .failed → (s.world.tally j).ended = m)

theorem Accounted.kept {s : Budgeters} {j : JobID} (h : Accounted s) (ht : (s.world.tally j).throttled = 0) :
    s.Kept j := by
  intro x hx
  obtain ⟨_, m, hb⟩ := (h.balanced j).hash x hx
  refine ⟨m, hb.max, hb.bounded ht, fun hs => ?_⟩
  obtain ⟨ha, hm⟩ := hb.failed hs
  have hl := hb.bounded ht
  omega

instance {job : Job} : Decidable job.Fresh :=
  decidable_of_iff (job.attempts = 0 ∧ 0 < job.maxAttempts ∧ job.leaseToken = "" ∧ job.state.waits)
    ⟨fun ⟨ha, hm, hl, hw⟩ => ⟨ha, hm, hl, hw⟩, fun h => ⟨h.attempts, h.max, h.unleased, h.waits⟩⟩

instance Spares.decidable {s : Budgeters} {q : State} : (c : BrokerCall) → Decidable (s.Spares q c)
  | .enqueue ..          => inferInstanceAs (Decidable (_ ∨ _))
  | .retry job _         => inferInstanceAs (Decidable ((s.world.world.redis.jobs job.id).isSome = true))
  | .activateDue ..      => inferInstanceAs (Decidable (∀ j ∈ _, _))
  | .dequeue ..          => inferInstanceAs (Decidable (∀ lease ∈ _, ∀ p ∈ s.procs, _))
  | .loadJob ..          => .isTrue trivial
  | .heartbeat ..        => .isTrue trivial
  | .complete ..         => .isTrue trivial
  | .fail ..             => .isTrue trivial
  | .requeueThrottled .. => .isTrue trivial
  | .recoverExpired ..   => .isTrue trivial
  | .cancelLoaded ..     => .isTrue trivial

instance Allowed.decidable {faults : Nat → Fault} {s : Budgeters} {i : Nat} : Decidable (s.Allowed faults (.run i)) :=
  have (p : Proc Budgeting (Except Error Unit)) : Decidable (match p.prog with
      | .call (.broker c) _ => faults s.world.world.calls ≠ .refused → s.Spares p.state c
      | _                   => True) :=
    match p.prog with
    | .ret _                   => .isTrue trivial
    | .call .now _             => .isTrue trivial
    | .call (.heartbeats ..) _ => .isTrue trivial
    | .call (.repo _) _        => .isTrue trivial
    | .call (.limiter _) _     => .isTrue trivial
    | .call (.broker _) _      => inferInstanceAs (Decidable (_ → _))
  inferInstanceAs (Decidable (∀ p ∈ s.procs[i]?, _))

namespace Sample

-- A call takes a second.
def world : World where
  broker   := .sample
  clock    := {
    time calls := .ofUnixMilli (1700000000000 + 1000 * calls)
    mono m n h := by simp [Time.ofUnixMilli]; omega
  }
  calls    := 0
  redis    := .empty
  postgres := .empty
  limits   := .empty

def worker (workerID : WorkerID) : Runtime where
  workerID          := workerID
  queues            := ["default"]
  leaseTTL          := 30 * Duration.second
  heartbeatInterval := 10 * Duration.second
  baseRetryDelay    := 5 * Duration.second
  maxRetryDelay     := 15 * Duration.minute
  limited           := true

def policy : RateLimitPolicy where
  id            := "policy-1"
  name          := "one in fifteen seconds"
  scope         := .global
  scopeValue    := ""
  mode          := .rate
  limit         := 1
  windowSeconds := 15
  enabled       := true

def submit (jobID : JobID) : Operation :=
  .enqueueJob .sample { JobRequest.plain "email.send" with maxAttempts := 1 } jobID

-- There is no handler, and so the attempt fails.
def work (workerID : WorkerID) : Operation :=
  .work (worker workerID) [policy] fun _ => none

def activate : Operation :=
  .activateDue { activationBatchSize := 100, recoveryBatchSize := 100 }

def launch (op : Operation) : Label :=
  .spawn ⟨op.program, .idle⟩

def turns (count i : Nat) : List Label :=
  (List.replicate count i).map .run

def step : Budgeters → Label → Budgeters :=
  Pool.step (semantics fun _ => .none)

-- Two jobs may be attempted once, and the second of them fails.
def failing : List Label :=
  launch (submit "job-1") :: turns 4 0 ++ launch (submit "job-2") :: turns 4 1 ++
  launch (work "worker-1") :: turns 13 2

-- Meanwhile, the first one is throttled, and is leased again.
def throttling : List Label :=
  failing ++ launch (work "worker-2") :: turns 10 3 ++ launch activate :: turns 4 4 ++
  launch (work "worker-3") :: turns 2 5

theorem allowed {s : Budgeters} {op : Operation} {count i : Nat}
    (ht : Run.Guarded (fun s j => step s (.run j)) (fun s j => s.Allowed (fun _ => .none) (.run j)) (step s (launch op))
      (List.replicate count i)) :
    Run.Guarded step (Allowed fun _ => .none) s (launch op :: turns count i) :=
  ⟨⟨rfl, op, rfl⟩, Run.Guarded.map.mpr ht⟩

theorem failing_allowed : Run.Guarded step (Allowed fun _ => .none) (start world) failing := by
  refine Run.Guarded.append.mpr ⟨Run.Guarded.append.mpr ⟨?_, ?_⟩, ?_⟩
  · exact allowed (by decide +kernel)
  · exact allowed (by decide +kernel)
  · exact allowed (by decide +kernel)

theorem throttling_allowed : Run.Guarded step (Allowed fun _ => .none) (start world) throttling := by
  refine Run.Guarded.append.mpr ⟨Run.Guarded.append.mpr ⟨Run.Guarded.append.mpr ⟨failing_allowed, ?_⟩, ?_⟩, ?_⟩
  · exact allowed (by decide +kernel)
  · exact allowed (by decide +kernel)
  · exact allowed (by decide +kernel)

end Sample

-- The job has been leased twice although it may be attempted only once.
theorem not_kept_of_throttled :
    Run.Guarded Sample.step (Allowed fun _ => .none) (start Sample.world) Sample.throttling ∧
    ¬(Run.last Sample.step (start Sample.world) Sample.throttling).Kept "job-1" := by
  refine ⟨Sample.throttling_allowed, fun hk => ?_⟩
  have hs : ((Run.last Sample.step (start Sample.world) Sample.throttling).world.world.redis.jobs "job-1").map
      (fun h => (h.attempts, h.maxAttempts)) = some (2, some 1) := by decide +kernel
  obtain ⟨h, hj, he⟩ := Option.map_eq_some_iff.mp hs
  obtain ⟨m, hm, hl, _⟩ := hk h hj
  obtain ⟨ha, hm'⟩ := Prod.ext_iff.mp he
  cases hm.symm.trans hm'
  rw [show h.attempts = 2 from ha] at hl
  exact absurd hl (by decide)

end Budgeters
end JobPlatform
