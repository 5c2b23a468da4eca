import JobPlatform.Library.Apart
import JobPlatform.Queue.Asleep
import JobPlatform.Service.Validation
import JobPlatform.Worker.Precedence

namespace JobPlatform

namespace Postgres

def policies (p : Postgres) (j : JobID) : Option DependencyFailurePolicy :=
  (p.jobs j).map (·.dependencyPolicy)

-- What a job waits for is decided when it is created.
structure Retains (p p' : Postgres) : Prop where
  policies     : ∀ j, p.policies j ≠ none → p'.policies j = p.policies j
  dependencies : ∀ j, p.policies j ≠ none → ∀ u, u ∈ p'.dependenciesOf j ↔ u ∈ p.dependenciesOf j

variable {p p' : Postgres} {job : Job} {j : JobID} {dependencies : List JobID} {c : RepoCall} {f : Job → Job}

theorem Retains.refl : p.Retains p :=
  ⟨fun _ _ => rfl, fun _ _ _ => .rfl⟩

theorem Retains.of_jobs (hp : p'.policies = p.policies) (hd : p'.dependencies = p.dependencies) : p.Retains p' :=
  ⟨fun j _ => congrFun hp j, fun j _ _ => by rw [dependenciesOf_congr hd]⟩

theorem Inserted.retains (h : Inserted job dependencies p p') : p.Retains p' := by
  have hj (j : JobID) (hn : p.policies j ≠ none) : j ≠ job.id := by
    intro hj
    exact hn (by rw [hj, Postgres.policies, h.absent]; rfl)
  refine ⟨fun j hn => ?_, fun j hn u => ?_⟩
  · rw [Postgres.policies, h.jobs, Function.update_of_ne (hj j hn)]
    rfl
  · simp [h.mem_dependenciesOf, hj j hn]

theorem updateJob_retains (hf : ∀ row, (f row).dependencyPolicy = row.dependencyPolicy) :
    p.Retains (p.updateJob j f) := by
  refine .of_jobs ?_ rfl
  funext k
  unfold policies
  rw [updateJob_jobs]
  split
  case isTrue  => simp [Function.comp_def, hf]
  case isFalse => rfl

theorem exec_retains : p.Retains (p.exec c).1 := by
  cases c
  case createJobBundle          =>
    exact createJobBundle_rule (Q := fun p' => p.Retains p') .refl fun _ hs => (storeTx_inserted hs).retains
  case createJobWithIdempotency =>
    refine createJobWithIdempotency_rule (Q := fun p' => p.Retains p') .refl fun _ hs => ?_
    have hr := (storeTx_inserted hs).retains
    exact ⟨hr.policies, hr.dependencies⟩
  case upsertJobAttempt         =>
    unfold exec upsertJobAttempt
    dsimp only
    split <;> exact .of_jobs rfl rfl
  case upsertDeadLetter         =>
    unfold exec upsertDeadLetter
    dsimp only
    split <;> exact .of_jobs rfl rfl
  all_goals first | exact updateJob_retains fun _ => rfl | exact .of_jobs rfl rfl

-- A job is stored with its policy and its dependencies.
theorem createJobBundle_inserted (h : (p.createJobBundle job dependencies).2 = .ok ()) :
    Inserted job dependencies p (p.createJobBundle job dependencies).1 := by
  rw [createJobBundle_eq, transaction] at h ⊢
  cases hs : storeTx job dependencies p
  case error => rw [hs] at h; cases h
  case ok p' => exact storeTx_inserted hs

theorem createJobWithIdempotency_inserted {dedupeWindow : Duration} {result : EnqueueResult}
    (h : (p.createJobWithIdempotency job dependencies dedupeWindow).2 = .ok result)
    (hd : result.duplicateSuppressed = false) : result.job = job ∧
    Inserted job dependencies p (p.createJobWithIdempotency job dependencies dedupeWindow).1 := by
  by_cases hx : ∀ record ∈ p.idempotency (idempotencyScope job.tenantID job.type job.idempotencyKey),
    record.expiresAt ≤ job.createdAt
  case pos =>
    rw [createJobWithIdempotency_expired hx, transaction] at h ⊢
    cases hs : storeTx job dependencies p
    case error => rw [hs] at h; cases h
    case ok p' =>
      rw [hs] at h
      cases h
      have hi := storeTx_inserted hs
      exact ⟨rfl, hi.absent, hi.jobs, hi.edges, hi.known⟩
  case neg =>
    simp only [not_forall, not_le] at hx
    obtain ⟨existing, he, hx⟩ := hx
    rw [createJobWithIdempotency_unexpired he hx] at h
    cases hj : p.jobs existing.jobID
    case none   => rw [hj] at h; cases h
    case some _ => rw [hj] at h; cases h; cases hd

-- A new job which is not blocked does not wait for any other.
theorem Inserted.free (h : Inserted job dependencies p p') (hp : p.Relational) (hb : Preceding.Blocks job dependencies) :
    p'.policies job.id ≠ none ∧ (job.state ≠ .blocked → ∀ u, u ∉ p'.dependenciesOf job.id) := by
  refine ⟨by simp [Postgres.policies, h.jobs], fun hs u hu => ?_⟩
  obtain hu | ⟨_, hm, hn⟩ := h.mem_dependenciesOf.mp hu
  · exact hp.dependenciesOf_absent h.absent hu
  · exact hn (hb.resolve_left hs u hm)

theorem getJob_states (h : p.getJob j = .ok job) : p.states j = some job.state := by
  unfold getJob at h
  split at h
  case h_1 hj => cases h; simp [states, hj]
  case h_2    => cases h

theorem Relational.listed {job : Job} (hp : p.Relational) (h : job ∈ p.listDependentJobs j) :
    p.policies job.id = some job.dependencyPolicy := by
  obtain ⟨e, _, _, he⟩ := mem_listDependentJobs.mp h
  rw [hp.keyed _ _ he, policies, he]
  rfl

end Postgres

-- A call that is refused does not change anything.
theorem World.tryExec_effect (faults : Nat → Fault) (w : World) (c : Call) :
    (w.tryExec faults c).1 = { w with calls := w.calls + 1 } ∨
    faults w.calls ≠ .refused ∧ (w.tryExec faults c).1 = (w.exec c).1 := by
  by_cases hf : faults w.calls = .refused
  case neg =>
    refine (w.tryExec_cases faults c).imp_right fun he => ⟨hf, he⟩
  case pos =>
    unfold tryExec
    rw [hf]
    cases c <;> exact .inl rfl

-- An operator puts a job into its queue, or cancels it, before it has been released.
def Call.Forces (r : Redis) (j : JobID) : Call → Prop
  | broker (.retry job _)           => job.id = j ∧ r.Asleep j
  | broker (.cancelLoaded jobID ..) => jobID = j ∧ r.Asleep j
  | _                               => False

-- The world, the states in which each row has been so far, and the jobs which operators have not let wait.
structure Annals where
  world  : World
  seen   : JobID → JobState → Prop
  forced : JobID → Prop

namespace Annals

def exec (faults : Nat → Fault) (a : Annals) (c : Call) : Annals × c.Resp :=
  let (world, res) := a.world.tryExec faults c
  ({
    world
    seen   := fun j s => a.seen j s ∨ world.postgres.states j = some s
    forced := fun j => a.forced j ∨ faults a.world.calls ≠ .refused ∧ c.Forces a.world.redis j
  }, res)

-- Each dependency of the job has been in a state in which its policy lets it run.
def Served (a : Annals) (j : JobID) : Prop :=
  ∃ policy, a.world.postgres.policies j = some policy ∧
  ∀ u ∈ a.world.postgres.dependenciesOf j, ∃ s, a.seen u s ∧ policy.accepts s

-- Nothing that has been written down is forgotten.
structure Extends (a a' : Annals) : Prop where
  retains : a.world.postgres.Retains a'.world.postgres
  seen    : ∀ j s, a.seen j s → a'.seen j s
  forced  : ∀ j, a.forced j → a'.forced j

-- What a process has found out about the dependents that it handles.
def Knows (a : Annals) : Preceding.State → Prop
  | .idle                     => True
  | .created j s              => a.world.postgres.policies j ≠ none ∧
    (s ≠ .blocked → ∀ u, u ∉ a.world.postgres.dependenciesOf j)
  | .listed dependents        => ∀ d ∈ dependents, a.world.postgres.policies d.1 = some d.2
  | .checking d awaited rest  => a.world.postgres.policies d.1 = some d.2 ∧
    (∀ u ∈ a.world.postgres.dependenciesOf d.1, u ∈ awaited ∨ ∃ s, a.seen u s ∧ d.2.accepts s) ∧
    ∀ d ∈ rest, a.world.postgres.policies d.1 = some d.2

variable {faults : Nat → Fault} {a a' : Annals} {c : Call} {j : JobID} {q : Preceding.State}
         {d : Preceding.Dependent} {rest : List Preceding.Dependent}

theorem exec_extends : a.Extends (a.exec faults c).1 where
  retains := by
    show a.world.postgres.Retains (a.world.tryExec faults c).1.postgres
    obtain he | he := World.tryExec_cases faults a.world c
    · exact he ▸ .refl
    · rw [he]
      cases c
      case repo c => exact Postgres.exec_retains
      all_goals exact .refl
  seen    := fun _ _ => .inl
  forced  := fun _ => .inl

theorem Served.extend (h : a.Served j) (he : a.Extends a') : a'.Served j := by
  obtain ⟨policy, hp, hd⟩ := h
  have hn : a.world.postgres.policies j ≠ none := by simp [hp]
  refine ⟨policy, (he.retains.policies j hn).trans hp, fun u hu => ?_⟩
  obtain ⟨s, hs, ha⟩ := hd u ((he.retains.dependencies j hn u).mp hu)
  exact ⟨s, he.seen u s hs, ha⟩

theorem Knows.extend (h : a.Knows q) (he : a.Extends a') : a'.Knows q := by
  have hp {j : JobID} {policy : DependencyFailurePolicy} (hj : a.world.postgres.policies j = some policy) :
      a'.world.postgres.policies j = some policy :=
    (he.retains.policies j (by simp [hj])).trans hj
  cases q
  case idle     => trivial
  case created  =>
    obtain ⟨hn, hf⟩ := h
    refine ⟨by rwa [he.retains.policies _ hn], fun hs u hu => hf hs u ?_⟩
    exact (he.retains.dependencies _ hn u).mp hu
  case listed   => exact fun d hd => hp (h d hd)
  case checking =>
    obtain ⟨hd, hu, hr⟩ := h
    refine ⟨hp hd, fun u hm => ?_, fun d hm => hp (hr d hm)⟩
    have hm := (he.retains.dependencies _ (by simp [hd]) u).mp hm
    exact (hu u hm).imp_right fun ⟨s, hs, ha⟩ => ⟨s, he.seen u s hs, ha⟩

theorem Knows.pending (h : a.Knows q) : ∀ d ∈ q.pending, a.world.postgres.policies d.1 = some d.2 := by
  cases q
  case listed   => exact h
  case checking => exact h.right.right
  all_goals exact fun _ hd => nomatch hd

theorem Knows.insert {c : RepoCall} {job : Job} {dependencies : List JobID}
    (hi : Postgres.Inserted job dependencies a.world.postgres (a.world.postgres.exec c).1)
    (hw : (a.world.tryExec faults (.repo c)).1.postgres = (a.world.postgres.exec c).1)
    (hp : a.world.postgres.Relational) (hb : Preceding.Blocks job dependencies) :
    (a.exec faults (.repo c)).1.Knows (.created job.id job.state) := by
  have hf := hi.free hp hb
  rw [← hw] at hf
  exact hf

-- What a process remembers after a call is what it has found out.
theorem Knows.next (h : a.Knows q) (hp : a.world.postgres.Relational)
    (hs : ∀ j s, a.world.postgres.states j = some s → a.seen j s) (hc : Preceding.Allows q c) :
    (a.exec faults c).1.Knows (Preceding.next q c (a.exec faults c).2) := by
  have h' : (a.exec faults c).1.Knows q := h.extend exec_extends
  have hr : (a.exec faults c).2 = (a.world.tryExec faults c).2 := rfl
  cases c
  case broker c =>
    cases c
    case enqueue =>
      cases q
      case created  => trivial
      case checking => exact h'.right.right
      all_goals exact hc.elim
    all_goals cases q <;> exact h'
  case repo c   =>
    cases c
    case createJobBundle job dependencies =>
      obtain ⟨rfl, hb⟩ : q = .idle ∧ Preceding.Blocks job dependencies := by cases q <;> exact hc
      cases he : (a.exec faults (.repo (.createJobBundle job dependencies))).2
      case error => trivial
      case ok u  =>
        obtain ⟨hw, hx⟩ := World.tryExec_repo (hr.symm.trans he)
        exact Knows.insert (Postgres.createJobBundle_inserted hx) hw hp hb
    case createJobWithIdempotency job dependencies dedupeWindow =>
      obtain ⟨rfl, hb⟩ : q = .idle ∧ Preceding.Blocks job dependencies := by cases q <;> exact hc
      cases he : (a.exec faults (.repo (.createJobWithIdempotency job dependencies dedupeWindow))).2
      case error     => trivial
      case ok result =>
        obtain ⟨hw, hx⟩ := World.tryExec_repo (hr.symm.trans he)
        rw [Preceding.next_createJobWithIdempotency]
        split
        case isTrue     => trivial
        case isFalse hd =>
          obtain ⟨hj, hi⟩ := Postgres.createJobWithIdempotency_inserted hx (by simpa using hd)
          rw [hj]
          exact Knows.insert hi hw hp hb
    case listDependentJobs j =>
      obtain rfl : q = .idle := by cases q <;> first | rfl | cases hc
      cases he : (a.exec faults (.repo (.listDependentJobs j))).2
      case error   => trivial
      case ok jobs =>
        obtain ⟨_, hx⟩ := World.tryExec_repo (hr.symm.trans he)
        cases hx
        rintro d hd
        obtain ⟨job, hj, rfl⟩ := List.mem_map.mp hd
        have hj := hp.listed (List.mem_of_mem_filter hj)
        exact (exec_extends.retains.policies _ (by simp [hj])).trans hj
    case listDependencies j =>
      obtain ⟨policy, rest, hq⟩ : ∃ policy rest, q.pending = (j, policy) :: rest := by cases q <;> exact hc
      have hd := h.pending _ (hq ▸ List.mem_cons_self)
      have hr' (d) (hd : d ∈ rest) := h'.pending d (hq ▸ List.mem_cons_of_mem _ hd)
      rw [Preceding.next_listDependencies hq]
      cases he : (a.exec faults (.repo (.listDependencies j))).2
      case error           => exact hr'
      case ok dependencies =>
        obtain ⟨hw, hx⟩ := World.tryExec_repo (hr.symm.trans he)
        cases hx
        refine ⟨h'.pending _ (hq ▸ List.mem_cons_self), fun u hu => .inl ?_, hr'⟩
        have hu : u ∈ (a.world.tryExec faults (.repo (.listDependencies j))).1.postgres.dependenciesOf j := hu
        rw [hw] at hu
        exact hu
    case getJob j =>
      cases q
      case checking d awaited rest =>
        obtain ⟨awaited, rfl⟩ := hc
        cases he : (a.exec faults (.repo (.getJob j))).2
        case error  => exact h'.right.right
        case ok job =>
          rw [Preceding.next_getJob]
          split
          case isFalse   => exact h'.right.right
          case isTrue ha =>
            obtain ⟨hw, hx⟩ := World.tryExec_repo (hr.symm.trans he)
            refine ⟨h'.left, fun u hu => ?_, h'.right.right⟩
            obtain hm | hm := h'.right.left u hu
            · obtain rfl | hm := List.mem_cons.mp hm
              · exact .inr ⟨job.state, .inl (hs u _ (Postgres.getJob_states hx)), ha⟩
              · exact .inl hm
            · exact .inr hm
      all_goals exact h'
    all_goals cases q <;> exact h'
  all_goals cases q <;> exact h'

end Annals

-- The processes of the platform, and what has happened so far.
abbrev Preceders :=
  Pool Preceding (Except Error Unit) Annals

namespace Preceders

abbrev Label :=
  Pool.Label Preceding (Except Error Unit)

def semantics (faults : Nat → Fault) : Pool.Semantics Preceding (Except Error Unit) Annals where
  exec  := Annals.exec faults
  forks := (platform Preceding fun _ _ => .idle).forks

def start (w : World) : Preceders where
  world := {
    world  := { w with redis := .empty, postgres := .empty }
    seen   := fun _ _ => False
    forced := fun _ => False
  }
  procs := []

-- Procedures are started at any time, and take turns in any order.
def Launched : Label → Prop
  | .spawn p => p.state = .idle ∧ ∃ op : Operation, p.prog = op.program
  | .run _   => True

-- Each job is asleep unless it has been served, or an operator has not let it wait.
structure Ordered (s : Preceders) : Prop where
  follows    : ∀ p ∈ s.procs, p.prog.Follows Preceding (fun _ _ => True) p.state
  knows      : ∀ p ∈ s.procs, s.world.Knows p.state
  relational : s.world.world.postgres.Relational
  recorded   : ∀ j state, s.world.world.postgres.states j = some state → s.world.seen j state
  released   : ∀ j, s.world.world.redis.Asleep j ∨ s.world.Served j ∨ s.world.forced j

section

variable {faults : Nat → Fault} {s : Preceders} {w : World} {a : Annals} {i : Nat} {l : Label} {j : JobID} {c : Call}
         {q : Preceding.State} {p p' : Proc Preceding (Except Error Unit)}

theorem forks_follow (c : Call) : ∀ p ∈ (semantics faults).forks c,
    p.state = .idle ∧ p.prog.Follows Preceding (fun _ _ => True) p.state := by
  cases c
  case heartbeats =>
    intro p hp
    rw [List.mem_singleton.mp hp]
    refine ⟨rfl, .bind ?_⟩
    exact (Runtime.follows_of_works Preceding.works Runtime.heartbeatLoop_works).mono fun _ _ _ => trivial
  all_goals exact fun p hp => nomatch hp

namespace Ordered

theorem start : Ordered (start w) where
  follows    := by simp [Preceders.start]
  knows      := by simp [Preceders.start]
  relational := ⟨fun _ _ h => (nomatch h), fun _ h => (nomatch h)⟩
  recorded   := fun _ _ h => (nomatch h)
  released _ := .inl ⟨fun _ h => (nomatch h), rfl, rfl⟩

theorem spawn (h : Ordered s) (hq : p.state = .idle) (hf : p.prog.Follows Preceding (fun _ _ => True) p.state) :
    Ordered { s with procs := s.procs ++ [p] } where
  follows    := by simpa [or_imp, forall_and] using ⟨h.follows, hf⟩
  knows      := by simpa [or_imp, forall_and, hq, Annals.Knows] using h.knows
  relational := h.relational
  recorded   := h.recorded
  released   := h.released

-- A job is woken up only by the process that has found all of its dependencies finished, or by an operator.
theorem wakes {c : BrokerCall} (hq : s.world.Knows q) (hc : Preceding.Allows q (.broker c))
    (hj : s.world.world.redis.Asleep j) : c.Spares j ∨ s.world.Served j ∨ (Call.broker c).Forces s.world.world.redis j ∨
    (s.world.world.broker.exec s.world.world.redis c).1.Asleep j := by
  cases c
  case enqueue job now =>
    cases q
    case created i state     =>
      obtain ⟨rfl, rfl, ht⟩ := hc
      by_cases hb : job.state = .blocked
      case pos => exact .inl fun _ => ⟨hb, ht⟩
      case neg =>
        by_cases hi : job.id = j
        case neg => exact .inl fun he => absurd he hi
        case pos =>
          subst hi
          obtain ⟨policy, hp⟩ := Option.ne_none_iff_exists'.mp hq.left
          exact .inr (.inl ⟨policy, hp, fun u hu => absurd hu (hq.right hb u)⟩)
    case checking d awaited rest =>
      obtain ⟨hi, rfl⟩ := hc
      by_cases hj : job.id = j
      case neg => exact .inl fun he => absurd he hj
      case pos =>
        obtain ⟨hp, hu, _⟩ := hq
        rw [← hi, hj] at hp hu
        exact .inr (.inl ⟨d.2, hp, fun u hm => (hu u hm).resolve_left List.not_mem_nil⟩)
    all_goals exact hc.elim
  case retry job now       =>
    by_cases hi : job.id = j
    case pos => exact .inr (.inr (.inl ⟨hi, hj⟩))
    case neg => exact .inr (.inr (.inr (hj.of_unchanged (RedisBroker.retry_unchanged (Ne.symm hi)))))
  case cancelLoaded i job now =>
    by_cases hi : i = j
    case pos => exact .inr (.inr (.inl ⟨hi, hj⟩))
    case neg => exact .inr (.inr (.inr (hj.of_unchanged (RedisBroker.cancelLoaded_unchanged (Ne.symm hi)))))
  case complete         => exact .inl (by cases q <;> exact hc)
  case fail             => exact .inl (by cases q <;> exact hc)
  case requeueThrottled => exact .inl (by cases q <;> exact hc)
  all_goals exact .inl trivial

theorem releases (h : Ordered s) (hq : s.world.Knows q) (hc : Preceding.Allows q c) (j : JobID) :
    let a := (s.world.exec faults c).1
    a.world.redis.Asleep j ∨ a.Served j ∨ a.forced j := by
  have he : s.world.Extends (s.world.exec faults c).1 := Annals.exec_extends
  obtain hj | hj | hj := h.released j
  case inr.inl => exact .inr (.inl (hj.extend he))
  case inr.inr => exact .inr (.inr (he.forced j hj))
  case inl     =>
    have hw : (s.world.exec faults c).1.world = (s.world.world.tryExec faults c).1 := rfl
    obtain hr | ⟨hf, hr⟩ := World.tryExec_effect faults s.world.world c
    case inl => exact .inl (by rw [hw, hr]; exact hj)
    case inr =>
      cases c
      case broker c =>
        have hx : (s.world.exec faults (.broker c)).1.world.redis = (s.world.world.broker.exec s.world.world.redis c).1 := by
          rw [hw, hr]
          rfl
        obtain hs | hs | hs | hs := wakes hq hc hj
        · exact .inl (hx ▸ hj.exec hs)
        · exact .inr (.inl (hs.extend he))
        · exact .inr (.inr (.inr ⟨hf, hs⟩))
        · exact .inl (hx ▸ hs)
      all_goals exact .inl (by rw [hw, hr]; exact hj)

theorem run (h : Ordered s) : Ordered (Pool.step (semantics faults) s (.run i)) := by
  refine Pool.step_run_rule _ h fun c k q hi => ?_
  have hm := List.mem_of_getElem? hi
  have ⟨hc, hn⟩ := h.follows _ hm
  have hq := h.knows _ hm
  refine ⟨?_, ?_, ?_, fun _ _ => .inr, h.releases hq hc⟩
  · intro r hm
    obtain hm | hm := List.mem_append.mp hm
    · obtain hm | rfl := Apart.mem_of_mem_set hm
      · exact h.follows r (List.mem_of_mem_eraseIdx hm)
      · exact hn _ ⟨faults, s.world.world, rfl⟩
    · exact (forks_follow c r hm).right
  · intro r hm
    obtain hm | hm := List.mem_append.mp hm
    · obtain hm | rfl := Apart.mem_of_mem_set hm
      · exact (h.knows r (List.mem_of_mem_eraseIdx hm)).extend Annals.exec_extends
      · exact hq.next h.relational h.recorded hc
    · rw [(forks_follow c r hm).left]
      trivial
  · show (s.world.world.tryExec faults c).1.postgres.Relational
    obtain he | he := World.tryExec_cases faults s.world.world c
    · exact he ▸ h.relational
    · rw [he]
      cases c
      case repo c => exact Postgres.exec_relational h.relational
      all_goals exact h.relational

theorem step (h : Ordered s) (hl : Launched l) : Ordered (Pool.step (semantics faults) s l) := by
  cases l
  case run i   => exact h.run
  case spawn p =>
    have ⟨hq, op, hp⟩ := hl
    exact h.spawn hq (by rw [hp, hq]; exact op.precedes)

end Ordered
end

-- The broker does not keep the job blocked.
def Released (s : Preceders) (j : JobID) : Prop :=
  ∃ h, s.world.world.redis.jobs j = some h ∧ (h.state = .blocked → h.leaseToken ≠ "")

-- What the job waits for has been finished.
def Served (s : Preceders) (j : JobID) : Prop :=
  s.world.Served j

-- An operator has not let the job wait.
def Forced (s : Preceders) (j : JobID) : Prop :=
  s.world.forced j

theorem Ordered.precedes {s : Preceders} {j : JobID} (h : Ordered s) (hj : s.Released j) : s.Served j ∨ s.Forced j := by
  obtain ⟨x, hx, hr⟩ := hj
  refine (h.released j).resolve_left fun ha => ?_
  have ⟨hb, ht⟩ := ha.blocked x hx
  exact hr hb ht

-- A job is released only after all of its dependencies have been finished as its policy wants it, unless an operator
-- does not let it wait.
theorem served_of_released {faults : Nat → Fault} {w : World} {ls : List Label} (hl : ∀ l ∈ ls, Launched l) (j : JobID) :
    let s : Preceders := Run.last (Pool.step (semantics faults)) (start w) ls
    s.Released j → s.Served j ∨ s.Forced j := by
  have hg := Run.Guarded.of_forall (Pool.step (semantics faults)) (start w) hl
  have hs := hg.invariant (fun _ _ => Ordered.step) Ordered.start
  exact hs.precedes

namespace Sample

def submit (jobID : JobID) (dependencies : List JobID) : Operation :=
  .enqueueJob .sample { JobRequest.plain "email.send" with dependencies } jobID

def worker (workerID : WorkerID) : Runtime where
  workerID          := workerID
  queues            := ["default"]
  leaseTTL          := 30 * Duration.second
  heartbeatInterval := 10 * Duration.second
  baseRetryDelay    := 5 * Duration.second
  maxRetryDelay     := 15 * Duration.minute
  limited           := false

-- The handler returns without a result.
def work (workerID : WorkerID) : Operation :=
  .work (worker workerID) [] fun _ => some { rounds := 0, result := .ok "" }

def launch (op : Operation) : Label :=
  .spawn ⟨op.program, .idle⟩

def turns (count i : Nat) : List Label :=
  (List.replicate count i).map .run

-- The second worker does not learn that it has marked its job as completed.
def faults : Nat → Fault
  | 36 => .lost
  | _  => .none

def step : Preceders → Label → Preceders :=
  Pool.step (semantics faults)

-- A job waits for two others.
def successive : List Label :=
  launch (submit "job-1" []) :: turns 4 0 ++ launch (submit "job-2" []) :: turns 4 1 ++
  launch (submit "job-3" ["job-1", "job-2"]) :: turns 4 2 ++
  launch (work "worker-1") :: turns 17 3 ++ launch (work "worker-2") :: turns 19 5

theorem launched {op : Operation} : Launched (launch op) :=
  ⟨rfl, op, rfl⟩

theorem launched_turns {count i : Nat} : ∀ l ∈ turns count i, Launched l := by
  intro l hl
  have ⟨_, _, he⟩ := List.mem_map.mp hl
  exact he ▸ trivial

theorem successive_launched : ∀ l ∈ successive, Launched l := by
  simp only [successive, List.forall_mem_append, List.forall_mem_cons, and_assoc]
  exact ⟨launched, launched_turns, launched, launched_turns, launched, launched_turns, launched, launched_turns,
    launched, launched_turns⟩

end Sample

theorem Sample.successive_released : (Run.last Sample.step (start .sample) Sample.successive).Released "job-3" := by
  have hs : ((Run.last Sample.step (start .sample) Sample.successive).world.world.redis.jobs "job-3").map (·.state) =
      some .queued := by decide +kernel
  obtain ⟨h, hj, hs⟩ := Option.map_eq_some_iff.mp hs
  exact ⟨h, hj, fun hb => absurd (hs.symm.trans hb) (by decide)⟩

theorem served_of_released_sample : let s := Run.last Sample.step (start .sample) Sample.successive
    s.Served "job-3" ∨ s.Forced "job-3" :=
  served_of_released Sample.successive_launched "job-3" Sample.successive_released

end Preceders
end JobPlatform
