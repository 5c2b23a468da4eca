import JobPlatform.Library.Apart
import JobPlatform.System.Platform
import JobPlatform.Worker.Wakeups

namespace JobPlatform

-- The processes that submit jobs and work on them.
abbrev Resolvers :=
  Pool Waking (Except Error Unit) World

namespace Resolvers

open Waking (State)

abbrev Label :=
  Pool.Label Waking (Except Error Unit)

abbrev semantics : Pool.Semantics Waking (Except Error Unit) World :=
  platform Waking fun _ _ => .beating

def start (w : World) : Resolvers where
  world := { w with redis := .empty, postgres := .empty }
  procs := []

-- Jobs are submitted, and workers are started, at any time.
def Launches : Operation → Prop
  | .enqueueJob .. => True
  | .work ..       => True
  | _              => False

def Launched : Label → Prop
  | .spawn p => p.state = .idle ∧ ∃ op, Launches op ∧ p.prog = op.program
  | .run _   => True

-- Some process still has to look at the job.
def Attended (procs : List (Proc Waking (Except Error Unit))) (j : JobID) (dependencies : List JobID) : Prop :=
  ∃ p ∈ procs, p.state.Attends j dependencies

-- One of the dependencies is not completed yet, or else a process has completed one of them and still has to
-- look at the job.
def Awaited (s : Resolvers) (j : JobID) (dependencies : List JobID) : Prop :=
  (∃ d ∈ dependencies, s.world.postgres.states d ≠ some .completed) ∨ Attended s.procs j dependencies

-- A job is blocked only as long as it is awaited.
def Spares (s : Resolvers) : Call → Prop
  | .repo (.createJobBundle job dependencies) =>
    job.state = .blocked → s.Awaited job.id (dependencies.filter (· ≠ ""))
  | .repo (.createJobWithIdempotency job dependencies _) =>
    (∀ existing ∈ s.world.postgres.idempotency (idempotencyScope job.tenantID job.type job.idempotencyKey),
      existing.expiresAt ≤ job.createdAt) →
    job.state = .blocked → s.Awaited job.id (dependencies.filter (· ≠ ""))
  | .repo (.markJobQueued job) =>
    job.state = .blocked → s.Awaited job.id (s.world.postgres.dependenciesOf job.id)
  | _ => True

def Allowed (s : Resolvers) : Label → Prop
  | .spawn p => Launched (.spawn p)
  | .run i   => ∀ p ∈ s.procs[i]?, match p.prog with
    | .call c _ => s.Spares c
    | .ret _    => True

-- All processes have ended, apart from heartbeat loops.
def Resting (s : Resolvers) : Prop :=
  ∀ p ∈ s.procs, p.state = .beating ∨ p.prog.isRet

-- Each job that may be released is attended to.
structure Minded (s : Resolvers) : Prop where
  follows    : ∀ p ∈ s.procs, p.prog.Follows Waking (fun _ => Waking.Done) p.state
  relational : s.world.postgres.Relational
  checks     : ∀ p ∈ s.procs, ∀ d deps rest, p.state = .checking d deps rest →
    ∀ u ∈ deps, ⟨d, u⟩ ∈ s.world.postgres.dependencies.edges
  attended   : ∀ j, s.world.postgres.Releasable j → Attended s.procs j (s.world.postgres.dependenciesOf j)

section

variable {procs forks : List (Proc Waking (Except Error Unit))} {p p' : Proc Waking (Except Error Unit)} {i : Nat}
         {j : JobID} {deps deps' : List JobID} {q : State} {w : World}

theorem Attends.congr (hd : ∀ u, u ∈ deps ↔ u ∈ deps') : q.Attends j deps ↔ q.Attends j deps' := by
  cases q
  case completed => exact hd _
  all_goals exact Iff.rfl

theorem Attended.congr (hd : ∀ u, u ∈ deps ↔ u ∈ deps') : Attended procs j deps ↔ Attended procs j deps' :=
  exists_congr fun _ => and_congr_right fun _ => Attends.congr hd

theorem Attended.new (hi : procs[i]? = some p) (hp : p'.state.Attends j deps) :
    Attended (procs.set i p' ++ forks) j deps := by
  have ⟨hl, _⟩ := List.getElem?_eq_some_iff.mp hi
  exact ⟨p', List.mem_append_left _ (List.mem_set hl _), hp⟩

-- A job remains attended to if the process that has made a call still attends to it.
theorem Attended.step (h : Attended procs j deps) (hi : procs[i]? = some p)
    (hp : p.state.Attends j deps → p'.state.Attends j deps) : Attended (procs.set i p' ++ forks) j deps := by
  obtain ⟨r, hr, ha⟩ := h
  obtain ⟨n, hn⟩ := List.mem_iff_getElem?.mp hr
  by_cases he : i = n
  case pos =>
    subst he
    cases hi.symm.trans hn
    exact .new hi (hp ha)
  case neg =>
    refine ⟨r, List.mem_append_left _ ?_, ha⟩
    exact List.mem_of_getElem? ((List.getElem?_set_ne he).trans hn)

end

-- A process turns away from a job only when the job is released.
theorem attends_next {q : State} {c : RepoCall} {w : World} {j : JobID} (hp : w.postgres.Relational)
    (hc : Waking.Allows q (.repo c))
    (hd : ∀ d deps rest, q = .checking d deps rest → ∀ u ∈ deps, ⟨d, u⟩ ∈ w.postgres.dependencies.edges)
    (hr : w.postgres.Releasable j) (hr' : (w.postgres.exec c).1.Releasable j)
    (ha : q.Attends j (w.postgres.dependenciesOf j)) :
    (Waking.next q (.repo c) (w.postgres.exec c).2).Attends j (w.postgres.dependenciesOf j) := by
  cases q
  case idle      => exact ha.elim
  case beating   => exact ha.elim
  case completed u =>
    cases c
    case markJobCompleted     => exact absurd hc.left nofun
    case listDependentJobs u' =>
      cases hc.resolve_left nofun
      have ⟨row, hj, hb⟩ := Option.map_eq_some_iff.mp hr.left
      refine List.mem_map.mpr ⟨row, List.mem_filter.mpr ⟨?_, by simp [hb]⟩, hp.keyed j row hj⟩
      exact Postgres.mem_listDependentJobs.mpr ⟨_, Postgres.mem_dependenciesOf.mp ha, rfl, hj⟩
    all_goals exact ha
  case resolving ds =>
    cases c
    case markJobCompleted   => exact absurd hc.left nofun
    case listDependentJobs  => exact absurd hc nofun
    case listDependencies d =>
      obtain ⟨rest, he⟩ := hc
      cases he
      exact List.mem_cons.mp ha
    all_goals exact ha
  case checking d deps rest =>
    cases c
    case markJobCompleted  => exact absurd hc.left nofun
    case listDependentJobs => exact absurd hc nofun
    case listDependencies  => exact absurd hc nofun
    case getJob u          =>
      have hu : u ∈ deps := hc d deps rest rfl
      obtain rfl | hm := ha
      case inl =>
        have ⟨row, hj, hs⟩ := Option.map_eq_some_iff.mp <| hr.right _ (hd j deps rest rfl u hu) rfl
        have hg : w.postgres.getJob u = .ok row := by simp [Postgres.getJob, hj]
        simp only [Postgres.exec, hg, hs, if_true]
        exact .inl rfl
      case inr =>
        have hn (res : Except Error Job) : Waking.next (.checking d deps rest) (.repo (.getJob u)) res =
            .checking d deps rest ∨
            Waking.next (.checking d deps rest) (.repo (.getJob u)) res = .resolving rest := by
          cases res
          case error  => exact .inr rfl
          case ok row => exact ite_eq_or_eq ..
        obtain he | he := hn (w.postgres.exec (.getJob u)).2
        · rw [he]; exact .inr hm
        · rw [he]; exact hm
    case markJobQueued job =>
      have ⟨hi, hs⟩ := hc.right d deps rest rfl
      refine ha.resolve_left fun he => ?_
      have hb := hr'.left
      rw [(Postgres.exec_marks rfl).left, ← hi.trans he.symm, Function.update_self] at hb
      have ⟨_, _, hb⟩ := Option.map_eq_some_iff.mp hb
      exact hs hb
    all_goals exact ha

section

variable {s : Resolvers} {i : Nat} {c : RepoCall} {q q' : State} {j : JobID} {job : Job} {dependencies : List JobID}
         {k : (Call.repo c).Resp → Program (Except Error Unit)} {forks : List (Proc Waking (Except Error Unit))}
         {p : Proc Waking (Except Error Unit)}

-- A job that is awaited is attended to if all of its dependencies are completed.
theorem Awaited.attended (h : s.Awaited j dependencies)
    (hc : ∀ d ∈ dependencies, s.world.postgres.states d = some .completed) : Attended s.procs j dependencies :=
  h.resolve_left fun ⟨d, hd, hn⟩ => hn (hc d hd)

theorem spares_inserts (hi : Postgres.inserts c = some (job, dependencies)) (ha : s.Spares (.repo c))
    (hn : Postgres.Inserted job dependencies s.world.postgres (s.world.postgres.exec c).1) (hb : job.state = .blocked) :
    s.Awaited job.id (dependencies.filter (· ≠ "")) := by
  cases c
  case createJobBundle => cases hi; exact ha hb
  case createJobWithIdempotency job' dependencies' dedupeWindow =>
    cases hi
    refine ha (fun existing he => ?_) hb
    by_contra hx
    have hr : s.world.postgres.createJobWithIdempotency job dependencies dedupeWindow = _ :=
      Postgres.createJobWithIdempotency_unexpired he (not_le.mp hx)
    have hp : (s.world.postgres.exec (.createJobWithIdempotency job dependencies dedupeWindow)).1 =
        s.world.postgres := by
      refine (congrArg Prod.fst hr).trans ?_
      cases s.world.postgres.jobs existing.jobID <;> rfl
    have hj := congrFun hn.jobs job.id
    rw [hp, hn.absent, Function.update_self] at hj
    cases hj
  all_goals cases hi

-- The calls which insert a job leave the state as it is.
theorem allows_inserts (hi : Postgres.inserts c = some (job, dependencies)) (hc : Waking.Allows q (.repo c)) :
    job.state ≠ .completed ∧ ∀ res, Waking.next q (.repo c) res = q := by
  cases c
  case createJobBundle          => exact ⟨hc.right _ hi, fun _ => by cases q <;> rfl⟩
  case createJobWithIdempotency => exact ⟨hc.right _ hi, fun _ => by cases q <;> rfl⟩
  all_goals cases hi

-- Only one call completes a job, and only one blocks it.
theorem allows_marks (hm : Postgres.marks c = some job) (hc : Waking.Allows q (.repo c)) :
    (job.state = .completed → c = .markJobCompleted job) ∧ (job.state = .blocked → c = .markJobQueued job) := by
  cases c
  case markJobCompleted => cases hm; exact ⟨fun _ => rfl, fun hb => nomatch hc.right.symm.trans hb⟩
  case markJobQueued    => cases hm; exact ⟨fun hs => absurd hs hc.left, fun _ => rfl⟩
  all_goals
    cases hm <;> exact ⟨fun hs => absurd hs (hc.left _ rfl).left, fun hb => absurd hb (hc.left _ rfl).right⟩

-- After each call, the jobs that may be released are attended to.
theorem Minded.attended_exec (h : Minded s) (hi : s.procs[i]? = some ⟨.call (.repo c) k, q⟩) (ha : s.Spares (.repo c))
    (hr : (s.world.postgres.exec c).1.Releasable j) (hp : p.state = Waking.next q (.repo c) (s.world.postgres.exec c).2) :
    Attended (s.procs.set i p ++ forks) j ((s.world.postgres.exec c).1.dependenciesOf j) := by
  have hm := List.mem_of_getElem? hi
  have hc := (h.follows _ hm).left
  -- The job has been there before, with the same dependencies.
  have old (ho : s.world.postgres.Releasable j)
      (hd : ∀ u, u ∈ (s.world.postgres.exec c).1.dependenciesOf j ↔ u ∈ s.world.postgres.dependenciesOf j) :
      Attended (s.procs.set i p ++ forks) j ((s.world.postgres.exec c).1.dependenciesOf j) := by
    refine (Attended.congr hd).mpr <| (h.attended j ho).step hi fun hq => ?_
    rw [hp]
    exact attends_next h.relational hc (h.checks _ hm) ho hr hq
  cases hins : Postgres.inserts c
  case some x =>
    obtain ⟨job, dependencies⟩ := x
    have ⟨hs, hn⟩ := allows_inserts hins hc
    obtain hx | hx := Postgres.exec_inserts (p := s.world.postgres) hins
    case inl => exact old (hx.releasable.mp hr) fun _ => by rw [Postgres.dependenciesOf_congr hx.dependencies]
    case inr =>
      obtain ⟨ho, hj⟩ | ⟨rfl, hb, hc'⟩ := hx.releasable hs hr
      case inl => exact old ho fun _ => by simp [hx.mem_dependenciesOf, hj]
      case inr =>
        have hw := (spares_inserts hins ha hx hb).attended hc'
        have hd (u) : u ∈ (s.world.postgres.exec c).1.dependenciesOf job.id ↔ u ∈ dependencies.filter (· ≠ "") := by
          simp [hx.mem_dependenciesOf, h.relational.dependenciesOf_absent hx.absent]
        exact (Attended.congr hd).mpr <| hw.step hi fun hq => (hp.trans (hn _)).symm ▸ hq
  case none =>
    cases hmk : Postgres.marks c
    case none =>
      have hx := Postgres.exec_rests (p := s.world.postgres) hmk hins
      exact old (hx.releasable.mp hr) fun _ => by rw [Postgres.dependenciesOf_congr hx.dependencies]
    case some job =>
      have hd := Postgres.dependenciesOf_congr (j := j) (Postgres.exec_marks (p := s.world.postgres) hmk).right
      obtain ho | ⟨hs, hu⟩ | ⟨hb, rfl, hc'⟩ := Postgres.releasable_of_marks hmk hr
      case inl         => exact old ho fun _ => by rw [hd]
      case inr.inl     =>
        cases (allows_marks hmk hc).left hs
        exact .new hi (hp ▸ hd ▸ hu)
      case inr.inr     =>
        cases (allows_marks hmk hc).right hb
        rw [hd]
        refine (Awaited.attended (ha hb) hc').step hi fun hq => ?_
        rw [hp]
        cases q
        case checking d deps rest => exact absurd hb (hc.right d deps rest rfl).right
        all_goals exact hq

-- The dependencies of a job do not change while it is checked.
theorem Minded.checks_exec (h : Minded s) (hi : s.procs[i]? = some ⟨.call (.repo c) k, q⟩) {d u : JobID}
    {deps rest : List JobID}
    (hq : Waking.next q (.repo c) (s.world.postgres.exec c).2 = .checking d deps rest) (hu : u ∈ deps) :
    ⟨d, u⟩ ∈ s.world.postgres.dependencies.edges := by
  have old (he : q = .checking d deps rest) : ⟨d, u⟩ ∈ s.world.postgres.dependencies.edges :=
    h.checks _ (List.mem_of_getElem? hi) d deps rest he u hu
  have hc := (h.follows _ (List.mem_of_getElem? hi)).left
  cases c
  case markJobCompleted   => cases q <;> cases hq
  case listDependentJobs  => cases q <;> cases hq
  case listDependencies j =>
    obtain ⟨rest, rfl⟩ := hc
    cases hq
    exact Postgres.mem_dependenciesOf.mp hu
  case getJob j           =>
    cases q
    case checking d' deps' rest' =>
      cases hg : (s.world.postgres.exec (.getJob j)).2
      case error  => rw [hg] at hq; cases hq
      case ok row =>
        have hq : (if row.state = .completed then State.checking d' deps' rest' else .resolving rest') =
            .checking d deps rest := by rw [hg] at hq; exact hq
        split at hq
        case isTrue  => exact old hq
        case isFalse => cases hq
    all_goals exact old hq
  case markJobQueued      =>
    cases q
    case checking => cases hq
    all_goals exact old hq
  all_goals
    cases q <;> exact old hq

theorem edges_exec {e : JobDependency} (he : e ∈ s.world.postgres.dependencies.edges) :
    e ∈ (s.world.postgres.exec c).1.dependencies.edges := by
  cases hins : Postgres.inserts c
  case some x =>
    obtain hx | hx := Postgres.exec_inserts (p := s.world.postgres) hins
    · exact hx.dependencies ▸ he
    · exact (hx.edges e).mpr (.inl he)
  case none =>
    cases hmk : Postgres.marks c
    · exact (Postgres.exec_rests (p := s.world.postgres) hmk hins).dependencies ▸ he
    · exact (Postgres.exec_marks (p := s.world.postgres) hmk).right ▸ he

theorem forks_follow (c : Call) : ∀ p ∈ semantics.forks c,
    p.state = .beating ∧ p.prog.Follows Waking (fun _ => Waking.Done) p.state := by
  cases c
  case heartbeats =>
    intro p hp
    rw [List.mem_singleton.mp hp]
    exact ⟨rfl, Waking.steady (Waking.heartbeatLoop.bind fun _ => trivial) fun _ _ => id⟩
  all_goals exact fun p hp => nomatch hp

end

section

variable {s : Resolvers} {w : World} {i : Nat} {l : Label} {p : Proc Waking (Except Error Unit)}

theorem Launches.follows {op : Operation} (h : Launches op) :
    op.program.Follows Waking (fun _ => Waking.Done) .idle := by
  cases op
  case enqueueJob => exact Waking.steady (Waking.enqueueJob.bind fun _ => trivial) Waking.done_idle
  case work       => exact .bind <| Waking.work.mono fun _ _ hq => hq
  all_goals exact h.elim

namespace Minded

theorem start : Minded (start w) where
  follows      := by simp [Resolvers.start]
  relational   := ⟨(fun _ _ h => nomatch h), fun _ h => nomatch h⟩
  checks       := by simp [Resolvers.start]
  attended j h := nomatch h.left

theorem spawn (h : Minded s) (hq : p.state = .idle) (hf : p.prog.Follows Waking (fun _ => Waking.Done) p.state) :
    Minded { s with procs := s.procs ++ [p] } where
  follows      := by simpa [or_imp, forall_and] using ⟨h.follows, hf⟩
  relational   := h.relational
  checks       := by
    intro r hr d deps rest hd
    obtain hr | hr := List.mem_append.mp hr
    · exact h.checks r hr d deps rest hd
    · cases List.mem_singleton.mp hr
      cases hq.symm.trans hd
  attended j h' := by
    obtain ⟨r, hr, ha⟩ := h.attended j h'
    exact ⟨r, List.mem_append_left _ hr, ha⟩

-- A process makes a call, and goes on to another state.
theorem call {w' : World} {c : Call} (h : Minded s)
    (hf : p.prog.Follows Waking (fun _ => Waking.Done) p.state)
    (hr : w'.postgres.Relational)
    (he : ∀ e ∈ s.world.postgres.dependencies.edges, e ∈ w'.postgres.dependencies.edges)
    (hc : ∀ d deps rest, p.state = .checking d deps rest → ∀ u ∈ deps, ⟨d, u⟩ ∈ s.world.postgres.dependencies.edges)
    (ha : ∀ j, w'.postgres.Releasable j →
      Attended (s.procs.set i p ++ semantics.forks c) j (w'.postgres.dependenciesOf j)) :
    Minded { world := w', procs := s.procs.set i p ++ semantics.forks c } where
  relational := hr
  attended   := ha
  follows    := by
    intro r hm
    obtain hm | hm := List.mem_append.mp hm
    · obtain hm | rfl := Apart.mem_of_mem_set hm
      · exact h.follows r (List.mem_of_mem_eraseIdx hm)
      · exact hf
    · exact (forks_follow c r hm).right
  checks     := by
    intro r hm d deps rest hd u hu
    obtain hm | hm := List.mem_append.mp hm
    · obtain hm | rfl := Apart.mem_of_mem_set hm
      · exact he _ (h.checks r (List.mem_of_mem_eraseIdx hm) d deps rest hd u hu)
      · exact he _ (hc d deps rest hd u hu)
    · cases (forks_follow c r hm).left.symm.trans hd

-- The calls which do not reach the repository change neither its tables nor the state.
theorem call_other {c : Call} {q : State} {k : c.Resp → Program (Except Error Unit)} (h : Minded s)
    (hi : s.procs[i]? = some ⟨.call c k, q⟩)
    (hf : (k (s.world.exec c).2).Follows Waking (fun _ => Waking.Done) (Waking.next q c (s.world.exec c).2))
    (hw : (s.world.exec c).1.postgres = s.world.postgres) (hq : Waking.next q c (s.world.exec c).2 = q) : Minded {
      world := (s.world.exec c).1
      procs := s.procs.set i ⟨k (s.world.exec c).2, Waking.next q c (s.world.exec c).2⟩ ++ semantics.forks c
    } := by
  refine h.call hf (hw ▸ h.relational) (fun _ he => hw ▸ he) ?_ fun j hr => ?_
  · intro d deps rest hd
    exact h.checks _ (List.mem_of_getElem? hi) d deps rest (hq.symm.trans hd)
  · rw [hw] at hr ⊢
    exact (h.attended j hr).step hi fun ha => hq.symm ▸ ha

theorem run (h : Minded s) (ha : s.Allowed (.run i)) : Minded (Pool.step semantics s (.run i)) := by
  refine Pool.step_run_rule _ h fun c k q hi => ?_
  have ⟨hc, hn⟩ := h.follows _ (List.mem_of_getElem? hi)
  replace ha : s.Spares c := ha _ hi
  have hf := hn (s.world.exec c).2 ⟨s.world, rfl⟩
  cases c
  case repo c =>
    refine h.call hf (Postgres.exec_relational h.relational) (fun _ => edges_exec) ?_ fun j hr => ?_
    · exact fun d deps rest hd u hu => h.checks_exec hi hd hu
    · exact h.attended_exec hi ha hr rfl
  all_goals exact h.call_other hi hf rfl (by cases q <;> rfl)

theorem step (h : Minded s) (ha : s.Allowed l) : Minded (Pool.step semantics s l) := by
  cases l
  case run i   => exact h.run ha
  case spawn p =>
    have ⟨hq, op, hl, hp⟩ := ha
    exact h.spawn hq (by rw [hp, hq]; exact hl.follows)

end Minded
end

instance {j : JobID} {dependencies : List JobID} : (q : State) → Decidable (q.Attends j dependencies)
  | .idle           => .isFalse id
  | .beating        => .isFalse id
  | .completed u    => inferInstanceAs (Decidable (u ∈ dependencies))
  | .resolving ds   => inferInstanceAs (Decidable (j ∈ ds))
  | .checking d _ r => inferInstanceAs (Decidable (j = d ∨ j ∈ r))

instance Awaited.decidable {s : Resolvers} {j : JobID} {dependencies : List JobID} :
    Decidable (s.Awaited j dependencies) :=
  inferInstanceAs (Decidable (_ ∨ ∃ p ∈ s.procs, p.state.Attends j dependencies))

instance Spares.decidable {s : Resolvers} : (c : Call) → Decidable (s.Spares c)
  | .now                                    => .isTrue trivial
  | .heartbeats ..                          => .isTrue trivial
  | .broker _                               => .isTrue trivial
  | .limiter _                              => .isTrue trivial
  | .repo (.createJobBundle ..)             => inferInstanceAs (Decidable (_ → _))
  | .repo (.createJobWithIdempotency ..)    => inferInstanceAs (Decidable (_ → _))
  | .repo (.markJobQueued ..)               => inferInstanceAs (Decidable (_ → _))
  | .repo (.getJob ..)                      => .isTrue trivial
  | .repo (.markJobActive ..)               => .isTrue trivial
  | .repo (.markJobCompleted ..)            => .isTrue trivial
  | .repo (.markJobRetrying ..)             => .isTrue trivial
  | .repo (.markJobFailed ..)               => .isTrue trivial
  | .repo (.markJobCanceled ..)             => .isTrue trivial
  | .repo (.markJobThrottled ..)            => .isTrue trivial
  | .repo (.updateJobHeartbeat ..)          => .isTrue trivial
  | .repo (.listDependencies ..)            => .isTrue trivial
  | .repo (.listDependentJobs ..)           => .isTrue trivial
  | .repo (.upsertJobAttempt ..)            => .isTrue trivial
  | .repo (.upsertDeadLetter ..)            => .isTrue trivial
  | .repo (.deleteDeadLetters ..)           => .isTrue trivial
  | .repo (.updateIdempotencyOutcome ..)    => .isTrue trivial

instance Allowed.decidable {s : Resolvers} {i : Nat} : Decidable (s.Allowed (.run i)) :=
  match hi : s.procs[i]? with
  | none                => .isTrue fun _ hp => nomatch hi.symm.trans hp
  | some ⟨.ret _, _⟩    => .isTrue fun _ hp => by cases hi.symm.trans hp; trivial
  | some ⟨.call c k, q⟩ => decidable_of_iff (s.Spares c)
    ⟨fun hs _ hp => by cases hi.symm.trans hp; exact hs, fun ha => ha _ hi⟩

namespace Sample

def launch (op : Operation) : Label :=
  .spawn ⟨op.program, .idle⟩

def turns (count i : Nat) : List Label :=
  (List.replicate count i).map .run

def upstream : Operation :=
  .enqueueJob .sample (.plain "email.send") "job-1"

def downstream : Operation :=
  .enqueueJob .sample { JobRequest.plain "email.send" with dependencies := ["job-1"] } "job-2"

def worker : Runtime where
  workerID          := "worker-1"
  queues            := ["default"]
  leaseTTL          := 30 * Duration.second
  heartbeatInterval := 10 * Duration.second
  baseRetryDelay    := 5 * Duration.second
  maxRetryDelay     := 15 * Duration.minute
  limited           := false

-- The handler returns without a result.
def work : Operation :=
  .work worker [] fun _ => some { rounds := 0, result := .ok "" }

def step : Resolvers → Label → Resolvers :=
  Pool.step semantics

-- A job runs after another one has been submitted that waits for it.
def waiting : List Label :=
  launch upstream :: turns 4 0 ++ launch downstream :: turns 4 1 ++ launch work :: turns 18 2

-- The other job is submitted when the first one has already run.
def late : List Label :=
  launch upstream :: turns 4 0 ++ launch work :: turns 18 1 ++ launch downstream :: turns 4 3

theorem launched_turns {count i : Nat} : ∀ l ∈ turns count i, Launched l := by
  intro l hl
  have ⟨_, _, he⟩ := List.mem_map.mp hl
  exact he ▸ trivial

theorem launched {op : Operation} (h : Launches op) : Launched (launch op) :=
  ⟨rfl, op, h, rfl⟩

theorem allowed {s : Resolvers} {op : Operation} {count i : Nat} (h : Launches op)
    (ht : Run.Guarded (fun s j => step s (.run j)) (fun s j => s.Allowed (.run j)) (step s (launch op))
      (List.replicate count i)) :
    Run.Guarded step Allowed s (launch op :: turns count i) :=
  ⟨launched h, Run.Guarded.map.mpr ht⟩

end Sample

end Resolvers
end JobPlatform
