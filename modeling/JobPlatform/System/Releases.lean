import JobPlatform.Library.Apart
import JobPlatform.Queue.Asleep
import JobPlatform.System.Platform
import JobPlatform.Worker.Releases

namespace JobPlatform

theorem Postgres.exec_proceeds_of_steady {p : Postgres} {c : RepoCall} (hc : Releasing.Steady (.repo c)) :
    p.Proceeds (p.exec c).1 := by
  have hi : inserts c = none := by
    cases c
    case createJobBundle          => exact hc.elim
    case createJobWithIdempotency => exact hc.elim
    all_goals rfl
  cases hm : marks c
  case none     => exact (exec_rests hm hi).proceeds
  case some job =>
    refine exec_marks_proceeds hm fun hb => ?_
    have hp : Releasing.Plain c := by
      cases c
      case markJobQueued => exact hc.elim
      all_goals first | exact hc | exact hc.elim
    exact absurd hb (hp job hm)

theorem RedisBroker.spares_of_steady {c : BrokerCall} {j : JobID} (hc : Releasing.Steady (.broker c)) : c.Spares j := by
  cases c
  case enqueue      => exact hc.elim
  case retry        => exact hc.elim
  case cancelLoaded => exact hc.elim
  all_goals exact hc

-- The processes that submit jobs and work on them.
abbrev Releasers :=
  Pool Releasing (Except Error Unit) World

namespace Releasers

open Releasing (State)

abbrev Label :=
  Pool.Label Releasing (Except Error Unit)

abbrev semantics : Pool.Semantics Releasing (Except Error Unit) World :=
  platform Releasing fun _ _ => .idle

def start (w : World) : Releasers where
  world := { w with redis := .empty, postgres := .empty }
  procs := []

-- Jobs are submitted, and workers are started, at any time.
def Launches : Operation → Prop
  | .enqueueJob .. => True
  | .work ..       => True
  | _              => False

def Launched : Label → Prop
  | .spawn p => p.state = .idle ∧ ∃ op, Launches op ∧ p.prog = op.program
  | .run _   => True

-- The row of the job says that it is blocked, and no process is about to change that.
def Unreleased (s : Releasers) (j : JobID) : Prop :=
  s.world.postgres.states j = some .blocked ∧ ∀ p ∈ s.procs, p.state.owes ≠ some j

-- The dependent which a process is about to release, or of which it is about to write why it is blocked.
def touches (p : Proc Releasing (Except Error Unit)) : Option JobID :=
  match p.state, p.prog with
  | .handling .., .call (.broker (.enqueue job _)) _   => some job.id
  | .handling .., .call (.repo (.markJobQueued job)) _ => some job.id
  | _,            _                                    => none

-- A process touches a dependent only as long as the dependent has not been released.
def Allowed (s : Releasers) : Label → Prop
  | .spawn p => Launched (.spawn p)
  | .run i   => ∀ p ∈ s.procs[i]?, ∀ j ∈ touches p, s.Unreleased j

-- The job which is released by a step.
def releases (s : Releasers) : Label → Option JobID
  | .spawn _ => none
  | .run i   =>
    match s.procs[i]? with
    | some ⟨.call (.broker (.enqueue job _)) _, .handling ..⟩ => some job.id
    | _                                                       => none

-- The jobs which are released in a run, in their order.
def released (s : Releasers) : List Label → List JobID
  | []      => []
  | l :: ls => (s.releases l).toList ++ released (Pool.step semantics s l) ls

-- A release does not overwrite anything but a blocked hash.
def Unscathed (s : Releasers) (l : Label) : Prop :=
  ∀ j, s.releases l = some j → s.world.redis.Asleep j

-- The jobs which have been released before remain so. All the others are asleep as long as their rows say so.
structure Guarding (s : Releasers) (gone : List JobID) : Prop where
  follows : ∀ p ∈ s.procs, p.prog.Follows Releasing (fun _ _ => True) p.state
  created : ∀ p ∈ s.procs, ∀ j state, p.state = .created j state →
    s.world.postgres.states j ≠ none ∧ (state ≠ .blocked → s.world.postgres.states j ≠ some .blocked)
  owed    : ∀ p ∈ s.procs, ∀ j, p.state.owes = some j → s.world.postgres.states j ≠ none
  asleep  : ∀ j, s.world.postgres.states j = none ∨ s.Unreleased j → s.world.redis.Asleep j
  gone    : ∀ j ∈ gone, s.world.postgres.states j ≠ none ∧ ¬s.Unreleased j

section

variable {s : Releasers} {w w' : World} {i : Nat} {l : Label} {c : Call} {q : State} {j : JobID}
         {k : c.Resp → Program (Except Error Unit)} {p p' : Proc Releasing (Except Error Unit)}
         {gone gone' : List JobID} {ls : List Label}

theorem Launches.follows {op : Operation} (h : Launches op) :
    op.program.Follows Releasing (fun _ _ => True) .idle := by
  cases op
  case enqueueJob => exact .bind <| Releasing.enqueueJob.mono fun _ _ _ => trivial
  case work       => exact .bind <| Releasing.work.mono fun _ _ _ => trivial
  all_goals exact h.elim

theorem forks_follow (c : Call) : ∀ p ∈ semantics.forks c,
    p.state = .idle ∧ p.prog.Follows Releasing (fun _ _ => True) p.state := by
  cases c
  case heartbeats =>
    intro p hp
    rw [List.mem_singleton.mp hp]
    exact ⟨rfl, Releasing.steady (Releasing.heartbeatLoop.bind fun _ => trivial)⟩
  all_goals exact fun p hp => nomatch hp

namespace Guarding

theorem start : Guarding (start w) [] where
  follows    := by simp [Releasers.start]
  created    := by simp [Releasers.start]
  owed       := by simp [Releasers.start]
  asleep j _ := ⟨(fun _ h => nomatch h), rfl, rfl⟩
  gone       := by simp

theorem spawn (h : Guarding s gone) (hq : p.state = .idle) (hf : p.prog.Follows Releasing (fun _ _ => True) p.state) :
    Guarding { s with procs := s.procs ++ [p] } gone where
  follows     := by simpa [or_imp, forall_and] using ⟨h.follows, hf⟩
  created     := by
    intro r hr j state hs
    obtain hr | hr := List.mem_append.mp hr
    · exact h.created r hr j state hs
    · cases List.mem_singleton.mp hr
      cases hq.symm.trans hs
  owed        := by
    intro r hr j hs
    obtain hr | hr := List.mem_append.mp hr
    · exact h.owed r hr j hs
    · rw [List.mem_singleton.mp hr, hq] at hs
      cases hs
  asleep j hj := by
    exact h.asleep j (hj.imp_right fun hu => ⟨hu.left, fun r hr => hu.right r (List.mem_append_left _ hr)⟩)
  gone j hj   := by
    have ⟨hn, hu⟩ := h.gone j hj
    exact ⟨hn, fun hu' => hu ⟨hu'.left, fun r hr => hu'.right r (List.mem_append_left _ hr)⟩⟩

theorem mono (h : Guarding s gone) (hg : ∀ j ∈ gone', j ∈ gone) : Guarding s gone' :=
  ⟨h.follows, h.created, h.owed, h.asleep, fun j hj => h.gone j (hg j hj)⟩

end Guarding

-- A job that is not released now has not been released before the call.
theorem Unreleased.before {forks : List (Proc Releasing (Except Error Unit))}
    (hu : Unreleased { world := w', procs := s.procs.set i p' ++ forks } j)
    (hi : s.procs[i]? = some ⟨.call c k, q⟩) (hs : s.world.postgres.Proceeds w'.postgres)
    (hl : q.owes = some j → p'.state.owes = some j ∨ w'.postgres.states j ≠ some .blocked)
    (hz : s.world.postgres.states j ≠ none) : s.Unreleased j := by
  have ⟨hb, hn⟩ := hu
  refine ⟨(hs j hz).right hb, fun r hm he => ?_⟩
  have ⟨hlt, _⟩ := List.getElem?_eq_some_iff.mp hi
  obtain ⟨n, hn'⟩ := List.mem_iff_getElem?.mp hm
  by_cases hne : i = n
  case pos =>
    subst hne
    cases hi.symm.trans hn'
    have hp := hn p' (List.mem_append_left _ (List.mem_set hlt _))
    exact (hl he).elim hp fun hb' => hb' hb
  case neg =>
    have hr : r ∈ s.procs.set i p' := List.mem_of_getElem? ((List.getElem?_set_ne hne).trans hn')
    exact hn r (List.mem_append_left _ hr) he

namespace Guarding

-- A process makes a call, and goes on to another state. No row is blocked again, and a process which passes
-- a job to the broker has to mark it before it turns away from it.
theorem call (h : Guarding s gone) (hi : s.procs[i]? = some ⟨.call c k, q⟩)
    (hf : p'.prog.Follows Releasing (fun _ _ => True) p'.state)
    (hs : s.world.postgres.Proceeds w'.postgres)
    (hc : ∀ j state, p'.state = .created j state →
      w'.postgres.states j ≠ none ∧ (state ≠ .blocked → w'.postgres.states j ≠ some .blocked))
    (ho : ∀ j, p'.state.owes = some j → w'.postgres.states j ≠ none)
    (hl : ∀ j, q.owes = some j → p'.state.owes = some j ∨ w'.postgres.states j ≠ some .blocked)
    (hr : ∀ j, s.world.redis.Asleep j → s.world.postgres.states j = none ∨ s.Unreleased j →
      p'.state.owes ≠ some j → w'.redis.Asleep j)
    (hg : ∀ j ∈ gone', j ∈ gone ∨ p'.state.owes = some j) :
    Guarding { world := w', procs := s.procs.set i p' ++ semantics.forks c } gone' where
  follows     := by
    intro r hm
    obtain hm | hm := List.mem_append.mp hm
    · obtain hm | rfl := Apart.mem_of_mem_set hm
      · exact h.follows r (List.mem_of_mem_eraseIdx hm)
      · exact hf
    · exact (forks_follow c r hm).right
  created     := by
    intro r hm j state he
    obtain hm | hm := List.mem_append.mp hm
    · obtain hm | rfl := Apart.mem_of_mem_set hm
      · have ⟨hn, hb⟩ := h.created r (List.mem_of_mem_eraseIdx hm) j state he
        exact ⟨(hs j hn).left, fun hne hb' => hb hne ((hs j hn).right hb')⟩
      · exact hc j state he
    · cases (forks_follow c r hm).left.symm.trans he
  owed        := by
    intro r hm j he
    obtain hm | hm := List.mem_append.mp hm
    · obtain hm | rfl := Apart.mem_of_mem_set hm
      · exact (hs j (h.owed r (List.mem_of_mem_eraseIdx hm) j he)).left
      · exact ho j he
    · rw [(forks_follow c r hm).left] at he
      cases he
  asleep j hj := by
    have hn (hu : Unreleased { world := w', procs := s.procs.set i p' ++ semantics.forks c } j) :
        p'.state.owes ≠ some j := by
      have ⟨hlt, _⟩ := List.getElem?_eq_some_iff.mp hi
      exact hu.right p' (List.mem_append_left _ (List.mem_set hlt _))
    by_cases hz : s.world.postgres.states j = none
    case pos => exact hr j (h.asleep j (.inl hz)) (.inl hz) fun he => hj.elim (ho j he) fun hu => hn hu he
    case neg =>
      have hu := hj.resolve_left (hs j hz).left
      have hu' := hu.before hi hs (hl j) hz
      exact hr j (h.asleep j (.inr hu')) (.inr hu') (hn hu)
  gone j hj   := by
    obtain hj | he := hg j hj
    case inl =>
      have ⟨hz, hn⟩ := h.gone j hj
      exact ⟨(hs j hz).left, fun hu => hn (hu.before hi hs (hl j) hz)⟩
    case inr =>
      have ⟨hlt, _⟩ := List.getElem?_eq_some_iff.mp hi
      exact ⟨ho j he, fun hu => hu.right p' (List.mem_append_left _ (List.mem_set hlt _)) he⟩

-- The calls that may be made at any time neither block a job nor wake one up.
theorem steady (h : Guarding s gone) (hi : s.procs[i]? = some ⟨.call c k, q⟩) (hc : Releasing.Steady c) : Guarding {
      world := (s.world.exec c).1
      procs := s.procs.set i ⟨k (s.world.exec c).2, Releasing.next q c (s.world.exec c).2⟩ ++ semantics.forks c
    } gone := by
  have hm := List.mem_of_getElem? hi
  have hf := (h.follows _ hm).right (s.world.exec c).2 ⟨s.world, rfl⟩
  have hn : Releasing.next q c (s.world.exec c).2 = q := (hc.allowed c).right _
  have hs : s.world.postgres.Proceeds (s.world.exec c).1.postgres := by
    cases c
    case repo c => exact Postgres.exec_proceeds_of_steady hc
    all_goals exact .refl
  have hr (j) (hj : s.world.redis.Asleep j) : (s.world.exec c).1.redis.Asleep j := by
    cases c
    case broker c => exact hj.exec (RedisBroker.spares_of_steady hc)
    all_goals exact hj
  rw [hn] at hf ⊢
  refine h.call hi hf hs ?_ ?_ (fun _ => .inl) (fun j ha _ _ => hr j ha) fun _ => .inl
  · intro j state he
    have ⟨hn, hb⟩ := h.created _ hm j state he
    exact ⟨(hs j hn).left, fun hne hb' => hb hne ((hs j hn).right hb')⟩
  · exact fun j he => (hs j (h.owed _ hm j he)).left

-- A new job is passed to the broker with the state that its row has had.
theorem pass {job : Job} {now : Time} {k : Except Error Unit → Program (Except Error Unit)} {state : JobState}
    (h : Guarding s gone) (hi : s.procs[i]? = some ⟨.call (.broker (.enqueue job now)) k, .created j state⟩) :
    Guarding {
      world := (s.world.exec (.broker (.enqueue job now))).1
      procs := s.procs.set i ⟨k (.ok ()), .idle⟩ ++ []
    } gone := by
  have hm := List.mem_of_getElem? hi
  have ⟨⟨hj, hs, ht⟩, hn⟩ := h.follows _ hm
  have ⟨he, hb⟩ := h.created _ hm _ _ rfl
  have hf := hn (.ok ()) ⟨s.world, rfl⟩
  refine h.call hi hf .refl nofun nofun (fun _ => nofun) (fun j' ha hu _ => ?_) fun _ => .inl
  refine ha.enqueue fun hj' => ⟨?_, ht⟩
  by_contra hne
  rw [← hj'.symm.trans hj] at he hb
  exact hb (hs ▸ hne) (hu.resolve_left he).left

theorem release {job : Job} {now : Time} {k : Except Error Unit → Program (Except Error Unit)} {d : JobID}
    {rest : List JobID} (h : Guarding s gone)
    (hi : s.procs[i]? = some ⟨.call (.broker (.enqueue job now)) k, .handling d rest⟩) (ha : s.Unreleased job.id) :
    Guarding {
      world := (s.world.exec (.broker (.enqueue job now))).1
      procs := s.procs.set i ⟨k (.ok ()), .released d rest⟩ ++ []
    } (job.id :: gone) := by
  have ⟨⟨hj, _⟩, hn⟩ := h.follows _ (List.mem_of_getElem? hi)
  subst hj
  refine h.call hi (hn (.ok ()) ⟨s.world, rfl⟩) .refl nofun ?_ (fun _ => nofun) ?_ ?_
  · intro j hj he
    cases hj
    cases ha.left.symm.trans he
  · exact fun j hj _ ho => hj.enqueue fun hj => absurd (congrArg some hj) ho
  · intro j hj
    exact (List.mem_cons.mp hj).symm.imp_right fun he => congrArg some he.symm

-- A dependent which has been released is not blocked any more when it has been marked.
theorem markJobQueued {job : Job} {k : Except Error Unit → Program (Except Error Unit)} (h : Guarding s gone)
    (hi : s.procs[i]? = some ⟨.call (.repo (.markJobQueued job)) k, q⟩)
    (ha : ∀ j ∈ touches ⟨.call (.repo (.markJobQueued job)) k, q⟩, s.Unreleased j) : Guarding {
      world := (s.world.exec (.repo (.markJobQueued job))).1
      procs := s.procs.set i ⟨k (.ok ()), Releasing.next q (.repo (.markJobQueued job)) (.ok ())⟩ ++ []
    } gone := by
  have ⟨hc, hn⟩ := h.follows _ (List.mem_of_getElem? hi)
  have hf := hn (.ok ()) ⟨s.world, rfl⟩
  cases q
  case handling d rest =>
    have hp := @Postgres.exec_marks_proceeds s.world.postgres job (.markJobQueued job) rfl fun _ => (ha _ rfl).left
    exact h.call hi hf hp nofun nofun (fun _ => nofun) (fun j hj _ _ => hj) fun _ => .inl
  case released d rest =>
    obtain ⟨rfl, hb⟩ := hc
    have hp := @Postgres.exec_marks_proceeds s.world.postgres job (.markJobQueued job) rfl fun hb' => absurd hb' hb
    refine h.call hi hf hp nofun nofun (fun j hj => .inr fun hs => hb ?_) (fun j hj _ _ => hj) fun _ => .inl
    cases hj
    have hs : (s.world.postgres.exec (.markJobQueued job)).1.states job.id = some .blocked := hs
    rw [(Postgres.exec_marks rfl).left, Function.update_self] at hs
    have ⟨_, _, hs⟩ := Option.map_eq_some_iff.mp hs
    exact hs
  all_goals exact hc.elim

-- A process may remember which row it has inserted.
theorem insert {c : RepoCall} {k : (Call.repo c).Resp → Program (Except Error Unit)} {job : Job}
    {dependencies : List JobID} (h : Guarding s gone) (hi : s.procs[i]? = some ⟨.call (.repo c) k, .idle⟩)
    (hc : Postgres.inserts c = some (job, dependencies))
    (hq : ∀ q, Releasing.next .idle (.repo c) (s.world.exec (.repo c)).2 = q → q = .idle ∨
      ∃ j state, q = .created j state ∧ (s.world.postgres.exec c).1.states j = some state) :
    let res := (s.world.exec (.repo c)).2
    Guarding {
      world := (s.world.exec (.repo c)).1
      procs := s.procs.set i ⟨k res, Releasing.next .idle (.repo c) res⟩ ++ []
    } gone := by
  have hf := (h.follows _ (List.mem_of_getElem? hi)).right (s.world.exec (.repo c)).2 ⟨s.world, rfl⟩
  refine h.call hi hf (Postgres.exec_inserts_proceeds hc) ?_ ?_ (fun _ => nofun) (fun j hj _ _ => hj) fun _ => .inl
  · intro j state he
    obtain hq | ⟨j', state', hq, hs⟩ := hq _ rfl
    · cases hq.symm.trans he
    · cases hq.symm.trans he
      have hs : (s.world.exec (.repo c)).1.postgres.states j = some state := hs
      rw [hs]
      exact ⟨nofun, fun hne he => hne (Option.some.inj he)⟩
  · intro j he
    obtain hq | ⟨j', state', hq, _⟩ := hq _ rfl
    · rw [hq] at he; cases he
    · rw [hq] at he; cases he

theorem run (h : Guarding s gone) (ha : s.Allowed (.run i)) : Guarding (Pool.step semantics s (.run i)) gone := by
  refine Pool.step_run_rule (Q := fun s' => Guarding s' gone) _ h fun c k q hi => ?_
  have ⟨hc, hn⟩ := h.follows _ (List.mem_of_getElem? hi)
  cases c
  case broker c =>
    cases c
    case enqueue =>
      cases q
      case created  => exact h.pass hi
      case handling => exact (h.release hi (ha _ hi _ rfl)).mono fun _ => List.mem_cons_of_mem _
      all_goals exact hc.elim
    all_goals exact h.steady hi (by cases q <;> exact hc)
  case repo c   =>
    cases c
    case markJobQueued            => exact h.markJobQueued hi (ha _ hi)
    case createJobBundle job dependencies =>
      obtain rfl : q = .idle := by cases q <;> first | rfl | cases hc
      refine h.insert hi rfl fun q hq => ?_
      cases hr : (s.world.exec (.repo (.createJobBundle job dependencies))).2
      case error => rw [hr] at hq; exact .inl hq.symm
      case ok    => rw [hr] at hq; exact .inr ⟨_, _, hq.symm, Postgres.createJobBundle_states hr⟩
    case createJobWithIdempotency job dependencies dedupeWindow =>
      obtain rfl : q = .idle := by cases q <;> first | rfl | cases hc
      refine h.insert hi rfl fun q hq => ?_
      cases hr : (s.world.exec (.repo (.createJobWithIdempotency job dependencies dedupeWindow))).2
      case error     => rw [hr] at hq; exact .inl hq.symm
      case ok result =>
        rw [hr] at hq
        cases hd : result.duplicateSuppressed
        case true  => exact .inl (hq.symm.trans (if_pos hd))
        case false =>
          have hc : q = .created result.job.id result.job.state := hq.symm.trans (if_neg (by simp [hd]))
          have ⟨hj, hs⟩ := Postgres.createJobWithIdempotency_states hr hd
          exact .inr ⟨_, _, hc, hj ▸ hs⟩
    case listDependentJobs        =>
      obtain rfl : q = .idle := by cases q <;> first | rfl | cases hc
      exact h.call hi (hn _ ⟨s.world, rfl⟩) .refl nofun nofun (fun _ => nofun) (fun j hj _ _ => hj) fun _ => .inl
    case listDependencies         =>
      have hf := hn _ ⟨s.world, rfl⟩
      cases q
      case listed   => exact h.call hi hf .refl nofun nofun (fun _ => nofun) (fun j hj _ _ => hj) fun _ => .inl
      case handling => exact h.call hi hf .refl nofun nofun (fun _ => nofun) (fun j hj _ _ => hj) fun _ => .inl
      all_goals exact absurd hc fun ⟨_, hp⟩ => hp
    all_goals exact h.steady hi (by cases q <;> exact hc)
  all_goals exact h.steady hi (by cases q <;> exact hc)

theorem step (h : Guarding s gone) (ha : s.Allowed l) : Guarding (Pool.step semantics s l) gone := by
  cases l
  case run i   => exact h.run ha
  case spawn p =>
    have ⟨hq, op, hl, hp⟩ := ha
    exact h.spawn hq (by rw [hp, hq]; exact hl.follows)

end Guarding

-- A process that is about to release a job.
theorem releases_eq_some (h : s.releases l = some j) : ∃ i job now k d rest,
    l = .run i ∧ s.procs[i]? = some ⟨.call (.broker (.enqueue job now)) k, .handling d rest⟩ ∧ job.id = j := by
  unfold releases at h
  split at h
  case h_1 => cases h
  case h_2 i =>
    split at h
    case h_2       => cases h
    case h_1 job now k d rest hi =>
      cases h
      exact ⟨i, job, now, k, d, rest, rfl, hi, rfl⟩

-- What is released has not been released before, and is asleep.
theorem Guarding.releases (h : Guarding s gone) (ha : s.Allowed l) (hj : s.releases l = some j) :
    Guarding (Pool.step semantics s l) (j :: gone) ∧ j ∉ gone ∧ s.world.redis.Asleep j := by
  obtain ⟨i, job, now, k, d, rest, rfl, hi, rfl⟩ := releases_eq_some hj
  have hu : s.Unreleased job.id := ha _ hi _ rfl
  refine ⟨?_, fun hm => (h.gone _ hm).right hu, h.asleep _ (.inr hu)⟩
  rw [Pool.step_call semantics hi]
  exact h.release hi hu

theorem Guarding.unscathed (h : Guarding s gone) (ha : s.Allowed l) : Unscathed s l :=
  fun _ hj => (h.releases ha hj).right.right

theorem Guarding.released_nodup (h : Guarding s gone) (hg : Run.Guarded (Pool.step semantics) Allowed s ls) :
    (released s ls).Nodup ∧ ∀ j ∈ released s ls, j ∉ gone := by
  induction ls generalizing s gone
  case nil          => exact ⟨List.nodup_nil, nofun⟩
  case cons l ls hi =>
    obtain ⟨ha, hg⟩ := hg
    unfold released
    cases hj : s.releases l
    case none   => exact hi (h.step ha) hg
    case some j =>
      obtain ⟨hs, hn, _⟩ := h.releases ha hj
      have ⟨hd, hm⟩ := hi hs hg
      refine ⟨List.nodup_cons.mpr ⟨fun hj => hm j hj List.mem_cons_self, hd⟩, ?_⟩
      intro j' hj'
      obtain rfl | hj' := List.mem_cons.mp hj'
      · exact hn
      · exact fun hg => hm j' hj' (List.mem_cons_of_mem _ hg)

end

-- As long as dependents are only touched which have not been released, each job is released at most once, and no
-- release overwrites a hash that is not blocked.
theorem released_once_of_allowed {w : World} {ls : List Label}
    (hg : Run.Guarded (Pool.step semantics) Allowed (start w) ls) :
    (released (start w) ls).Nodup ∧ Run.Guarded (Pool.step semantics) Unscathed (start w) ls := by
  refine ⟨(Guarding.start.released_nodup hg).left, ?_⟩
  have hs : Run.Guarded _ (fun s l => Guarding s [] ∧ s.Allowed l) (start w) ls :=
    hg.strengthen (fun _ _ => Guarding.step) Guarding.start
  exact hs.mono fun s l h => h.left.unscathed h.right

instance {s : Releasers} {j : JobID} : Decidable (s.Unreleased j) :=
  inferInstanceAs (Decidable (_ ∧ ∀ p ∈ s.procs, _))

instance {s : Releasers} {i : Nat} : Decidable (s.Allowed (.run i)) :=
  inferInstanceAs (Decidable (∀ p ∈ s.procs[i]?, ∀ j ∈ touches p, s.Unreleased j))

namespace Sample

def submit (jobID : JobID) (dependencies : List JobID) : Operation :=
  .enqueueJob .sample { JobRequest.plain "email.send" with dependencies } jobID

def worker (workerID : WorkerID) : Runtime where
  workerID          := workerID
  queues            := ["default"]
  leaseTTL          := 30 * Duration.second
  heartbeatInterval := 10 * Duration.second
  baseRetryDelay    := 5 * Duration.second
  maxRetryDelay     := 15 * Duration.minute
  limited           := false

-- The handler returns without a result.
def work (workerID : WorkerID) : Operation :=
  .work (worker workerID) [] fun _ => some { rounds := 0, result := .ok "" }

def launch (op : Operation) : Label :=
  .spawn ⟨op.program, .idle⟩

def turns (count i : Nat) : List Label :=
  (List.replicate count i).map .run

def step : Releasers → Label → Releasers :=
  Pool.step semantics

-- A job waits for two others, on which two workers work.
def submitted : List Label :=
  launch (submit "job-1" []) :: turns 4 0 ++ launch (submit "job-2" []) :: turns 4 1 ++
  launch (submit "job-3" ["job-1", "job-2"]) :: turns 4 2

-- One worker ends before the other one begins.
def successive : List Label :=
  submitted ++ launch (work "worker-1") :: turns 17 3 ++ launch (work "worker-2") :: turns 19 5

-- Both workers have listed the job before one of them releases it, and it is leased before the other one does so
-- again.
def racing : List Label :=
  submitted ++ launch (work "worker-1") :: turns 12 3 ++ launch (work "worker-2") :: turns 16 5 ++
  turns 6 3 ++ launch (work "worker-3") :: turns 5 7

theorem allowed {s : Releasers} {op : Operation} {count i : Nat} (h : Launches op)
    (ht : Run.Guarded (fun s j => step s (.run j)) (fun s j => s.Allowed (.run j)) (step s (launch op))
      (List.replicate count i)) :
    Run.Guarded step Allowed s (launch op :: turns count i) :=
  ⟨⟨rfl, op, h, rfl⟩, Run.Guarded.map.mpr ht⟩

theorem submitted_allowed : Run.Guarded step Allowed (start .sample) submitted := by
  refine Run.Guarded.append.mpr ⟨Run.Guarded.append.mpr ⟨?_, ?_⟩, ?_⟩
  · exact allowed (trivial : Launches (submit "job-1" [])) (by decide +kernel)
  · exact allowed (trivial : Launches (submit "job-2" [])) (by decide +kernel)
  · exact allowed (trivial : Launches (submit "job-3" ["job-1", "job-2"])) (by decide +kernel)

theorem successive_allowed : Run.Guarded step Allowed (start .sample) successive := by
  refine Run.Guarded.append.mpr ⟨Run.Guarded.append.mpr ⟨submitted_allowed, ?_⟩, ?_⟩
  · exact allowed (trivial : Launches (work "worker-1")) (by decide +kernel)
  · exact allowed (trivial : Launches (work "worker-2")) (by decide +kernel)

theorem launched_turns {count i : Nat} : ∀ l ∈ turns count i, Launched l := by
  intro l hl
  have ⟨_, _, he⟩ := List.mem_map.mp hl
  exact he ▸ trivial

theorem launched {op : Operation} (h : Launches op) : Launched (launch op) :=
  ⟨rfl, op, h, rfl⟩

theorem racing_launched : ∀ l ∈ racing ++ [.run 5], Launched l := by
  have submit (jobID : JobID) (dependencies : List JobID) : Launched (launch (submit jobID dependencies)) :=
    launched (trivial : Launches (Sample.submit jobID dependencies))
  have work (workerID : WorkerID) : Launched (launch (work workerID)) :=
    launched (trivial : Launches (Sample.work workerID))
  simp only [racing, submitted, List.forall_mem_append, List.forall_mem_cons, and_assoc]
  exact ⟨submit .., launched_turns, submit .., launched_turns, submit .., launched_turns, work _, launched_turns,
    work _, launched_turns, launched_turns, work _, launched_turns, trivial, List.forall_mem_nil _⟩

end Sample

-- The job is released by the second worker.
theorem released_once_of_allowed_sample :
    (released (start .sample) Sample.successive).Nodup ∧
    Run.Guarded (Pool.step semantics) Unscathed (start .sample) Sample.successive :=
  released_once_of_allowed Sample.successive_allowed

-- The second release overwrites the hash of a job which is leased.
theorem not_released_once_of_racing :
    (∀ l ∈ Sample.racing ++ [.run 5], Launched l) ∧
    ¬(released (start .sample) (Sample.racing ++ [.run 5])).Nodup ∧
    ¬Unscathed (Run.last Sample.step (start .sample) Sample.racing) (.run 5) := by
  refine ⟨Sample.racing_launched, by decide +kernel, fun hu => ?_⟩
  have hj : releases (Run.last Sample.step (start .sample) Sample.racing) (.run 5) = some "job-3" := by decide +kernel
  have hs : ((Run.last Sample.step (start .sample) Sample.racing).world.redis.jobs "job-3").map (·.state) =
      some .active := by decide +kernel
  obtain ⟨h, he, hs⟩ := Option.map_eq_some_iff.mp hs
  cases hs.symm.trans ((hu "job-3" hj).blocked h he).left

end Releasers
end JobPlatform
