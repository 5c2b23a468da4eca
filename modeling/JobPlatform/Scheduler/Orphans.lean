import JobPlatform.Scheduler.Failures

namespace JobPlatform
namespace Scheduler

variable {w w' : World} {f : Request → Fault} {items : List RecoveredLease} {item : RecoveredLease}
         {sch : Scheduler} {j k : JobID} {s : JobState}

def batch (sch : Scheduler) (w : World) : List JobID :=
  RedisBroker.expired sch.recoveryBatchSize w.now.unixMilli w.redis

-- What the script makes of the job `j`.
def recovers (sch : Scheduler) (f : Request → Fault) (w : World) (j : JobID) : Option JobState :=
  if f .recover = .refused then none
  else RedisBroker.verdict (w.broker.reached w.now.unixMilli w.redis (sch.batch w)) w.redis j

def reports (sch : Scheduler) (w : World) : List RecoveredLease :=
  (sch.batch w).filterMap (w.broker.report w.now.unixMilli w.redis)

-- The scheduler gets to tell the database about the job `j`.
def tells (sch : Scheduler) (f : Request → Fault) (w : World) (j : JobID) : Bool :=
  f .recover = .none ∧ ¬(sch.batch w).any (w.broker.aborts w.now.unixMilli w.redis) ∧ reads f j (sch.reports w)

-- The recovery has not been stopped by its script or by one of the items.
structure Unstopped (sch : Scheduler) (f : Request → Fault) (w : World) : Prop where
  recover : f .recover = .none
  script  : (sch.batch w).any (w.broker.aborts w.now.unixMilli w.redis) = false
  items   : ∀ item ∈ sch.reports w, f (.load item.jobID) = .none → item.crashes = false

-- A pass of the recovery in which requests fail as `f` says.
structure Pass (sch : Scheduler) (f : Request → Fault) (w w' : World) : Prop where
  states  : ∀ k, (w'.redis.jobs k).map (·.state) = (w.redis.jobs k).map fun h => (sch.recovers f w k).getD h.state
  keys    : ∀ k, (w'.redis.jobs k).map (·.id) = (w.redis.jobs k).map (·.id)
  leases  : ∀ k, (sch.recovers f w k).isSome → (w'.redis.zsets .activeLeases).score? k = none
  entries : ∀ k, w'.postgres.entry k = (w.postgres.entry k).map fun x =>
    if sch.tells f w k then (w.broker.report w.now.unixMilli w.redis k).elim x (·.noted f x) else x

theorem mem_of_reads (h : reads f j items) : ∃ item ∈ items, item.jobID = j := by
  induction items
  case nil => cases h
  case cons item items hi =>
    rw [reads] at h
    split at h
    case isTrue hj => exact ⟨item, List.mem_cons_self, hj⟩
    case isFalse   =>
      obtain ⟨item', hm, hj⟩ := hi (of_decide_eq_true h).right
      exact ⟨item', List.mem_cons_of_mem _ hm, hj⟩

theorem script_reachesAll (sch : Scheduler) (w : World) :
    RedisBroker.ReachesAll w.broker w.now.unixMilli (sch.batch w) w.redis
      (w.broker.recoverExpiredLua sch.recoveryBatchSize w.now.unixMilli w.redis) :=
  RedisBroker.recoverAll_reachesAll SortedSet.rangeByScore_nodup RedisBroker.mem_expired_leased

theorem Pass.of_script {x : Redis × Except Error (List RecoveredLease)} (hf : f .recover ≠ .refused)
    (hx : RedisBroker.ReachesAll w.broker w.now.unixMilli (sch.batch w) w.redis x) (hr : w'.redis = x.1)
    (he : ∀ k, w'.postgres.entry k = (w.postgres.entry k).map fun x =>
      if sch.tells f w k then (w.broker.report w.now.unixMilli w.redis k).elim x (·.noted f x) else x) :
    Pass sch f w w' where
  states k   := by rw [hr, recovers, if_neg hf, hx.states]
  keys k     := by rw [hr, hx.keys]
  entries    := he
  leases k h := by
    rw [recovers, if_neg hf, RedisBroker.verdict] at h
    rw [hr]
    split at h
    case isTrue hm => exact hx.leases k hm
    case isFalse   => cases h

-- The jobs that the script reports are stored as it has left them.
theorem stored_of_reaches {x : Redis × Except Error (List RecoveredLease)} (hk : ∀ j h, w.redis.jobs j = some h → h.id = j)
    (ha : (sch.batch w).any (w.broker.aborts w.now.unixMilli w.redis) = false)
    (hx : RedisBroker.ReachesAll w.broker w.now.unixMilli (sch.batch w) w.redis x) (hr : w'.redis = x.1)
    (hm : item ∈ sch.reports w) : ∃ h, Stored w' item h := by
  obtain ⟨hb, hi⟩ := RedisBroker.mem_reports.mp hm
  obtain ⟨h, hj, hi⟩ := Option.map_eq_some_iff.mp hi
  have hs := hx.states item.jobID
  have hid := hx.keys item.jobID
  have hv : RedisBroker.verdict (sch.batch w) w.redis item.jobID = some item.state := by
    rw [RedisBroker.verdict, if_pos hb, hj, ← hi]
    rfl
  rw [RedisBroker.reached_eq ha, hj, hv] at hs
  rw [hj] at hid
  obtain ⟨h', hj', hs⟩ := Option.map_eq_some_iff.mp hs
  rw [hj', Option.map_some, Option.map_some, Option.some_inj] at hid
  have he : item.state = RedisBroker.recoveredState h := by rw [← hi]
  exact ⟨h', hr ▸ hj', hid.trans (hk _ h hj), hs, he ▸ recoveredState_cases h⟩

theorem failing_recoverExpired {limit : Int} {now : Time} : w.failing f (.broker (.recoverExpired limit now)) =
    match f .recover with
    | .none    => w.exec (.broker (.recoverExpired limit now))
    | .refused => ({ w with calls := w.calls + 1 }, .error .unavailable)
    | .lost    => ((w.exec (.broker (.recoverExpired limit now))).1, .error .unavailable) := by
  unfold World.failing World.tryExec
  simp only [Call.request?, Call.failure?, Option.elim_some]
  cases f .recover <;> rfl

theorem recoverExpired_pass (hk : ∀ j h, w.redis.jobs j = some h → h.id = j) :
    Pass sch f w (sch.recoverExpired.run (World.failing f) w).1 ∧
    ((sch.recoverExpired.run (World.failing f) w).2 = .ok () → Unstopped sch f w) := by
  have hx := script_reachesAll sch w
  have told (hf : f .recover ≠ .none ∨ (sch.batch w).any (w.broker.aborts w.now.unixMilli w.redis)) (k : JobID) :
      w.postgres.entry k = (w.postgres.entry k).map fun x =>
        if sch.tells f w k then (w.broker.report w.now.unixMilli w.redis k).elim x (·.noted f x) else x := by
    have ht : sch.tells f w k = false := by
      cases hf
      case inl hf => simp [tells, hf]
      case inr hf => simp [tells, hf]
    simp [ht]
  have hn : w.failing f .now = ({ w with calls := w.calls + 1 }, w.now) := rfl
  rw [recoverExpired_eq, Prog.run_call, hn, Prog.run_call, failing_recoverExpired]
  cases hf : f .recover
  case refused =>
    refine ⟨?_, fun h => by cases h⟩
    exact {
      states k   := by simp [recovers, hf]
      keys k     := rfl
      leases k h := by simp [recovers, hf] at h
      entries    := told <| .inl (by simp [hf])
    }
  case lost => exact ⟨.of_script (by simp [hf]) hx rfl <| told <| .inl (by simp [hf]), fun h => by cases h⟩
  case none =>
    have hr := hx.result
    simp only [World.exec_broker, RedisBroker.exec]
    generalize w.broker.recoverExpiredLua sch.recoveryBatchSize w.now.unixMilli w.redis = x at hx hr ⊢
    obtain ⟨r', res⟩ := x
    cases ha : (sch.batch w).any (w.broker.aborts w.now.unixMilli w.redis)
    case true =>
      rw [ha] at hr
      cases hr
      exact ⟨.of_script (by simp [hf]) hx rfl <| told <| .inr ha, fun h => by cases h⟩
    case false =>
      rw [ha] at hr
      cases hr
      have hi : ∀ item ∈ sch.reports w, ∃ h, Stored { w with calls := w.calls + 1 + 1, redis := r' } item h :=
        fun item hm => stored_of_reaches hk ha hx rfl hm
      obtain ⟨hl, hc⟩ := @markRecovered_learns _ f _ (RedisBroker.reports_nodup SortedSet.rangeByScore_nodup) hi
      refine ⟨.of_script (by simp [hf]) hx hl.redis fun k => ?_, fun h => ⟨hf, ha, hc h⟩⟩
      have ht : sch.tells f w k = reads f k (sch.reports w) := by simp [tells, hf, ha]
      rw [ht]
      by_cases hm : ∃ item ∈ sch.reports w, item.jobID = k
      case pos =>
        obtain ⟨item, hm', hj⟩ := hm
        subst hj
        obtain ⟨_, hi⟩ := RedisBroker.mem_reports.mp hm'
        rw [hi]
        exact hl.listed item hm'
      case neg =>
        have hr : reads f k (sch.reports w) = false := eq_false_of_ne_true fun hr => hm (mem_of_reads hr)
        simp only [not_exists, not_and] at hm
        rw [hr]
        exact (hl.others k hm).trans Option.map_id'.symm

-- The report on the job `j` does not crash the scheduler.
def isReportable (w : World) (j : JobID) : Bool :=
  (w.broker.report w.now.unixMilli w.redis j).all (¬·.crashes)

-- What the database says of a job that is recovered with the state `s`.
def informed (sch : Scheduler) (f : Request → Fault) (w : World) (j : JobID) (s : JobState) (x : JobState × Bool) :
    JobState × Bool :=
  (if sch.tells f w j ∧ isReportable w j ∧ f (.mark j) ≠ .refused then s else x.1,
    x.2 || (s = .failed ∧ sch.tells f w j ∧ f (.bury j) ≠ .refused))

theorem report_of_recovers (h : sch.recovers f w j = some s) : f .recover ≠ .refused ∧ j ∈ sch.batch w ∧
    ∃ item, w.broker.report w.now.unixMilli w.redis j = some item ∧ item.jobID = j ∧ item.state = s := by
  unfold recovers at h
  split at h
  case isTrue     => cases h
  case isFalse hf =>
    unfold RedisBroker.verdict at h
    split at h
    case isFalse    => cases h
    case isTrue hm  =>
      have ⟨h, hj, hs⟩ := Option.map_eq_some_iff.mp h
      exact ⟨hf, RedisBroker.mem_of_mem_reached hm, _, by rw [RedisBroker.report, hj]; rfl, rfl, hs⟩

theorem recovers_cases (h : sch.recovers f w j = some s) : s = .canceled ∨ s = .retrying ∨ s = .failed := by
  have ⟨_, _, item, hi, _, hs⟩ := report_of_recovers h
  have ⟨h, _, hi⟩ := Option.map_eq_some_iff.mp hi
  rw [← hs, ← hi]
  exact recoveredState_cases h

theorem tells_eq_false (h : sch.recovers f w j = none) : sch.tells f w j = false := by
  refine eq_false_of_ne_true fun ht => ?_
  have ⟨hf, ha, hr⟩ := of_decide_eq_true ht
  have ⟨item, hm, hj⟩ := mem_of_reads hr
  have ⟨hb, hi⟩ := RedisBroker.mem_reports.mp hm
  have ⟨h', hj', _⟩ := Option.map_eq_some_iff.mp hi
  rw [hj] at hb hj'
  simp only [recovers, hf, RedisBroker.reached_eq (eq_false_of_ne_true ha), RedisBroker.verdict, if_pos hb, hj'] at h
  cases h

namespace Pass

theorem entry_of_none (h : Pass sch f w w') (hr : sch.recovers f w j = none) :
    w'.postgres.entry j = w.postgres.entry j := by
  rw [h.entries, tells_eq_false hr]
  exact Option.map_id'

theorem entry_of_some (h : Pass sch f w w') (hr : sch.recovers f w j = some s) :
    w'.postgres.entry j = (w.postgres.entry j).map (sch.informed f w j s) := by
  have ⟨_, _, item, hi, hj, hs⟩ := report_of_recovers hr
  rw [h.entries, hi]
  refine congrArg (Option.map · _) (funext fun x => ?_)
  unfold informed isReportable
  rw [hi]
  cases sch.tells f w j
  case false => simp
  case true  => by_cases hc : item.crashes <;> by_cases hm : f (.mark j) = .refused <;>
    simp [RecoveredLease.noted, hj, hs, hc, hm]

end Pass

-- Without failures the scheduler gets to all the jobs that the script has recovered.
theorem reads_of_harmless (hc : ∀ item ∈ items, item.crashes = false) (hm : ∃ item ∈ items, item.jobID = j) :
    reads (fun _ => .none) j items := by
  induction items
  case nil => simp at hm
  case cons item items hi =>
    have ⟨hc, hcs⟩ := List.forall_mem_cons.mp hc
    rw [reads]
    split
    case isTrue     => rfl
    case isFalse hj =>
      have hm : ∃ item ∈ items, item.jobID = j := by simpa [hj] using hm
      simp [hc, hi hcs hm]

theorem Unstopped.informed {x : JobState × Bool} (h : Unstopped sch (fun _ => .none) w)
    (hr : sch.recovers (fun _ => .none) w j = some s) :
    sch.informed (fun _ => .none) w j s x = (s, x.2 || s = .failed) := by
  have ⟨_, hb, item, hi, hj, _⟩ := report_of_recovers hr
  have hm : item ∈ sch.reports w := RedisBroker.mem_reports.mpr ⟨hj ▸ hb, hj ▸ hi⟩
  have hc {item} (hm : item ∈ sch.reports w) : item.crashes = false := h.items item hm rfl
  have ht : sch.tells (fun _ => .none) w j = true := by
    simp [tells, h.script, reads_of_harmless (fun _ => hc) ⟨item, hm, hj⟩]
  simp [Scheduler.informed, ht, isReportable, hi, hc hm]

theorem failing_none : World.failing (fun _ => .none) = World.exec := by
  funext w c
  unfold World.failing World.tryExec
  cases c.request? <;> rfl

-- The job `j` has come to the state `s` in the broker.
structure Turns (j : JobID) (s : JobState) (w w' : World) : Prop where
  before : (w.redis.jobs j).map (·.state) ≠ some s
  after  : (w'.redis.jobs j).map (·.state) = some s

-- The database has followed the jobs whose leases have expired.
structure Followed (w w' : World) : Prop where
  failed   : ∀ j, Turns j .failed w w' →
    (∃ row, w'.postgres.jobs j = some row ∧ row.state = .failed) ∧ (w'.postgres.deadLetters j).isSome
  retrying : ∀ j, Turns j .retrying w w' → ∀ row, w'.postgres.jobs j = some row → row.state ≠ .active
  canceled : ∀ j, Turns j .canceled w w' → ∀ row, w'.postgres.jobs j = some row → row.state ≠ .active

-- The database need not be told about a job that is recovered with the state `s`, or it is told.
structure Survives (sch : Scheduler) (f : Request → Fault) (w : World) (j : JobID) (s : JobState) (row : Job) : Prop where
  marked : (if s = .failed then row.state = .failed else row.state ≠ .active) ∨
    sch.tells f w j ∧ isReportable w j ∧ f (.mark j) ≠ .refused
  buried : s = .failed → (w.postgres.deadLetters j).isSome ∨ sch.tells f w j ∧ f (.bury j) ≠ .refused

-- No job is left behind by a pass in which requests fail as `f` says.
def Survivable (sch : Scheduler) (f : Request → Fault) (w : World) : Prop :=
  ∀ j s h row, w.redis.jobs j = some h → w.postgres.jobs j = some row → sch.recovers f w j = some s → h.state ≠ s →
    sch.Survives f w j s row

-- What the database has to say about a job that has come to the state `s`.
def Follows (s : JobState) (x : JobState × Bool) : Prop :=
  if s = .failed then x.1 = .failed ∧ x.2 else x.1 ≠ .active

theorem survives_iff {row : Job} (hs : s ≠ .active) :
    Follows s (sch.informed f w j s (row.state, (w.postgres.deadLetters j).isSome)) ↔ sch.Survives f w j s row := by
  unfold Follows informed
  by_cases hf : s = .failed
  case pos =>
    subst hf
    simp only [if_true]
    constructor
    case mp =>
      intro ⟨hm, hb⟩
      constructor
      case marked =>
        by_cases hc : sch.tells f w j ∧ isReportable w j ∧ f (.mark j) ≠ .refused
        case pos => exact .inr hc
        case neg => exact .inl <| by simpa [hc] using hm
      case buried => exact fun _ => by simpa using hb
    case mpr =>
      intro h
      constructor
      · cases h.marked
        case inl hm => simpa using fun _ => hm
        case inr hc => simp [hc]
      · simpa using h.buried rfl
  case neg =>
    simp only [hf, if_false]
    constructor
    case mp =>
      intro hm
      refine ⟨?_, fun h => absurd h hf⟩
      by_cases hc : sch.tells f w j ∧ isReportable w j ∧ f (.mark j) ≠ .refused
      case pos => exact .inr hc
      case neg => exact .inl <| by simpa [hf, hc] using hm
    case mpr =>
      intro h
      split
      case isTrue  => exact hs
      case isFalse hc => simpa [hf] using h.marked.resolve_right hc

theorem followed_iff_follows (hr : ∀ j, (w'.redis.jobs j).isSome → (w'.postgres.jobs j).isSome) :
    Followed w w' ↔ ∀ j s, s = .canceled ∨ s = .retrying ∨ s = .failed → Turns j s w w' →
      ∀ x, w'.postgres.entry j = some x → Follows s x := by
  constructor
  case mp =>
    intro h j s hs ht x hx
    obtain ⟨row, hj, hx⟩ := Option.map_eq_some_iff.mp hx
    rw [← hx]
    rcases hs with rfl | rfl | rfl
    · exact h.canceled j ht row hj
    · exact h.retrying j ht row hj
    · obtain ⟨⟨row', hj', hs⟩, hd⟩ := h.failed j ht
      rw [hj] at hj'
      exact ⟨Option.some.inj hj' ▸ hs, hd⟩
  case mpr =>
    intro h
    have entry {j row} (hj : w'.postgres.jobs j = some row) :
        w'.postgres.entry j = some (row.state, (w'.postgres.deadLetters j).isSome) := by
      rw [Postgres.entry, hj]
      rfl
    constructor
    case failed =>
      intro j ht
      have hj : (w'.redis.jobs j).isSome := by
        obtain ⟨_, hj, _⟩ := Option.map_eq_some_iff.mp ht.after
        rw [hj]
        rfl
      obtain ⟨row, hj⟩ := Option.isSome_iff_exists.mp <| hr j hj
      have hx : _ ∧ _ := h j .failed (.inr <| .inr rfl) ht _ (entry hj)
      exact ⟨⟨row, hj, hx.left⟩, hx.right⟩
    case retrying => exact fun j ht row hj => h j .retrying (.inr <| .inl rfl) ht _ (entry hj)
    case canceled => exact fun j ht row hj => h j .canceled (.inl rfl) ht _ (entry hj)

theorem Pass.keyed (p : Pass sch f w w') (hk : ∀ j h, w.redis.jobs j = some h → h.id = j) {h : JobHash}
    (hj : w'.redis.jobs j = some h) : h.id = j := by
  have hi := p.keys j
  rw [hj] at hi
  have ⟨h', hj', hi⟩ := Option.map_eq_some_iff.mp hi.symm
  exact hi.symm.trans <| hk j h' hj'

-- A pass that does not fail, after one in which requests have failed.
structure Passes (sch sch' : Scheduler) (f : Request → Fault) (w w₁ w₂ w₃ : World) : Prop where
  first     : Pass sch f w w₁
  redis     : w₂.redis = w₁.redis
  postgres  : w₂.postgres = w₁.postgres
  second    : Pass sch' (fun _ => .none) w₂ w₃
  unstopped : Unstopped sch' (fun _ => .none) w₂

namespace Passes

variable {sch' : Scheduler} {w₁ w₂ w₃ : World}

-- The later pass does not find a job that has been recovered by the first one.
theorem recovers_eq_none (p : Passes sch sch' f w w₁ w₂ w₃) (hr : sch.recovers f w j = some s) :
    sch'.recovers (fun _ => .none) w₂ j = none := by
  by_contra hn
  have ⟨t, ht⟩ := Option.ne_none_iff_exists'.mp hn
  have ⟨_, hb, _⟩ := report_of_recovers ht
  have hl := RedisBroker.mem_expired_leased j hb
  rw [p.redis, p.first.leases j (hr ▸ rfl)] at hl
  cases hl

theorem state_eq (p : Passes sch sch' f w w₁ w₂ w₃) {h : JobHash} (hj : w.redis.jobs j = some h) :
    (w₃.redis.jobs j).map (·.state) =
      some ((sch'.recovers (fun _ => .none) w₂ j).getD <| (sch.recovers f w j).getD h.state) := by
  have hs := p.first.states j
  rw [hj, Option.map_some] at hs
  have ⟨h', hj', hs⟩ := Option.map_eq_some_iff.mp hs
  rw [p.second.states, p.redis, hj', Option.map_some, hs]

theorem rows_exist (p : Passes sch sch' f w w₁ w₂ w₃)
    (hr : ∀ j, (w.redis.jobs j).isSome → (w.postgres.jobs j).isSome) (hj : (w₃.redis.jobs j).isSome) :
    (w₃.postgres.jobs j).isSome := by
  have row {w : World} : (w.postgres.entry j).isSome = (w.postgres.jobs j).isSome := Option.isSome_map
  have hash {w w' : World} (h : (w'.redis.jobs j).map (·.id) = (w.redis.jobs j).map (·.id)) :
      (w'.redis.jobs j).isSome = (w.redis.jobs j).isSome := by
    simpa using congrArg Option.isSome h
  rw [hash <| p.second.keys j, p.redis, hash <| p.first.keys j] at hj
  rw [← row, p.second.entries, Option.isSome_map, p.postgres, p.first.entries, Option.isSome_map, row]
  exact hr j hj

theorem entry_of_first (p : Passes sch sch' f w w₁ w₂ w₃) (hr : sch.recovers f w j = some s) :
    w₃.postgres.entry j = (w.postgres.entry j).map (sch.informed f w j s) := by
  rw [p.second.entry_of_none (p.recovers_eq_none hr), p.postgres, p.first.entry_of_some hr]

theorem entry_of_second (p : Passes sch sch' f w w₁ w₂ w₃) (hr : sch.recovers f w j = none)
    (hs : sch'.recovers (fun _ => .none) w₂ j = some s) :
    w₃.postgres.entry j = (w.postgres.entry j).map fun x => (s, x.2 || s = .failed) := by
  rw [p.second.entry_of_some hs, p.postgres, p.first.entry_of_none hr]
  exact congrArg (Option.map · _) <| funext fun x => p.unstopped.informed hs

theorem followed_iff_survivable (p : Passes sch sch' f w w₁ w₂ w₃)
    (hr : ∀ j, (w.redis.jobs j).isSome → (w.postgres.jobs j).isSome) : Followed w w₃ ↔ sch.Survivable f w := by
  rw [followed_iff_follows fun j => p.rows_exist hr]
  have ended {s : JobState} (hs : s = .canceled ∨ s = .retrying ∨ s = .failed) : s ≠ .active := by
    rintro rfl
    simp at hs
  constructor
  case mp =>
    intro hw j s h row hj hrow hs hn
    have he : w₃.postgres.entry j = some (sch.informed f w j s (row.state, (w.postgres.deadLetters j).isSome)) := by
      rw [p.entry_of_first hs, Postgres.entry, hrow]
      rfl
    have ht : Turns j s w w₃ := by
      constructor
      case before => simp [hj, hn]
      case after  => rw [p.state_eq hj, p.recovers_eq_none hs, hs]; rfl
    have hs := recovers_cases hs
    exact (survives_iff <| ended hs).mp <| hw j s hs ht _ he
  case mpr =>
    intro hv j s hs ht x hx
    have ha := ht.after
    cases hj : w.redis.jobs j
    case none =>
      have hk := (p.second.keys j).trans <| p.redis ▸ p.first.keys j
      obtain ⟨h, hj', _⟩ := Option.map_eq_some_iff.mp ha
      simp [hj, hj'] at hk
    case some h =>
      have hb : h.state ≠ s := fun he => ht.before <| by rw [hj, Option.map_some, he]
      rw [p.state_eq hj, Option.some_inj] at ha
      cases hr₁ : sch.recovers f w j
      case some t =>
        rw [p.recovers_eq_none hr₁, hr₁] at ha
        have ha : t = s := ha
        subst ha
        obtain ⟨row, hrow⟩ := Option.isSome_iff_exists.mp <| hr j (hj ▸ rfl)
        rw [p.entry_of_first hr₁, Postgres.entry, hrow] at hx
        cases hx
        exact (survives_iff <| ended hs).mpr <| hv j t h row hj hrow hr₁ hb
      case none =>
        rw [hr₁] at ha
        cases hr₂ : sch'.recovers (fun _ => .none) w₂ j
        case none =>
          rw [hr₂] at ha
          exact absurd ha hb
        case some t =>
          rw [hr₂] at ha
          have ha : t = s := ha
          subst ha
          obtain ⟨y, _, hx⟩ := Option.map_eq_some_iff.mp <| (p.entry_of_second hr₁ hr₂).symm.trans hx
          rw [← hx, Follows]
          split
          case isTrue hf  => simp [hf]
          case isFalse    => exact ended hs

end Passes

-- After a pass in which requests fail, one that succeeds does nothing for the jobs of the former.
theorem followed_iff {sch' : Scheduler} {calls : Nat} (hk : ∀ j h, w.redis.jobs j = some h → h.id = j)
    (hr : ∀ j, (w.redis.jobs j).isSome → (w.postgres.jobs j).isSome)
    (hc : (sch'.recoverExpired.run World.exec
      { (sch.recoverExpired.run (World.failing f) w).1 with calls }).2 = .ok ()) :
    Followed w (sch'.recoverExpired.run World.exec
      { (sch.recoverExpired.run (World.failing f) w).1 with calls }).1 ↔ sch.Survivable f w := by
  have first := (@recoverExpired_pass w f sch hk).left
  have ⟨second, hu⟩ := @recoverExpired_pass { (sch.recoverExpired.run (World.failing f) w).1 with calls }
    (fun _ => .none) sch' fun j h hj => first.keyed hk hj
  rw [failing_none] at second hu
  have p : Passes sch sch' f w _ { (sch.recoverExpired.run (World.failing f) w).1 with calls } _ :=
    ⟨first, rfl, rfl, second, hu hc⟩
  exact p.followed_iff_survivable hr

-- A worker has leased the only attempt of a job, and does not come back.
def orphanedJob : Job :=
  buildJob World.sample.now { JobRequest.plain "email.send" with maxAttempts := 1 } "job-1"

def orphaned : World :=
  let (redis, _) := RedisBroker.sample.dequeueLua "worker-1" 30000 World.sample.now.unixMilli [.ready "default" 5] <|
    RedisBroker.enqueue orphanedJob World.sample.now .empty
  { World.sample with
    redis
    calls    := 60000
    postgres := { Postgres.empty with
      jobs := Function.update (fun _ => none) "job-1" <| some { orphanedJob with state := .active, attempts := 1 }
    }
  }

def reaper : Scheduler where
  activationBatchSize := 200
  recoveryBatchSize   := 200

theorem orphaned_jobs (hj : j ≠ "job-1") : orphaned.redis.jobs j = none := by
  have he : orphaned.redis.jobs = Function.update (Function.update (fun _ => none) "job-1" _) "job-1" _ := rfl
  rw [he, Function.update_of_ne hj, Function.update_of_ne hj]

theorem orphaned_keyed (j : JobID) (h : JobHash) (hj : orphaned.redis.jobs j = some h) : h.id = j := by
  by_cases hi : j = "job-1"
  case neg => rw [orphaned_jobs hi] at hj; cases hj
  case pos =>
    subst hi
    have hi : (orphaned.redis.jobs "job-1").map (·.id) = some "job-1" := by decide +kernel
    rw [hj] at hi
    exact Option.some.inj hi

theorem orphaned_rows (j : JobID) (hj : (orphaned.redis.jobs j).isSome) : (orphaned.postgres.jobs j).isSome := by
  by_cases hi : j = "job-1"
  case neg => rw [orphaned_jobs hi] at hj; cases hj
  case pos => exact hi ▸ rfl

-- The scheduler stops after its script has made the job a dead letter.
def stopsAfterScript (q : Request) : Fault :=
  if q = .recover then .lost else .none

theorem followed_iff_sample : Followed orphaned (reaper.recoverExpired.run World.exec
      { (reaper.recoverExpired.run (World.failing stopsAfterScript) orphaned).1 with calls := 120000 }).1 ↔
    reaper.Survivable stopsAfterScript orphaned :=
  followed_iff orphaned_keyed orphaned_rows (by decide +kernel)

-- No later pass learns that the job has failed.
theorem not_followed_of_stop :
    let stopped := (reaper.recoverExpired.run (World.failing stopsAfterScript) orphaned).1
    let later := reaper.recoverExpired.run World.exec { stopped with calls := 120000 }
    later.2 = .ok () ∧ Turns "job-1" .failed orphaned later.1 ∧
    (later.1.postgres.jobs "job-1").map (·.state) = some .active ∧ later.1.postgres.deadLetters "job-1" = none ∧
    ¬Followed orphaned later.1 := by
  intro stopped later
  have ht : Turns "job-1" .failed orphaned later.1 := ⟨by decide +kernel, by decide +kernel⟩
  have hd : later.1.postgres.deadLetters "job-1" = none := by decide +kernel
  refine ⟨by decide +kernel, ht, by decide +kernel, hd, fun h => ?_⟩
  have hb := (h.failed "job-1" ht).right
  rw [hd] at hb
  cases hb

end Scheduler
end JobPlatform
