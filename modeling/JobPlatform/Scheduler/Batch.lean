import JobPlatform.Scheduler.Recovery

namespace JobPlatform

namespace RedisBroker

variable {b : RedisBroker} {r r' : Redis} {j k : JobID} {h : JobHash} {now : Int} {ids : List JobID}

-- The time of the retry is not a number, which aborts the script.
def aborts (b : RedisBroker) (now : Int) (r : Redis) (j : JobID) : Bool :=
  (r.jobs j).any fun h => recoveredState h = .retrying ∧ (b.retryAt now h.attempts).toScore = none

-- The jobs of a batch which the script gets to.
def reached (b : RedisBroker) (now : Int) (r : Redis) : List JobID → List JobID
  | []        => []
  | j :: rest => if b.aborts now r j then [j] else j :: b.reached now r rest

-- What the script reports about a job.
def report (b : RedisBroker) (now : Int) (r : Redis) (j : JobID) : Option RecoveredLease :=
  (r.jobs j).map fun h => {
    jobID   := j
    state   := recoveredState h
    retryAt := if recoveredState h = .retrying then reportedRetryAt (b.retryAt now h.attempts) else none
  }

theorem mem_of_mem_reached (hk : k ∈ b.reached now r ids) : k ∈ ids := by
  induction ids
  case nil             => exact hk
  case cons j rest hi =>
    rw [reached] at hk
    split at hk
    case isTrue  => exact List.mem_singleton.mp hk ▸ List.mem_cons_self
    case isFalse =>
      cases List.mem_cons.mp hk
      case inl hk => exact hk ▸ List.mem_cons_self
      case inr hk => exact List.mem_cons_of_mem _ (hi hk)

theorem reached_congr (h : ∀ k ∈ ids, r'.jobs k = r.jobs k) : b.reached now r' ids = b.reached now r ids := by
  induction ids
  case nil             => rfl
  case cons j rest hi =>
    have ⟨hj, h⟩ := List.forall_mem_cons.mp h
    have ha : b.aborts now r' j = b.aborts now r j := by simp only [aborts, hj]
    rw [reached, reached, ha, hi h]

theorem reached_eq (h : ids.any (b.aborts now r) = false) : b.reached now r ids = ids := by
  induction ids
  case nil            => rfl
  case cons j rest hi =>
    rw [List.any_cons, Bool.or_eq_false_iff] at h
    rw [reached, h.left, hi h.right]
    rfl

theorem mem_reports {item : RecoveredLease} : item ∈ ids.filterMap (b.report now r) ↔
    item.jobID ∈ ids ∧ b.report now r item.jobID = some item := by
  have hj {k : JobID} (h : b.report now r k = some item) : item.jobID = k := by
    have ⟨_, _, hi⟩ := Option.map_eq_some_iff.mp h
    rw [← hi]
  rw [List.mem_filterMap]
  constructor
  case mp  => exact fun ⟨k, hk, h⟩ => hj h ▸ ⟨hk, h⟩
  case mpr => exact fun ⟨hk, h⟩ => ⟨_, hk, h⟩

theorem reports_nodup (hn : ids.Nodup) : ((ids.filterMap (b.report now r)).map (·.jobID)).Nodup := by
  rw [List.map_filterMap]
  refine hn.filterMap fun j k i hj hk => ?_
  simp only [report, Option.map_map, Option.mem_def, Option.map_eq_some_iff, Function.comp_apply] at hj hk
  have ⟨_, _, hj⟩ := hj
  have ⟨_, _, hk⟩ := hk
  exact hj.trans hk.symm

theorem any_aborts_congr (h : ∀ k ∈ ids, r'.jobs k = r.jobs k) : ids.any (b.aborts now r') = ids.any (b.aborts now r) := by
  rw [Bool.eq_iff_iff, List.any_eq_true, List.any_eq_true]
  exact exists_congr fun k => and_congr_right fun hk => by simp only [aborts, h k hk]

theorem reports_congr (h : ∀ k ∈ ids, r'.jobs k = r.jobs k) :
    ids.filterMap (b.report now r') = ids.filterMap (b.report now r) :=
  List.filterMap_congr fun k hk => by simp only [report, h k hk]

-- The script ends the lease, and the job takes the state that it is recovered with.
theorem recover_result (hj : r.jobs j = some h) : (b.recover now j h r).2 =
    if b.aborts now r j then .error .scriptError else .ok {
      jobID   := j
      state   := recoveredState h
      retryAt := if recoveredState h = .retrying then reportedRetryAt (b.retryAt now h.attempts) else none
    } := by
  unfold recover recoveredState aborts
  simp only [hj, Option.any_some, recoveredState]
  by_cases hc : h.cancelRequested
  case pos => simp [hc]
  case neg =>
    by_cases ha : h.attempts < h.maxAttempts.getD 1
    case neg => simp [hc, ha]
    case pos => cases (b.retryAt now h.attempts).toScore <;> simp [hc, ha]

theorem recover_jobs (hj : r.jobs j = some h) : ∃ h', (b.recover now j h r).1.jobs j = some h' ∧ h'.id = h.id ∧
    h'.state = recoveredState h := by
  apply recover_rule (Q := fun x => ∃ h', x.1.jobs j = some h' ∧ h'.id = h.id ∧ h'.state = recoveredState h) <;>
    dsimp only
  case canceled => exact fun hc => ⟨h.cancelExpired now, by simp [hj], rfl, by simp [recoveredState, hc]; rfl⟩
  case retrying =>
    exact fun s hc ha _ => ⟨h.retryExpired (storedMillis (b.retryAt now h.attempts)) now, by simp [hj], rfl,
      by simp [recoveredState, hc, ha]; rfl⟩
  case aborted  => exact fun hc ha _ => ⟨h.retryExpired 0 now, by simp [hj], rfl, by simp [recoveredState, hc, ha]; rfl⟩
  case failed   =>
    exact fun hc ha => ⟨h.failExpired now, by simp [hj], rfl, by simp [recoveredState, hc, not_lt.mpr ha]; rfl⟩

theorem recover_leases : (b.recover now j h r).1.zsets .activeLeases = r.zsets .activeLeases := by
  apply recover_rule (Q := fun x => x.1.zsets .activeLeases = r.zsets .activeLeases) <;> intros <;> rfl

-- What the script does to the jobs of a batch, and what it answers.
structure ReachesAll (b : RedisBroker) (now : Int) (ids : List JobID) (r : Redis)
    (x : Redis × Except Error (List RecoveredLease)) : Prop where
  states : ∀ k, (x.1.jobs k).map (·.state) = (r.jobs k).map fun h => (verdict (b.reached now r ids) r k).getD h.state
  keys   : ∀ k, (x.1.jobs k).map (·.id) = (r.jobs k).map (·.id)
  leases : ∀ k ∈ b.reached now r ids, (x.1.zsets .activeLeases).score? k = none
  result : x.2 = if ids.any (b.aborts now r) then .error .scriptError else .ok (ids.filterMap (b.report now r))
  others : ∀ k, (r.zsets .activeLeases).score? k = none → (x.1.zsets .activeLeases).score? k = none

-- The script goes on after a job that it has recovered.
theorem ReachesAll.cons {id : JobID} {x : Redis × Except Error (List RecoveredLease)} (h : ReachesAll b now ids r' x)
    (hm : id ∉ ids) (hu : ∀ k ≠ id, r.Unchanged k r') (ha : b.aborts now r id = false)
    (hs : (r'.jobs id).map (·.state) = (r.jobs id).map recoveredState)
    (hk : (r'.jobs id).map (·.id) = (r.jobs id).map (·.id)) (hl : (r'.zsets .activeLeases).score? id = none) :
    ReachesAll b now (id :: ids) r (x.1, x.2.map ((b.report now r id).toList ++ ·)) := by
  have hj (k) (hk : k ∈ ids) : r'.jobs k = r.jobs k := (hu k <| ne_of_mem_of_not_mem hk hm).jobs
  have hr : b.reached now r (id :: ids) = id :: b.reached now r' ids := by
    rw [reached, ha, reached_congr hj]
    rfl
  constructor <;> dsimp only
  case states =>
    intro k
    rw [h.states k, hr]
    by_cases hi : k = id
    case pos =>
      subst hi
      have hn : verdict (b.reached now r' ids) r' k = none := verdict_not_mem fun hk => hm (mem_of_mem_reached hk)
      simp only [hn, Option.getD_none, hs]
      cases hj : r.jobs k <;> simp [verdict, hj]
    case neg =>
      rw [verdict_cons_ne hi (hu k hi).jobs, (hu k hi).jobs]
  case keys =>
    intro k
    rw [h.keys k]
    by_cases hi : k = id
    case pos => rw [hi, hk]
    case neg => rw [(hu k hi).jobs]
  case leases =>
    intro k hk
    rw [hr] at hk
    cases List.mem_cons.mp hk
    case inl hk => exact h.others k (hk ▸ hl)
    case inr hk => exact h.leases k hk
  case others =>
    intro k hk
    by_cases hi : k = id
    case pos => exact h.others k (hi ▸ hl)
    case neg => exact h.others k ((hu k hi).score _ ▸ hk)
  case result =>
    rw [h.result, any_aborts_congr hj, reports_congr hj, List.any_cons, ha, Bool.false_or]
    split
    case isTrue  => rfl
    case isFalse => cases hx : b.report now r id <;> simp [Except.map, hx]

-- The script ends with a job whose time it cannot store.
theorem ReachesAll.abort {id : JobID} (hu : ∀ k ≠ id, r.Unchanged k r') (ha : b.aborts now r id)
    (hs : (r'.jobs id).map (·.state) = (r.jobs id).map recoveredState)
    (hk : (r'.jobs id).map (·.id) = (r.jobs id).map (·.id)) (hl : (r'.zsets .activeLeases).score? id = none) :
    ReachesAll b now (id :: ids) r (r', .error .scriptError) := by
  have hr : b.reached now r (id :: ids) = [id] := by rw [reached, ha, if_pos rfl]
  constructor <;> dsimp only
  case states =>
    intro k
    rw [hr]
    by_cases hi : k = id
    case pos =>
      subst hi
      cases hj : r.jobs k <;> simp [hs, hj, verdict]
    case neg => simp [hi, (hu k hi).jobs, verdict]
  case keys   =>
    intro k
    by_cases hi : k = id
    case pos => rw [hi, hk]
    case neg => rw [(hu k hi).jobs]
  case leases =>
    intro k hk
    rw [hr] at hk
    exact List.mem_singleton.mp hk ▸ hl
  case others =>
    intro k hk
    by_cases hi : k = id
    case pos => exact hi ▸ hl
    case neg => exact (hu k hi).score _ ▸ hk
  case result => simp [ha]

theorem recoverAll_reachesAll (hn : ids.Nodup) (hl : ∀ id ∈ ids, ((r.zsets .activeLeases).score? id).isSome) :
    ReachesAll b now ids r (b.recoverAll now ids r) := by
  induction ids generalizing r
  case nil =>
    exact {
      states k := by simp [recoverAll, reached, verdict]
      keys k   := rfl
      leases   := by simp [reached]
      result   := rfl
      others k := id
    }
  case cons id rest hi =>
    obtain ⟨hm, hn⟩ := List.nodup_cons.mp hn
    obtain ⟨hd, hl⟩ := List.forall_mem_cons.mp hl
    have next {r' : Redis} (hu : ∀ k ≠ id, r.Unchanged k r') : ReachesAll b now rest r' (b.recoverAll now rest r') :=
      hi hn fun k hk => (hu k <| ne_of_mem_of_not_mem hk hm).score _ ▸ hl k hk
    have hz : ((r.zrem .activeLeases id).zsets .activeLeases).score? id = none := by simp [Redis.zrem_score?]
    unfold recoverAll
    simp only [hd, if_true]
    cases hj : r.jobs id
    case none   =>
      have hu (k) (hk : k ≠ id) : r.Unchanged k (r.zrem .activeLeases id) := .zrem hk
      have hc := (next hu).cons hm hu (by simp [aborts, hj]) (by simp [hj]) rfl hz
      have he : (b.recoverAll now rest (r.zrem .activeLeases id)).2.map ((b.report now r id).toList ++ ·) =
          (b.recoverAll now rest (r.zrem .activeLeases id)).2 := by
        cases (b.recoverAll now rest (r.zrem .activeLeases id)).2 <;> simp [Except.map, report, hj]
      rwa [he] at hc
    case some h =>
      dsimp only
      have hu (k : JobID) (hk : k ≠ id) : r.Unchanged k (b.recover now id h (r.zrem .activeLeases id)).1 :=
        .trans (.zrem hk) (recover_unchanged hk)
      have hr := @recover_result b (r.zrem .activeLeases id) id h now hj
      have hs := @recover_jobs b (r.zrem .activeLeases id) id h now hj
      have hz : ((b.recover now id h (r.zrem .activeLeases id)).1.zsets .activeLeases).score? id = none := by
        rw [recover_leases, hz]
      obtain ⟨h', hj', hk, hs⟩ := hs
      have ha : b.aborts now (r.zrem .activeLeases id) id = b.aborts now r id := rfl
      generalize b.recover now id h (r.zrem .activeLeases id) = x at hu hr hz hj' ⊢
      obtain ⟨r', res⟩ := x
      have hs : (r'.jobs id).map (·.state) = (r.jobs id).map recoveredState := by
        rw [hj, hj', Option.map_some, hs, Option.map_some]
      have hk : (r'.jobs id).map (·.id) = (r.jobs id).map (·.id) := by
        rw [hj, hj', Option.map_some, hk, Option.map_some]
      cases hb : b.aborts now r id
      case false =>
        rw [ha, hb] at hr
        cases hr
        simpa [report, hj] using (next hu).cons hm hu hb hs hk hz
      case true =>
        rw [ha, hb] at hr
        cases hr
        exact .abort hu hb hs hk hz

end RedisBroker

end JobPlatform
