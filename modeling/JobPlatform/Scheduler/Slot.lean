import JobPlatform.Scheduler.Dispatch

namespace JobPlatform.Crontab

section

variable {cron : CronPackages} {accepts : JobRequest → Except Error Unit} {w : Crontab}
         {now : Time} {schedule s : Schedule} {schedules : List Schedule} {id : String}

-- A pass in which nothing fails, with its own log.
def later (cron : CronPackages) (accepts : JobRequest → Except Error Unit) (w : Crontab) : Crontab :=
  ((Scheduler.runDueSchedules cron).run (exec accepts fun _ => .none) { w with log := [] }).1

-- The job of the slot has been enqueued, or the schedule has gone on to a later one.
def Served (w : Crontab) (schedule : Schedule) : Prop :=
  (∃ d ∈ w.log, d.scheduleID = schedule.id ∧ d.slot = schedule.nextRunAt ∧ d.enqueued) ∨
  ∃ s ∈ w.schedules, s.id = schedule.id ∧ schedule.nextRunAt < s.nextRunAt

instance : Decidable (w.Served schedule) :=
  inferInstanceAs (Decidable (_ ∨ _))

-- When the slot is claimed, its key is not live.
def Claimable (schedule : Schedule) (w : Crontab) : CronCall → Prop
  | .claimScheduleDispatch scheduleID slot _ => scheduleID = schedule.id → slot = schedule.nextRunAt →
    w.live (scheduleDispatchKey scheduleID slot) = false
  | _ => True

instance Claimable.decidable : (c : CronCall) → Decidable (Claimable schedule w c)
  | .claimScheduleDispatch .. => inferInstanceAs (Decidable (_ → _ → _))
  | .now                      => .isTrue trivial
  | .listDueSchedules ..      => .isTrue trivial
  | .enqueueJob ..            => .isTrue trivial
  | .updateScheduleRun ..     => .isTrue trivial
  | .upsertSchedule ..        => .isTrue trivial

-- The key of the slot has expired when the pass comes to the schedule.
def Expired (cron : CronPackages) (accepts : JobRequest → Except Error Unit) (w : Crontab) (schedule : Schedule) : Prop :=
  (Scheduler.runDueSchedules cron).Guarded (exec accepts fun _ => .none) (Claimable schedule) { w with log := [] }

-- The schedule is enabled and due, and the identifiers are those of a primary key.
structure Due (w : Crontab) (schedule : Schedule) : Prop where
  stored  : schedule ∈ w.schedules
  unique  : (w.schedules.map (·.id)).Nodup
  enabled : schedule.enabled
  due     : schedule.nextRunAt ≤ w.now.stored

-- What there is of the schedule with the given identifier.
def about (w : Crontab) (id : String) : List Dispatch × List Schedule :=
  (w.log.filter (·.scheduleID = id), w.schedules.filter (·.id = id))

theorem served_iff_about : w.Served schedule ↔
    (∃ d ∈ (w.about schedule.id).1, d.slot = schedule.nextRunAt ∧ d.enqueued) ∨
    ∃ s ∈ (w.about schedule.id).2, schedule.nextRunAt < s.nextRunAt := by
  simp [Served, about, and_assoc]

section

variable (accepts : JobRequest → Except Error Unit) (w : Crontab)

theorem claimScheduleDispatch_run (id : String) (slot : Time) (ttl : Duration) :
    (CronProgram.claimScheduleDispatch id slot ttl).run (exec accepts fun _ => .none) w =
      ({ (w.claimScheduleDispatch id slot ttl).1 with calls := w.calls + 1 },
        .ok (w.claimScheduleDispatch id slot ttl).2) :=
  rfl

theorem enqueueJob_run (claim : Claim) (req : JobRequest) :
    (CronProgram.enqueueJob claim req).run (exec accepts fun _ => .none) w =
      ({ w.logged claim (accepts req).isOk with calls := w.calls + 1 }, accepts req) :=
  rfl

theorem updateScheduleRun_run (id : String) (ranAt nextRun : Time) :
    (CronProgram.updateScheduleRun id ranAt nextRun).run (exec accepts fun _ => .none) w =
      ({ w.updateScheduleRun id ranAt nextRun with calls := w.calls + 1 }, .ok ()) :=
  rfl

end

-- The ways in which the body of the loop can go when nothing fails.
theorem dispatch_cases (cron : CronPackages) (accepts : JobRequest → Except Error Unit) (now : Time) (s : Schedule)
    (w : Crontab) :
    let w' := ((Scheduler.dispatch cron now s).run (exec accepts fun _ => .none) w).1
    (w.live (scheduleDispatchKey s.id s.nextRunAt) = true ∧ w'.log = w.log ∧ w'.schedules = w.schedules) ∨
    (w.live (scheduleDispatchKey s.id s.nextRunAt) = false ∧
      (∃ d, w'.log = w.log ++ [d] ∧ d.scheduleID = s.id ∧ d.slot = s.nextRunAt ∧
        d.enqueued = (accepts s.request).isOk) ∧
      (w'.schedules = w.schedules ∨ (accepts s.request).isOk ∧
        ∃ nextRun, w'.schedules = (w.updateScheduleRun s.id now nextRun).schedules)) := by
  dsimp only
  simp only [Scheduler.dispatch, Prog.bind_eq, Prog.run_bind, claimScheduleDispatch_run]
  match w.claimScheduleDispatch_cases s.id s.nextRunAt Scheduler.dispatchTTL with
  | .inl ⟨hl, he⟩ =>
    simp only [he]
    exact .inl ⟨hl, rfl, rfl⟩
  | .inr ⟨hl, he⟩ =>
    refine .inr ⟨hl, ?_⟩
    simp only [he, Prog.run_bind, enqueueJob_run]
    cases ha : accepts s.request
    case error e => exact ⟨⟨_, rfl, rfl, rfl, rfl⟩, .inl rfl⟩
    case ok      =>
      simp only
      cases hn : cron.nextRun s now
      case error e => exact ⟨⟨_, rfl, rfl, rfl, rfl⟩, .inl rfl⟩
      case ok next =>
        simp only [Prog.run_bind, updateScheduleRun_run]
        exact ⟨⟨_, rfl, rfl, rfl, rfl⟩, .inr ⟨rfl, next, rfl⟩⟩

-- A pass leaves the other schedules alone.
theorem dispatch_about (hi : s.id ≠ id) :
    ((Scheduler.dispatch cron now s).run (exec accepts fun _ => .none) w).1.about id = w.about id := by
  have hu (nextRun) : (w.updateScheduleRun s.id now nextRun).schedules.filter (·.id = id) =
      w.schedules.filter (·.id = id) := by
    simp only [updateScheduleRun]
    induction w.schedules
    case nil          => rfl
    case cons r rs hr =>
      by_cases hr' : r.id = s.id
      case pos => simp [hr', hi, hr]
      case neg => simp [hr', List.filter_cons, hr]
  match dispatch_cases cron accepts now s w with
  | .inl ⟨_, hl, hs⟩ => simp only [about, hl, hs]
  | .inr ⟨_, ⟨d, hl, hd, _⟩, hs⟩ =>
    have hf : (w.log ++ [d]).filter (·.scheduleID = id) = w.log.filter (·.scheduleID = id) := by
      simp [hd, hi]
    match hs with
    | .inl hs         => simp only [about, hl, hf, hs]
    | .inr ⟨_, _, hs⟩ => simp only [about, hl, hf, hs, hu]

theorem dispatchAll_about (hi : ∀ s ∈ schedules, s.id ≠ id) :
    ((Scheduler.dispatchAll cron now schedules).run (exec accepts fun _ => .none) w).1.about id = w.about id := by
  induction schedules generalizing w
  case nil           => rfl
  case cons s rest h =>
    simp only [Scheduler.dispatchAll, Prog.bind_eq, Prog.run_bind]
    exact (h fun r hr => hi r (List.mem_cons_of_mem _ hr)).trans (dispatch_about (hi s List.mem_cons_self))

-- Only the claim matters.
theorem dispatch_guarded_iff :
    (Scheduler.dispatch cron now s).Guarded (exec accepts fun _ => .none) (Claimable schedule) w ↔
    Claimable schedule w (.claimScheduleDispatch s.id s.nextRunAt Scheduler.dispatchTTL) := by
  simp only [Scheduler.dispatch, Prog.bind_eq, Prog.guarded_bind]
  refine ⟨fun h => h.left.left, fun h => ⟨⟨h, trivial⟩, ?_⟩⟩
  split
  case h_1 => trivial
  case h_2 => trivial
  case h_3 =>
    refine Prog.guarded_bind.mpr ⟨⟨trivial, trivial⟩, ?_⟩
    split
    case h_1 => trivial
    case h_2 =>
      split
      case h_1 => trivial
      case h_2 => exact Prog.guarded_bind.mpr ⟨⟨trivial, trivial⟩, trivial⟩

theorem dispatchAll_guarded (hi : ∀ s ∈ schedules, s.id ≠ schedule.id) :
    (Scheduler.dispatchAll cron now schedules).Guarded (exec accepts fun _ => .none) (Claimable schedule) w := by
  induction schedules generalizing w
  case nil           => trivial
  case cons s rest h =>
    refine Prog.guarded_bind.mpr ⟨dispatch_guarded_iff.mpr fun he => ?_, ?_⟩
    · exact absurd he (hi s List.mem_cons_self)
    · exact h fun r hr => hi r (List.mem_cons_of_mem _ hr)

-- The schedule is served when its turn comes.
theorem dispatch_served (hw : w.about schedule.id = ([], [schedule])) :
    ((Scheduler.dispatch cron now schedule).run (exec accepts fun _ => .none) w).1.Served schedule ↔
    (Scheduler.dispatch cron now schedule).Guarded (exec accepts fun _ => .none) (Claimable schedule) w ∧
    (accepts schedule.request).isOk := by
  have ⟨hw, hr⟩ := Prod.mk.inj hw
  have hc : Claimable schedule w (.claimScheduleDispatch schedule.id schedule.nextRunAt Scheduler.dispatchTTL) ↔
      w.live (scheduleDispatchKey schedule.id schedule.nextRunAt) = false := by
    simp [Claimable]
  rw [dispatch_guarded_iff, hc, served_iff_about]
  match dispatch_cases cron accepts now schedule w with
  | .inl ⟨hl, hl', hs⟩ =>
    simp [about, hl', hs, hw, hr, hl]
  | .inr ⟨hl, ⟨d, hl', hd, ht, he⟩, hs⟩ =>
    have hf : (w.log ++ [d]).filter (·.scheduleID = schedule.id) = [d] := by simp [hw, hd]
    simp only [about, hl', hf, hl, true_and]
    constructor
    case mpr => exact fun ha => .inl ⟨d, List.mem_singleton_self d, ht, he.trans ha⟩
    case mp  =>
      intro h
      cases h
      case inl h =>
        have ⟨d', hm, _, he'⟩ := h
        cases List.mem_singleton.mp hm
        exact he.symm.trans he'
      case inr h =>
        cases hs
        case inr hs => exact hs.left
        case inl hs =>
          have ⟨r, hm, ht⟩ := h
          rw [hs, hr] at hm
          cases List.mem_singleton.mp hm
          exact absurd ht (lt_irrefl _)

theorem dispatchAll_served (hm : schedule ∈ schedules) (hn : (schedules.map (·.id)).Nodup)
    (hw : w.about schedule.id = ([], [schedule])) :
    ((Scheduler.dispatchAll cron now schedules).run (exec accepts fun _ => .none) w).1.Served schedule ↔
    (Scheduler.dispatchAll cron now schedules).Guarded (exec accepts fun _ => .none) (Claimable schedule) w ∧
    (accepts schedule.request).isOk := by
  induction schedules generalizing w
  case nil           => cases hm
  case cons s rest h =>
    have ⟨hs, hn⟩ := List.nodup_cons.mp hn
    have hs (r) (hr : r ∈ rest) : r.id ≠ s.id := fun he => hs (List.mem_map.mpr ⟨r, hr, he⟩)
    simp only [Scheduler.dispatchAll, Prog.bind_eq, Prog.run_bind, Prog.guarded_bind]
    cases List.mem_cons.mp hm
    case inl he =>
      subst he
      rw [served_iff_about, dispatchAll_about hs, ← served_iff_about, dispatch_served hw]
      simp [dispatchAll_guarded hs]
    case inr hm =>
      have hi : s.id ≠ schedule.id := (hs schedule hm).symm
      have hg : (Scheduler.dispatch cron now s).Guarded (exec accepts fun _ => .none) (Claimable schedule) w :=
        dispatch_guarded_iff.mpr fun he => absurd he hi
      rw [h hm hn ((dispatch_about hi).trans hw)]
      simp [hg]

theorem runDueSchedules_eq : Scheduler.runDueSchedules cron = CronProgram.now.bind fun now =>
    (CronProgram.listDueSchedules now).bind fun
      | .error e      => .ret (.error e)
      | .ok schedules => (Scheduler.dispatchAll cron now schedules).bind fun _ => .ret (.ok ()) := by
  refine congrArg (Prog.bind · _) (funext fun now => congrArg (Prog.bind · _) (funext fun r => ?_))
  cases r <;> rfl

theorem filter_id_eq (hm : schedule ∈ schedules) (hn : (schedules.map (·.id)).Nodup) :
    schedules.filter (·.id = schedule.id) = [schedule] := by
  induction schedules
  case nil           => cases hm
  case cons s rest h =>
    have ⟨hs, hn⟩ := List.nodup_cons.mp hn
    have hs (r) (hr : r ∈ rest) : r.id ≠ s.id := fun he => hs (List.mem_map.mpr ⟨r, hr, he⟩)
    cases List.mem_cons.mp hm
    case inl he =>
      subst he
      simpa [List.filter_cons] using hs
    case inr hm => simp [(hs schedule hm).symm, h hm hn]

-- The slot of a due schedule is served by a pass in which nothing fails exactly if its key has expired
-- and its job is acceptable.
theorem later_served_iff (hd : w.Due schedule) :
    (w.later cron accepts).Served schedule ↔ w.Expired cron accepts schedule ∧ (accepts schedule.request).isOk := by
  have hm : schedule ∈ w.listDueSchedules w.now := by
    simp [listDueSchedules, hd.stored, hd.enabled, hd.due]
  have hn : ((w.listDueSchedules w.now).map (·.id)).Nodup := by
    have hp := (List.perm_insertionSort (fun s s' => s.nextRunAt ≤ s'.nextRunAt)
      (w.schedules.filter fun s => s.enabled ∧ s.nextRunAt ≤ w.now.stored)).map (·.id)
    exact hp.nodup_iff.mpr (hd.unique.sublist (List.filter_sublist.map _))
  have hw : ({ w with log := [], calls := w.calls + 2 } : Crontab).about schedule.id = ([], [schedule]) := by
    simp only [about, List.filter_nil, filter_id_eq hd.stored hd.unique]
  have h := @dispatchAll_served cron accepts { w with log := [], calls := w.calls + 2 } w.now schedule _ hm hn hw
  have hl : (w.later cron accepts) = ((Scheduler.dispatchAll cron w.now (w.listDueSchedules w.now)).run
      (exec accepts fun _ => .none) { w with log := [], calls := w.calls + 2 }).1 := by
    rw [later, runDueSchedules_eq, Prog.run_bind, Prog.run_bind]
    exact congrArg Prod.fst (Prog.run_bind ..)
  have he : w.Expired cron accepts schedule ↔ (Scheduler.dispatchAll cron w.now (w.listDueSchedules w.now)).Guarded
      (exec accepts fun _ => .none) (Claimable schedule) { w with log := [], calls := w.calls + 2 } := by
    rw [Expired, runDueSchedules_eq, Prog.guarded_bind, Prog.guarded_bind]
    refine ⟨fun h => (Prog.guarded_bind.mp h.right.right).left, fun h => ⟨⟨trivial, trivial⟩, ⟨trivial, trivial⟩, ?_⟩⟩
    exact Prog.guarded_bind.mpr ⟨h, trivial⟩
  rw [hl, he]
  exact h

end

section

open Dispatchers.Sample

theorem due_sample {clock : Clock} (h : schedule.nextRunAt ≤ (crontab clock).now.stored) :
    (crontab clock).Due schedule where
  stored  := List.mem_singleton_self _
  unique  := List.nodup_singleton _
  enabled := rfl
  due     := h

theorem later_served_iff_sample :
    ((crontab .sample).later cron fun _ => .ok ()).Served schedule ↔
    (crontab .sample).Expired cron (fun _ => .ok ()) schedule ∧ ((.ok () : Except Error Unit)).isOk :=
  later_served_iff (due_sample (by decide))

-- A clock that proceeds by an hour with each call.
def hourly : Clock where
  time calls := .ofUnixMilli (1700000000000 + calls * 3600000)
  mono i j h := Int.mul_le_mul_of_nonneg_right (by omega) (by decide)

-- `EnqueueJob` fails after the slot has been claimed, and the pass some hours later skips the schedule.
theorem not_served_after_failure :
    let faults := fun n => if n = 3 then Fault.refused else .none
    let w := ((Scheduler.runDueSchedules cron).run (exec (fun _ => .ok ()) faults) (crontab hourly)).1
    w.log.map (·.enqueued) = [false] ∧ w.Due schedule ∧ ¬(w.later cron fun _ => .ok ()).Served schedule := by
  refine ⟨by decide +kernel, ⟨by decide +kernel, by decide +kernel, rfl, by decide +kernel⟩, by decide +kernel⟩

end
end JobPlatform.Crontab
