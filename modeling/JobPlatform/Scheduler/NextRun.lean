import JobPlatform.Library.Apart
import JobPlatform.Library.Pool
import JobPlatform.Scheduler.Cron

namespace JobPlatform

-- The schedule will run when its expression says so in its time zone.
def CronPackages.Produces (cron : CronPackages) (schedule : Schedule) : Prop :=
  ∃ now next, cron.nextRun schedule now = .ok next ∧ schedule.nextRunAt = next.stored

-- The next run depends on nothing else.
def Schedule.SameTimes (s s' : Schedule) : Prop :=
  s.cronExpression = s'.cronExpression ∧ s.timezone = s'.timezone

instance {s s' : Schedule} : Decidable (s.SameTimes s') :=
  inferInstanceAs (Decidable (_ ∧ _))

theorem CronPackages.nextRun_congr {cron : CronPackages} {s s' : Schedule} {now : Time} (h : s.SameTimes s') :
    cron.nextRun s now = cron.nextRun s' now := by
  unfold nextRun
  rw [h.left, h.right]

-- A process writes next runs of schedules that it has read before, and schedules with a next run of their own.
abbrev Rescheduler (cron : CronPackages) : Protocol CronCall CronCall.Resp where
  State := List Schedule
  Allows
    | rows, .updateScheduleRun scheduleID _ nextRun =>
      ∃ s ∈ rows, s.id = scheduleID ∧ ∃ now, cron.nextRun s now = .ok nextRun
    | _,    .upsertSchedule schedule                => ∃ now, cron.nextRun schedule now = .ok schedule.nextRunAt
    | _,    _                                       => True
  Expected _ _ := True
  next
    | _,    .listDueSchedules _, .ok rows => rows
    | rows, _,                   _        => rows

namespace Rescheduler

variable {cron : CronPackages} {now : Time} {schedule : Schedule} {schedules rows : List Schedule}
         {req : ScheduleRequest}

theorem dispatch (h : schedule ∈ rows) :
    (Scheduler.dispatch cron now schedule).Follows (Rescheduler cron) (fun _ q => q = rows) rows := by
  refine ⟨trivial, fun r _ => ?_⟩
  match r with
  | .error _         => rfl
  | .ok none         => rfl
  | .ok (some claim) =>
    refine ⟨trivial, fun r _ => ?_⟩
    match r with
    | .error _ => rfl
    | .ok ()   =>
      dsimp only
      split
      case h_1    => rfl
      case h_2 hn => exact ⟨⟨schedule, h, rfl, now, hn⟩, fun _ _ => rfl⟩

theorem dispatchAll (h : schedules ⊆ rows) :
    (Scheduler.dispatchAll cron now schedules).Follows (Rescheduler cron) (fun _ q => q = rows) rows := by
  induction schedules
  case nil         => rfl
  case cons s _ hi =>
    have ⟨hs, h⟩ := List.cons_subset.mp h
    refine Prog.Follows.bind ((dispatch hs).mono fun _ q hq => ?_)
    subst hq
    exact hi h

theorem runDueSchedules : (Scheduler.runDueSchedules cron).Follows (Rescheduler cron) (fun _ _ => True) rows := by
  refine ⟨trivial, fun now _ => ⟨trivial, fun r _ => ?_⟩⟩
  match r with
  | .error _      => trivial
  | .ok schedules =>
    have h : ((Scheduler.dispatchAll cron now schedules).bind fun _ => .ret (.ok () : Except Error Unit)).Follows
        (Rescheduler cron) (fun _ _ => True) schedules :=
      Prog.Follows.bind ((dispatchAll fun _ hs => hs).mono fun _ _ _ => trivial)
    exact h

-- A schedule without a time zone is stored with the one called UTC.
theorem upsertSchedule (hu : cron.loadLocation "UTC" = .ok cron.utc) :
    (upsertSchedule cron req).Follows (Rescheduler cron) (fun _ _ => True) rows := by
  unfold JobPlatform.upsertSchedule
  split
  case isTrue  => trivial
  case isFalse =>
    split
    case h_1             => trivial
    case h_2 location hl =>
      split
      case h_1         => trivial
      case h_2 spec hp =>
        refine ⟨trivial, fun now _ => ⟨⟨now, ?_⟩, fun _ _ => trivial⟩⟩
        have hl : cron.location (if req.timezone = "" then "UTC" else req.timezone) = .ok location := by
          rw [← hl]
          unfold CronPackages.location
          by_cases ht : req.timezone = ""
          case pos => simp [ht, hu]
          case neg => simp [ht]
        simp only [CronPackages.nextRun, ScheduleRequest.schedule, hl, hp]
        rfl

end Rescheduler

namespace Crontab

variable {cron : CronPackages} {accepts : JobRequest → Except Error Unit} {faults : Nat → Fault} {w : Crontab} {c : CronCall}
         {scheduleID : String} {ranAt nextRun : Time} {schedule : Schedule}

-- All schedules have a next run of their own.
def Kept (cron : CronPackages) (w : Crontab) : Prop :=
  ∀ s ∈ w.schedules, cron.Produces s

theorem Kept.updateScheduleRun (h : Kept cron w)
    (hn : ∀ s ∈ w.schedules, s.id = scheduleID → ∃ now, cron.nextRun s now = .ok nextRun) :
    Kept cron (w.updateScheduleRun scheduleID ranAt nextRun) := by
  intro s' hs'
  have ⟨s, hs, he⟩ := List.mem_map.mp hs'
  split at he
  case isFalse   => exact he ▸ h s hs
  case isTrue hi =>
    have ⟨now, hr⟩ := hn s hs hi
    subst he
    exact ⟨now, nextRun, hr, rfl⟩

theorem Kept.upsertSchedule (h : Kept cron w) (hs : ∃ now, cron.nextRun schedule now = .ok schedule.nextRunAt) :
    Kept cron (w.upsertSchedule schedule).1 := by
  have ⟨now, hs⟩ := hs
  unfold Crontab.upsertSchedule
  split
  case isTrue  => exact h
  case isFalse =>
    split
    case isTrue  => exact h
    case isFalse =>
      split
      case isTrue  =>
        intro s' hs'
        have ⟨s, hm, he⟩ := List.mem_map.mp hs'
        split at he
        case isFalse => exact he ▸ h s hm
        case isTrue  =>
          subst he
          exact ⟨now, _, hs, rfl⟩
      case isFalse =>
        split
        case isTrue  => exact h
        case isFalse =>
          intro s' hs'
          cases List.mem_append.mp hs'
          case inl hm => exact h s' hm
          case inr hm =>
            rw [List.mem_singleton.mp hm]
            exact ⟨now, _, hs, rfl⟩

-- The calls which write schedules.
def Writes : CronCall → Prop
  | .updateScheduleRun .. => True
  | .upsertSchedule _     => True
  | _                     => False

theorem exec_schedules (h : ¬Writes c) : (w.exec accepts faults c).1.schedules = w.schedules := by
  unfold exec
  cases c
  case updateScheduleRun => exact absurd trivial h
  case upsertSchedule    => exact absurd trivial h
  case claimScheduleDispatch scheduleID slot ttl =>
    have hs : (w.claimScheduleDispatch scheduleID slot ttl).1.schedules = w.schedules := by
      unfold claimScheduleDispatch
      dsimp only
      split <;> rfl
    cases faults w.calls
    case none    => exact hs
    case refused => rfl
    case lost    => exact hs
  all_goals cases faults w.calls <;> rfl

theorem Kept.exec_upsertSchedule (h : Kept cron w) (hs : ∃ now, cron.nextRun schedule now = .ok schedule.nextRunAt) :
    Kept cron (w.exec accepts faults (.upsertSchedule schedule)).1 := by
  unfold exec
  cases faults w.calls
  case none    => exact h.upsertSchedule hs
  case refused => exact h
  case lost    => exact h.upsertSchedule hs

theorem Kept.exec_updateScheduleRun (h : Kept cron w)
    (hn : faults w.calls ≠ .refused → ∀ s ∈ w.schedules, s.id = scheduleID → ∃ now, cron.nextRun s now = .ok nextRun) :
    Kept cron (w.exec accepts faults (.updateScheduleRun scheduleID ranAt nextRun)).1 := by
  unfold exec
  cases hf : faults w.calls
  case none    => exact h.updateScheduleRun (hn (by simp [hf]))
  case refused => exact h
  case lost    => exact h.updateScheduleRun (hn (by simp [hf]))

end Crontab

-- The processes that share the table of schedules.
abbrev Reschedulers (cron : CronPackages) :=
  Pool (Rescheduler cron) (Except Error Unit) Crontab

namespace Reschedulers

section

variable {cron : CronPackages}

def semantics (cron : CronPackages) (accepts : JobRequest → Except Error Unit) (faults : Nat → Fault) :
    Pool.Semantics (Rescheduler cron) (Except Error Unit) Crontab where
  exec    := Crontab.exec accepts faults
  forks _ := []

def start (cron : CronPackages) (w : Crontab) : Reschedulers cron where
  world := { w with schedules := [] }
  procs := []

-- Schedulers execute due schedules, and schedules are stored by requests.
def Launched : Pool.Label (Rescheduler cron) (Except Error Unit) → Prop
  | .spawn p => p.state = [] ∧ (p.prog = Scheduler.runDueSchedules cron ∨ ∃ req, p.prog = upsertSchedule cron req)
  | .run _   => True

-- The times of the schedule are still those which the process has read.
def Current (faults : Nat → Fault) (w : Crontab) (rows : List Schedule) : CronCall → Prop
  | .updateScheduleRun scheduleID _ _ => faults w.calls ≠ .refused →
    ∀ s ∈ w.schedules, s.id = scheduleID → ∀ s' ∈ rows, s'.id = scheduleID → s.SameTimes s'
  | _ => True

-- A scheduler writes the next run of a schedule only if nobody has changed its times in the meantime.
def Allowed (faults : Nat → Fault) (s : Reschedulers cron) : Pool.Label (Rescheduler cron) (Except Error Unit) → Prop
  | .spawn p => Launched (.spawn p)
  | .run i   => ∀ p ∈ s.procs[i]?, match p.prog with
    | .call c _ => Current faults s.world p.state c
    | .ret _    => True

instance Current.decidable {faults : Nat → Fault} {w : Crontab} {rows : List Schedule} :
    (c : CronCall) → Decidable (Current faults w rows c)
  | .updateScheduleRun ..     => inferInstanceAs (Decidable (_ → _))
  | .now                      => .isTrue trivial
  | .listDueSchedules _       => .isTrue trivial
  | .claimScheduleDispatch .. => .isTrue trivial
  | .enqueueJob ..            => .isTrue trivial
  | .upsertSchedule _         => .isTrue trivial

instance Allowed.decidable {faults : Nat → Fault} {s : Reschedulers cron} {i : Nat} :
    Decidable (s.Allowed faults (.run i)) :=
  match hi : s.procs[i]? with
  | none                => .isTrue fun _ hp => nomatch hi.symm.trans hp
  | some ⟨.ret _, _⟩    => .isTrue fun _ hp => by cases hi.symm.trans hp; trivial
  | some ⟨.call c k, q⟩ => decidable_of_iff (Current faults s.world q c)
    ⟨fun hs _ hp => by cases hi.symm.trans hp; exact hs, fun ha => ha _ hi⟩

structure Sound (s : Reschedulers cron) : Prop where
  follows : ∀ p ∈ s.procs, p.prog.Follows (Rescheduler cron) (fun _ _ => True) p.state
  kept    : s.world.Kept cron

namespace Sound

variable {s : Reschedulers cron} {w w' : Crontab} {accepts : JobRequest → Except Error Unit} {faults : Nat → Fault}
         {i : Nat} {p : Proc (Rescheduler cron) (Except Error Unit)}
         {l : Pool.Label (Rescheduler cron) (Except Error Unit)}

theorem start : Sound (start cron w) where
  follows := by simp [Reschedulers.start]
  kept    := by simp [Reschedulers.start, Crontab.Kept]

theorem call (h : Sound s) (hf : p.prog.Follows (Rescheduler cron) (fun _ _ => True) p.state) (hk : w'.Kept cron) :
    Sound { world := w', procs := s.procs.set i p } where
  kept          := hk
  follows q hq := by
    match Apart.mem_of_mem_set hq with
    | .inl hq => exact h.follows q (List.mem_of_mem_eraseIdx hq)
    | .inr he => exact he ▸ hf

theorem run (h : Sound s) (ha : s.Allowed faults (.run i)) :
    Sound (Pool.step (semantics cron accepts faults) s (.run i)) := by
  refine Pool.step_run_rule _ h fun c k q hi => ?_
  have ⟨hc, hf⟩ := h.follows _ (List.mem_of_getElem? hi)
  have ha : Current faults s.world q c := ha _ hi
  simp only [semantics, List.append_nil]
  refine h.call (hf _ trivial) ?_
  by_cases hw : Crontab.Writes c
  case neg =>
    unfold Crontab.Kept
    rw [Crontab.exec_schedules hw]
    exact h.kept
  case pos =>
    cases c
    case upsertSchedule schedule => exact h.kept.exec_upsertSchedule hc
    case updateScheduleRun scheduleID ranAt nextRun =>
      have ⟨s', hs', hi, now, hn⟩ := hc
      refine h.kept.exec_updateScheduleRun fun hr s hs he => ⟨now, ?_⟩
      rw [CronPackages.nextRun_congr (ha hr s hs he s' hs' hi)]
      exact hn
    all_goals exact hw.elim

theorem step (hu : cron.loadLocation "UTC" = .ok cron.utc) (h : Sound s) (ha : s.Allowed faults l) :
    Sound (Pool.step (semantics cron accepts faults) s l) := by
  cases l
  case run i   => exact h.run ha
  case spawn p =>
    have ⟨_, hp⟩ := ha
    refine ⟨fun q hq => ?_, h.kept⟩
    cases List.mem_append.mp hq
    case inl hq => exact h.follows q hq
    case inr hq =>
      rw [List.mem_singleton.mp hq]
      match hp with
      | .inl hp      => exact hp ▸ Rescheduler.runDueSchedules
      | .inr ⟨_, hp⟩ => exact hp ▸ Rescheduler.upsertSchedule hu

end Sound

-- Every schedule has a next run of its own as long as schedulers write those of current times only.
theorem kept_of_allowed {accepts : JobRequest → Except Error Unit} {faults : Nat → Fault} {w : Crontab}
    {ls : List (Pool.Label (Rescheduler cron) (Except Error Unit))} (hu : cron.loadLocation "UTC" = .ok cron.utc)
    (hg : Run.Guarded (Pool.step (semantics cron accepts faults)) (Allowed faults) (start cron w) ls) :
    Crontab.Kept cron (Run.last (Pool.step (semantics cron accepts faults)) (start cron w) ls).world :=
  (hg.invariant (fun _ _ => Sound.step hu) Sound.start).kept

end

namespace Sample

-- Schedules run once an hour or once a day.
def cron : CronPackages where
  Location      := Unit
  utc           := ()
  loadLocation timezone :=
    if timezone = "UTC" then .ok () else .error <| .invalid ("unknown time zone " ++ timezone)
  Spec          := Duration
  parseStandard standardSpec :=
    if standardSpec = "0 * * * *" then .ok (60 * Duration.minute)
    else if standardSpec = "0 0 * * *" then .ok (24 * 60 * Duration.minute)
    else .error <| .invalid ("failed to parse " ++ standardSpec)
  next period _ now := (now / period + 1) * period
  newSHA1 name      := name

-- The first schedule is due after the second call.
def crontab : Crontab where
  clock     := {
    time calls := .ofUnixMilli <| 1699992800000 + calls + if calls < 2 then 0 else 3600000
    mono       := by
      intro i j h
      refine Int.mul_le_mul_of_nonneg_right ?_ (by decide)
      split <;> split <;> omega
  }
  calls     := 0
  schedules := []
  keys _    := none
  log       := []

def request (cronExpression : String) : ScheduleRequest where
  name           := "report"
  cronExpression := cronExpression
  queue          := "default"
  type           := "report.build"
  payload        := "\x7b\x7d"
  priority       := none
  maxAttempts    := 5
  timeoutSeconds := 0
  enabled        := none
  timezone       := ""

abbrev Label :=
  Pool.Label (Rescheduler cron) (Except Error Unit)

def pass : Label :=
  .spawn ⟨Scheduler.runDueSchedules cron, []⟩

def upsert (cronExpression : String) : Label :=
  .spawn ⟨upsertSchedule cron (request cronExpression), []⟩

def step : Reschedulers cron → Label → Reschedulers cron :=
  Pool.step (semantics cron (fun _ => .ok ()) fun _ => .none)

def turns (is : List Nat) : List Label :=
  is.map .run

-- A scheduler executes the schedule, and then it is changed.
def calm : List Label :=
  upsert "0 * * * *" :: turns [0, 0] ++ (pass :: turns [1, 1, 1, 1, 1] ++ upsert "0 0 * * *" :: turns [2, 2])

-- The schedule is changed after a scheduler has read it.
def racing : List Label :=
  upsert "0 * * * *" :: turns [0, 0] ++ (pass :: turns [1, 1] ++ upsert "0 0 * * *" :: turns [2, 2, 1, 1, 1])

theorem launched_pass : Launched pass :=
  ⟨rfl, .inl rfl⟩

theorem launched_upsert {cronExpression : String} : Launched (upsert cronExpression) :=
  ⟨rfl, .inr ⟨_, rfl⟩⟩

theorem launched_turns {is : List Nat} : ∀ l ∈ turns is, Launched l := by
  intro l hl
  have ⟨_, _, he⟩ := List.mem_map.mp hl
  exact he ▸ trivial

-- What is produced for a day is its end.
theorem dvd_of_produces {schedule : Schedule} (h : cron.Produces schedule) (he : schedule.cronExpression = "0 0 * * *") :
    24 * 60 * Duration.minute ∣ schedule.nextRunAt := by
  have ⟨now, next, hn, hs⟩ := h
  have hp : cron.parseStandard schedule.cronExpression = .ok (24 * 60 * Duration.minute) := by rw [he]; rfl
  unfold CronPackages.nextRun at hn
  rw [hp] at hn
  cases hl : cron.location schedule.timezone <;> rw [hl] at hn
  case error => cases hn
  case ok    =>
    cases hn
    refine ⟨now / (24 * 60 * Duration.minute) + 1, hs.trans ?_⟩
    have hd : (1000 : Int) ∣ 24 * 60 * Duration.minute := by decide
    exact (Int.ediv_mul_cancel (hd.mul_left _)).trans (Int.mul_comm ..)

end Sample

theorem kept_of_allowed_sample :
    Crontab.Kept Sample.cron (Run.last Sample.step (start _ Sample.crontab) Sample.calm).world := by
  refine kept_of_allowed rfl (Run.Guarded.append.mpr ⟨⟨Sample.launched_upsert, ?_⟩, Run.Guarded.append.mpr
    ⟨⟨Sample.launched_pass, ?_⟩, ⟨Sample.launched_upsert, ?_⟩⟩⟩)
  all_goals exact Run.Guarded.map.mpr (by decide +kernel)

-- The schedule has the next run of its old expression, although no process is left.
theorem not_kept_of_race :
    let s := Run.last Sample.step (start Sample.cron Sample.crontab) Sample.racing
    (∀ l ∈ Sample.racing, Launched l) ∧ s.procs.all (·.prog matches .ret _) ∧ ¬Crontab.Kept Sample.cron s.world := by
  intro s
  have hl : ∀ l ∈ Sample.racing, Launched l := by
    simp only [Sample.racing, List.forall_mem_append, List.forall_mem_cons]
    exact ⟨⟨Sample.launched_upsert, Sample.launched_turns⟩, ⟨Sample.launched_pass, Sample.launched_turns⟩,
      Sample.launched_upsert, Sample.launched_turns⟩
  have hr : ∃ r ∈ s.world.schedules, r.cronExpression = "0 0 * * *" ∧
      r.nextRunAt % (24 * 60 * Duration.minute) ≠ 0 := by decide +kernel
  refine ⟨hl, by decide +kernel, fun h => ?_⟩
  obtain ⟨r, hm, he, hn⟩ := hr
  exact hn (Int.emod_eq_zero_of_dvd (Sample.dvd_of_produces (h r hm) he))

end Reschedulers
end JobPlatform
