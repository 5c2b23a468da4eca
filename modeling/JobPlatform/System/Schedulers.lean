import JobPlatform.Scheduler.Dispatch
import JobPlatform.Scheduler.Loop
import JobPlatform.System.Fleet

namespace JobPlatform

-- A pass that a scheduler has begun.
structure Pass where
  scheduler : Nat
  begun     : Int

-- The running schedulers, each of which is a candidate by its number, and the rest of the platform.
structure Schedulers (W : Type) where
  fleet   : Fleet W
  crontab : Crontab
  reign   : Reign
  loops   : List Scheduler.Loop
  passes  : List Pass

namespace Schedulers

inductive Label
  | fleet (label : Fleet.Label)
  | boot (s : Scheduler) (m : Manager) (schedulerID : String) (leadershipTTL : Duration) (now : Time)
  | cancel (i : Nat)
  | tick (i : Nat) (tick : Scheduler.Tick) (uuid : Token) (now : Time) (fault : Fault)
  | turn (i : Nat) (jobID : JobID)
  | stop (i : Nat) (now : Time) (fault : Fault)

variable {W : Type} (exec : W → (c : Call) → W × c.Resp) (faults : Nat → Fault) (cron : CronPackages)

def set (s : Schedulers W) (i : Nat) (l : Scheduler.Loop) : Schedulers W :=
  { s with loops := s.loops.set i l }

def perform (s : Schedulers W) (c : Call) : Schedulers W × c.Resp :=
  let (fleet, res) := s.fleet.perform exec c
  ({ s with fleet }, res)

-- A scheduler that selects a tick checks whether it is the leader.
def tick (s : Schedulers W) (i : Nat) (l : Scheduler.Loop) (tick : Scheduler.Tick) (uuid : Token) (now : Time)
    (fault : Fault) : Schedulers W :=
  match l.phase with
  | .selecting =>
    let election := s.reign.election
    let acquired := (election.acquireLeader i uuid now).2
    let s        := { s with reign := s.reign.step (.tryAcquire i uuid now fault) }
    if fault = .none then
      let s := s.set i (l.ensured cron tick (election.candidates i) (election.token i uuid) acquired)
      if acquired ∧ tick ≠ .leader then { s with passes := s.passes ++ [⟨i, now.unixMilli⟩] } else s
    else s
  | _ => s

-- A scheduler goes on with its pass.
def turn (s : Schedulers W) (i : Nat) (l : Scheduler.Loop) (jobID : JobID) : Schedulers W :=
  match l.phase with
  | .sweeping (.ret res)     => s.set i (l.finish res)
  | .sweeping (.call c k)    =>
    let (s, res) := s.perform exec c
    s.set i { l with phase := .sweeping (k res) }
  | .dispatching (.ret res)  => s.set i (l.finish res)
  | .dispatching (.call (.enqueueJob _ req) k) =>
    s.set i { l with phase := .enqueuing (Scheduler.enqueue l.enqueuer req jobID) k }
  | .dispatching (.call c k) =>
    let (crontab, res) := s.crontab.exec (fun _ => .ok ()) faults c
    ({ s with crontab }).set i { l with phase := .dispatching (k res) }
  | .enqueuing (.ret res) k  => s.set i { l with phase := .dispatching (k res) }
  | .enqueuing (.call c p) k =>
    let (s, res) := s.perform exec c
    s.set i { l with phase := .enqueuing (p res) k }
  | _                        => s

def leave (s : Schedulers W) (i : Nat) (l : Scheduler.Loop) (now : Time) (fault : Fault) : Schedulers W :=
  ({ s with reign := s.reign.step (.release i now fault) }).set i { l with phase := .returned }

-- A scheduler whose context is done may select that, and gives up the leadership.
def stop (s : Schedulers W) (i : Nat) (l : Scheduler.Loop) (now : Time) (fault : Fault) : Schedulers W :=
  match l.phase with
  | .selecting => if l.done then s.leave i l now fault else s
  | .stopping  => s.leave i l now fault
  | _          => s

def boot (s : Schedulers W) (l : Scheduler.Loop) (schedulerID : String) (leadershipTTL : Duration) (now : Time) :
    Schedulers W :=
  { s with
    reign := s.reign.step (.start s.loops.length schedulerID leadershipTTL now)
    loops := s.loops ++ [l]
  }

def step (s : Schedulers W) : Label → Schedulers W
  | .fleet label                           => { s with fleet := s.fleet.step exec label }
  | .boot cfg m schedulerID leadershipTTL now => s.boot (.start cfg m) schedulerID leadershipTTL now
  | .cancel i                              => s.loops[i]?.elim s fun l => s.set i { l with done := true }
  | .tick i t uuid now fault               => s.loops[i]?.elim s (s.tick cron i · t uuid now fault)
  | .turn i jobID                          => s.loops[i]?.elim s (s.turn exec faults i · jobID)
  | .stop i now fault                      => s.loops[i]?.elim s (s.stop i · now fault)

def start (w : W) (crontab : Crontab) (time : Time) : Schedulers W where
  fleet   := .start w
  crontab := crontab
  reign   := .initial time
  loops   := []
  passes  := []

-- What the step does to the election.
def vote (s : Schedulers W) : Label → Option ElectionLabel
  | .boot _ _ schedulerID leadershipTTL now => some <| .start s.loops.length schedulerID leadershipTTL now
  | .tick i _ uuid now fault               => some <| .tryAcquire i uuid now fault
  | .stop i now fault                      => some <| .release i now fault
  | _                                      => none

def Allowed (s : Schedulers W) (label : Label) : Prop :=
  ∀ l ∈ s.vote label, s.reign.election.Allowed l

instance {s : Schedulers W} {label : Label} : Decidable (s.Allowed label) :=
  inferInstanceAs (Decidable (∀ _ ∈ _, _))

-- A tenure of the scheduler begins with the pass.
def Covers (tenures : List Tenure) (p : Pass) : Prop :=
  ∃ t ∈ tenures, t.scheduler = p.scheduler ∧ t.since = p.begun

-- Each scheduler announces in turn that it acquires the leadership and that it loses it.
def Announced (candidates : Nat → Candidate) (loops : List Scheduler.Loop) : Prop :=
  ∀ i l, loops[i]? = some l → (candidates i).Announced l.events

-- The tenures of two schedulers do not overlap, the next one is granted as soon as they have ended, and a pass is begun
-- by the scheduler that leads.
structure Led (s : Schedulers W) : Prop where
  apart     : Reign.Apart s.reign.tenures
  opens     : s.reign.Open
  begun     : ∀ p ∈ s.passes, Covers s.reign.tenures p
  announced : Announced s.reign.election.candidates s.loops

structure Sound (s : Schedulers W) : Prop where
  reign     : s.reign.Sound
  begun     : ∀ p ∈ s.passes, Covers s.reign.tenures p
  announced : Announced s.reign.election.candidates s.loops

variable {exec faults cron} {s : Schedulers W} {i : Nat} {l l' : Scheduler.Loop} {c c' : Nat → Candidate}
         {loops : List Scheduler.Loop} {p : Pass} {label : Label} {uuid : Token} {now : Time} {fault : Fault}

theorem Covers.record {r : Reign} (h : Covers r.tenures p) (label : ElectionLabel) : Covers (r.record label) p := by
  obtain ⟨t, ht, hi, hs⟩ := h
  cases label
  case start      => exact ⟨t, ht, hi, hs⟩
  case tryAcquire => exact ⟨t, List.mem_append_left _ ht, hi, hs⟩
  case release    =>
    unfold Reign.record
    dsimp only
    split
    case isTrue  => exact ⟨t, ht, hi, hs⟩
    case isFalse =>
      refine ⟨_, List.mem_map_of_mem ht, ?_, ?_⟩
      all_goals
        unfold Tenure.release
        split <;> assumption

theorem Announced.set (h : Announced c loops) (hc : ∀ j ≠ i, c' j = c j) (hl : (c' i).Announced l.events) :
    Announced c' (loops.set i l) := by
  intro j x hx
  by_cases hj : j = i
  case neg => exact hc j hj ▸ h j x ((List.getElem?_set_ne (Ne.symm hj)).symm.trans hx)
  case pos =>
    subst hj
    have hn := (List.getElem?_eq_some_iff.mp hx).choose
    obtain rfl : l = x := by simpa [List.getElem?_set, (List.length_set ▸ hn)] using hx
    exact hl

theorem Announced.append (h : Announced c loops) (hc : ∀ j ≠ loops.length, c' j = c j)
    (hl : (c' loops.length).Announced l.events) : Announced c' (loops ++ [l]) := by
  intro j x hx
  obtain hj | rfl | hj := lt_trichotomy j loops.length
  · exact hc j hj.ne ▸ h j x ((List.getElem?_append_left hj).symm.trans hx)
  · obtain rfl := Option.some_inj.mp (List.getElem?_concat_length.symm.trans hx)
    exact hl
  · rw [List.getElem?_eq_none (by simpa using Nat.succ_le_of_lt hj)] at hx
    cases hx

namespace Sound

theorem set (h : Sound s) (hl : s.loops[i]? = some l) (he : l'.events = l.events) : Sound (s.set i l') where
  reign     := h.reign
  begun     := h.begun
  announced := h.announced.set (fun _ _ => rfl) (he ▸ h.announced i l hl)

-- What the scheduler does to the rest of the platform.
theorem work (h : Sound s) (fleet : Fleet W) (crontab : Crontab) : Sound { s with fleet, crontab } :=
  ⟨h.reign, h.begun, h.announced⟩

theorem elim (h : Sound s) {f : Scheduler.Loop → Schedulers W} (hf : ∀ l, s.loops[i]? = some l → Sound (f l)) :
    Sound (s.loops[i]?.elim s f) := by
  cases hl : s.loops[i]?
  case none => exact h
  case some => exact hf _ hl

theorem boot (h : Sound s) {cfg : Scheduler} {m : Manager} {schedulerID : String} {leadershipTTL : Duration}
    (ha : s.reign.election.Allowed (.start s.loops.length schedulerID leadershipTTL now)) :
    Sound (s.boot (.start cfg m) schedulerID leadershipTTL now) where
  reign     := h.reign.step ha
  begun p hp := (h.begun p hp).record (.start s.loops.length schedulerID leadershipTTL now)
  announced := by
    have hc : (s.boot (.start cfg m) schedulerID leadershipTTL now).reign.election.candidates =
        Function.update s.reign.election.candidates s.loops.length
          { schedulerID, leadershipTTL, leaderToken := "", isLeader := false } := rfl
    rw [hc]
    refine h.announced.append (fun j hj => Function.update_of_ne hj ..) ?_
    rw [Function.update_self]
    exact ⟨nofun, 0, rfl, by simp⟩

theorem leave (h : Sound s) (hl : s.loops[i]? = some l) (ha : s.reign.election.Allowed (.release i now fault)) :
    Sound (s.leave i l now fault) where
  reign     := h.reign.step ha
  begun p hp := (h.begun p hp).record (.release i now fault)
  announced := by
    have hc : (s.leave i l now fault).reign.election.candidates = s.reign.election.candidates := by
      simp only [Schedulers.leave, Schedulers.set, Reign.step, Election.step, Election.release]
      split <;> rfl
    exact hc ▸ h.announced.set (fun _ _ => rfl) (h.announced i l hl)

-- What is left of a check whose answer does not arrive.
theorem unanswered (h : Sound s) (ha : s.reign.election.Allowed (.tryAcquire i uuid now fault))
    (hf : fault ≠ .none) : Sound { s with reign := s.reign.step (.tryAcquire i uuid now fault) } where
  reign     := h.reign.step ha
  begun p hp := (h.begun p hp).record (.tryAcquire i uuid now fault)
  announced := by
    have hc : (s.reign.step (.tryAcquire i uuid now fault)).election.candidates = s.reign.election.candidates := by
      cases fault
      case none           => exact absurd rfl hf
      case refused | lost => rfl
    exact hc ▸ h.announced

theorem answered (h : Sound s) (hl : s.loops[i]? = some l) {t : Scheduler.Tick} {passes : List Pass}
    (ha : s.reign.election.Allowed (.tryAcquire i uuid now .none))
    (hp : ∀ p ∈ passes, p ∈ s.passes ∨
      (s.reign.election.acquireLeader i uuid now).2 ∧ p = ⟨i, now.unixMilli⟩) : Sound { s with
        reign  := s.reign.step (.tryAcquire i uuid now .none)
        loops  := s.loops.set i (l.ensured cron t (s.reign.election.candidates i) (s.reign.election.token i uuid)
          (s.reign.election.acquireLeader i uuid now).2)
        passes } where
  reign     := h.reign.step ha
  begun p hq := by
    obtain hq | ⟨hg, rfl⟩ := hp p hq
    case inl => exact (h.begun p hq).record (.tryAcquire i uuid now .none)
    case inr =>
      refine ⟨s.reign.election.tenure i uuid now, List.mem_append_right _ ?_, rfl, rfl⟩
      exact Election.mem_tenures.mpr ⟨nofun, hg, rfl⟩
  announced := by
    have hc : (s.reign.step (.tryAcquire i uuid now .none)).election.candidates =
        Function.update s.reign.election.candidates i ((s.reign.election.candidates i).ensure
          (s.reign.election.token i uuid) (s.reign.election.acquireLeader i uuid now).2) := rfl
    have ht (hn : (s.reign.election.candidates i).leaderToken ≠ "") :
        s.reign.election.token i uuid = (s.reign.election.candidates i).leaderToken := if_neg hn
    rw [hc]
    refine h.announced.set (fun j hj => Function.update_of_ne hj ..) ?_
    rw [Function.update_self]
    exact (h.announced i l hl).ensure _ (Election.token_ne_empty ha.right.left) ht

theorem tick (h : Sound s) (hl : s.loops[i]? = some l) {t : Scheduler.Tick}
    (ha : s.reign.election.Allowed (.tryAcquire i uuid now fault)) : Sound (s.tick cron i l t uuid now fault) := by
  unfold Schedulers.tick
  split
  case h_2 => exact h
  case h_1 =>
    dsimp only
    split
    case isFalse hf => exact h.unanswered ha hf
    case isTrue hf  =>
      subst hf
      split
      case isFalse    => exact h.answered hl ha fun p hp => .inl hp
      case isTrue hc =>
        refine h.answered hl ha fun p hp => ?_
        obtain hp | hp := List.mem_append.mp hp
        case inl => exact .inl hp
        case inr => exact .inr ⟨hc.left, List.mem_singleton.mp hp⟩

theorem turn (h : Sound s) (hl : s.loops[i]? = some l) (jobID : JobID) : Sound (s.turn exec faults i l jobID) := by
  have hf (e : Except Error Unit) : (l.finish e).events = l.events := by
    unfold Scheduler.Loop.finish
    split <;> rfl
  unfold Schedulers.turn
  split
  case h_1 | h_3 => exact h.set hl (hf _)
  case h_2 | h_7 => exact (h.work _ _).set hl rfl
  case h_5       => exact (h.work _ _).set hl rfl
  case h_4 | h_6 => exact h.set hl rfl
  case h_8       => exact h

theorem step (h : Sound s) (ha : s.Allowed label) : Sound (s.step exec faults cron label) := by
  cases label
  case fleet  => exact h.work _ _
  case boot   => exact h.boot (ha _ rfl)
  case cancel => exact h.elim fun l hl => h.set hl rfl
  case tick   => exact h.elim fun l hl => h.tick hl (ha _ rfl)
  case turn   => exact h.elim fun l hl => h.turn hl _
  case stop   =>
    refine h.elim fun l hl => ?_
    unfold Schedulers.stop
    split
    case h_1 =>
      split
      case isTrue  => exact h.leave hl (ha _ rfl)
      case isFalse => exact h
    case h_2 => exact h.leave hl (ha _ rfl)
    case h_3 => exact h

theorem start {w : W} {crontab : Crontab} {time : Time} : Sound (start w crontab time) where
  reign     := .initial
  begun     := List.forall_mem_nil _
  announced := by simp [Schedulers.start, Announced]

theorem led (h : Sound s) : Led s :=
  ⟨h.reign.apart, h.reign.opens, h.begun, h.announced⟩

end Sound

-- However the schedulers act and fail, whatever they find to do, and whatever goes on beside them.
theorem led_of_allowed {w : W} {crontab : Crontab} {time : Time} {ls : List Label}
    (hg : Run.Guarded (step exec faults cron) Allowed (start w crontab time) ls) :
    Led (Run.last (step exec faults cron) (start w crontab time) ls) :=
  (hg.invariant (fun _ _ h ha => h.step ha) Sound.start).led

namespace Sample

def time (seconds : Nat) : Time :=
  .ofUnixMilli (1700000000000 + 1000 * seconds)

def boot (schedulerID : String) : Label :=
  .boot ⟨200, 200⟩ .sample schedulerID (15 * Duration.second) (time 0)

-- The first scheduler is canceled in its pass. When it has given up the leadership, the second one gets it.
def labels : List Label := [
  boot "scheduler-a",
  boot "scheduler-b",
  .tick 0 .activation "7b6a1f0e-42d6-4c6e-9a53-0f5d2c9f8b11" (time 1) .none,
  .turn 0 "",
  .tick 1 .recovery "c2f7d9b4-0c0f-4d8e-8f0a-5b1a6e3d7c22" (time 2) .none,
  .cancel 0,
  .turn 0 "",
  .turn 0 "",
  .stop 0 (time 3) .none,
  .tick 1 .recovery "e41b5b6c-7a35-43cf-b6ef-6b6c5f0e1d33" (time 4) .none
]

def initial : Schedulers World :=
  start .sample (Dispatchers.Sample.crontab .sample) (time 0)

def run : Schedulers World :=
  Run.last (step World.exec (fun _ => .none) Dispatchers.Sample.cron) initial labels

theorem labels_allowed : Run.Guarded (step World.exec (fun _ => .none) Dispatchers.Sample.cron) Allowed initial labels := by
  decide +kernel

end Sample

theorem led_of_allowed_sample : Led Sample.run :=
  led_of_allowed Sample.labels_allowed

example : Sample.run.passes.map (·.scheduler) = [0, 1] := by
  decide +kernel

-- What is left of the pass of a scheduler for the stores to see.
def pass (l : Scheduler.Loop) : List (Program (Except Error Unit)) :=
  match l.phase with
  | .sweeping p    => [p]
  | .enqueuing p _ => [p]
  | _              => []

def progs (s : Schedulers W) : List (Program (Except Error Unit)) :=
  s.loops.flatMap pass

def others (s : Schedulers W) (i : Nat) : List (Program (Except Error Unit)) :=
  (s.loops.eraseIdx i).flatMap pass

theorem progs_set (hl : s.loops[i]? = some l) (l' : Scheduler.Loop) : (s.set i l').progs.Perm (pass l' ++ s.others i) := by
  have hi := (List.getElem?_eq_some_iff.mp hl).choose
  have hp := (List.set_perm_cons_eraseIdx hi l').flatMap_right pass
  rwa [List.flatMap_cons] at hp

theorem progs_perm (hl : s.loops[i]? = some l) : s.progs.Perm (pass l ++ s.others i) := by
  obtain ⟨hi, rfl⟩ := List.getElem?_eq_some_iff.mp hl
  have hp := progs_set hl s.loops[i]
  rwa [set, List.set_getElem_self] at hp

section

variable {P : Protocol Call Call.Resp} {S : Pool.Semantics P (Except Error Unit) W} {q : P.State} {s' : Schedulers W}
         {t : Pool P (Except Error Unit) W}

-- The pool can go on to where the schedulers are.
def Reaches (S : Pool.Semantics P (Except Error Unit) W) (q : P.State) (t : Pool P (Except Error Unit) W)
    (s : Schedulers W) : Prop :=
  s.fleet.Reaches S q s.progs t

namespace Reaches

-- A pass goes on without a call to the stores, or is over.
theorem drop (h : s.fleet.Refines s.progs t) (hl : s.loops[i]? = some l) (hf : s'.fleet = s.fleet)
    (hs : s'.loops = s.loops.set i l') (hp : (pass l').Sublist (pass l)) : s'.Reaches S q t := by
  have hq : s'.progs.Subperm s.progs := by
    rw [progs, hs]
    exact (progs_set hl l').subperm.trans <| (hp.subperm.append (.refl _)).trans (progs_perm hl).symm.subperm
  exact .rest ⟨hf ▸ h.world, hf ▸ (hq.append (.refl _)).trans h.progs⟩

-- A procedure of the platform is started.
theorem spawn (h : s.fleet.Refines s.progs t) (hl : s.loops[i]? = some l) (hf : s'.fleet = s.fleet)
    (hs : s'.loops = s.loops.set i l') (hn : pass l = []) (op : Operation) (hp : pass l' = [op.program]) :
    s'.Reaches S q t := by
  have hq : (s'.progs ++ s'.fleet.progs).Perm (op.program :: (s.progs ++ s.fleet.progs)) := by
    have hx := progs_set hl l'
    have hy := progs_perm hl
    rw [hp] at hx
    rw [hn] at hy
    rw [progs, hs, hf]
    exact (hx.trans (hy.symm.cons _)).append_right _
  exact Fleet.Reaches.spawn (h.launch (congrArg Fleet.world hf) hq)

-- A call of the pass is made.
theorem call (he : S.exec = exec) (hk : ∀ c, (S.forks c).map (·.prog) = c.forks) (h : s.fleet.Refines s.progs t)
    (hl : s.loops[i]? = some l) {c : Call} {k : c.Resp → Program (Except Error Unit)} (hp : pass l = [.call c k])
    (hf : s'.fleet = (s.fleet.perform exec c).1) (hs : s'.loops = s.loops.set i l')
    (hp' : pass l' = [k (exec s.fleet.world c).2]) : s'.Reaches S q t := by
  have hx := progs_set hl l'
  have hy := progs_perm hl
  rw [hp'] at hx
  rw [hp] at hy
  refine .run (h.perform he hk (hy.append_right _) (congrArg Fleet.world hf) ?_)
  rw [progs, hs, hf]
  have hq : (s.fleet.perform exec c).1.progs = s.fleet.progs ++ c.forks := by
    simp [Fleet.progs, Fleet.perform]
  rw [hq, ← List.append_assoc]
  exact (hx.append_right _).append_right _

end Reaches

theorem elim_reaches (h : s.fleet.Refines s.progs t) {f : Scheduler.Loop → Schedulers W}
    (hf : ∀ l, s.loops[i]? = some l → Reaches S q t (f l)) : Reaches S q t (s.loops[i]?.elim s f) := by
  cases hl : s.loops[i]?
  case none => exact .rest h
  case some => exact hf _ hl

-- A check leads to at most one pass.
theorem pass_ensured {t : Scheduler.Tick} {c : Candidate} {token : Token} {acquired : Bool} :
    pass (l.ensured cron t c token acquired) = [] ∨
    ∃ op : Operation, pass (l.ensured cron t c token acquired) = [op.program] := by
  cases acquired
  case false => exact .inl rfl
  case true  =>
    cases t
    case leader | cron => exact .inl rfl
    case activation    => exact .inr ⟨.activateDue l.scheduler, rfl⟩
    case recovery      => exact .inr ⟨.recoverExpired l.scheduler, rfl⟩

theorem pass_finish (res : Except Error Unit) : pass (l.finish res) = [] := by
  unfold Scheduler.Loop.finish
  split <;> rfl

theorem tick_reaches (h : s.fleet.Refines s.progs t) (hl : s.loops[i]? = some l) {t' : Scheduler.Tick} :
    Reaches S q t (s.tick cron i l t' uuid now fault) := by
  unfold Schedulers.tick
  split
  case h_2    => exact .rest h
  case h_1 hp =>
    have hn : pass l = [] := by rw [pass, hp]
    dsimp only
    split
    case isFalse => exact .rest h
    case isTrue  =>
      have hr (s') (hf : s'.fleet = s.fleet) (hs : s'.loops = s.loops.set i (l.ensured cron t'
          (s.reign.election.candidates i) (s.reign.election.token i uuid)
          (s.reign.election.acquireLeader i uuid now).2)) : Reaches S q t s' := by
        obtain hp | ⟨op, hp⟩ := pass_ensured
        case inl => exact .drop h hl hf hs (hp ▸ List.nil_sublist _)
        case inr => exact .spawn h hl hf hs hn op hp
      split <;> exact hr _ rfl rfl

theorem turn_reaches (he : S.exec = exec) (hk : ∀ c, (S.forks c).map (·.prog) = c.forks)
    (h : s.fleet.Refines s.progs t) (hl : s.loops[i]? = some l) (jobID : JobID) :
    Reaches S q t (s.turn exec faults i l jobID) := by
  unfold Schedulers.turn
  split
  case h_1 hp | h_3 hp => exact .drop h hl rfl rfl (pass_finish _ ▸ List.nil_sublist _)
  case h_2 hp          => exact .call he hk h hl (by rw [pass, hp]) rfl rfl rfl
  case h_7 hp          => exact .call he hk h hl (by rw [pass, hp]) rfl rfl rfl
  case h_4 req k hp    =>
    exact .spawn h hl rfl rfl (by rw [pass, hp]) (.enqueueJob l.enqueuer req jobID) rfl
  case h_5 | h_6       => exact .drop h hl rfl rfl (List.nil_sublist _)
  case h_8             => exact .rest h

theorem step_reaches (he : S.exec = exec) (hk : ∀ c, (S.forks c).map (·.prog) = c.forks)
    (h : s.fleet.Refines s.progs t) (label : Label) : Reaches S q t (s.step exec faults cron label) := by
  cases label
  case fleet label => exact Fleet.step_reaches he hk h label
  case boot        =>
    refine .rest ⟨h.world, ?_⟩
    simpa [Schedulers.step, Schedulers.boot, progs, pass, Scheduler.Loop.start] using h.progs
  case cancel      => exact elim_reaches h fun l hl => .drop h hl rfl rfl (.refl _)
  case tick        => exact elim_reaches h fun l hl => tick_reaches h hl
  case turn        => exact elim_reaches h fun l hl => turn_reaches he hk h hl _
  case stop        =>
    refine elim_reaches h fun l hl => ?_
    unfold Schedulers.stop
    split
    case h_1 =>
      split
      case isTrue  => exact .drop h hl rfl rfl (List.nil_sublist _)
      case isFalse => exact .rest h
    case h_2 => exact .drop h hl rfl rfl (List.nil_sublist _)
    case h_3 => exact .rest h

theorem last_reaches (he : S.exec = exec) (hk : ∀ c, (S.forks c).map (·.prog) = c.forks)
    (h : s.fleet.Refines s.progs t) (ls : List Label) :
    Reaches S q t (Run.last (step exec faults cron) s ls) := by
  induction ls generalizing s t
  case nil              => exact .rest h
  case cons label ls hi =>
    obtain ⟨labels, hl, hr⟩ := step_reaches (q := q) he hk h label
    obtain ⟨labels', hl', hr'⟩ := hi hr
    refine ⟨labels ++ labels', List.forall_mem_append.mpr ⟨hl, hl'⟩, ?_⟩
    simpa only [Run.last, List.foldl_append, List.foldl_cons] using hr'

end

-- Whatever the loops of the schedulers and of the workers do could be done by procedures that are started one by one
-- at any time.
theorem stores_of_run {P : Protocol Call Call.Resp} (beating : Job → Token → P.State) (q : P.State) (w : W)
    (crontab : Crontab) (time : Time) (ls : List Label) :
    ∃ labels : List (Pool.Label P (Except Error Unit)), (∀ a ∈ labels, Fleet.Launches q a) ∧
    (Run.last (Pool.step ⟨exec, (platform P beating).forks⟩) ⟨w, []⟩ labels).world =
    (Run.last (step exec faults cron) (start w crontab time) ls).fleet.world := by
  obtain ⟨labels, hl, hr⟩ := last_reaches (S := ⟨exec, (platform P beating).forks⟩) (q := q)
    (s := start w crontab time) rfl (fun _ => platform_forks) (Fleet.Refines.start w) ls
  exact ⟨labels, hl, hr.world⟩

end Schedulers
end JobPlatform
