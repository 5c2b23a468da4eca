import JobPlatform.Worker.Runtime

namespace JobPlatform
namespace Runtime

-- What becomes of the answer to `Dequeue`.
def handle (r : Runtime) (policies : List RateLimitPolicy) (handler : Job → Option Handling) :
    Except Error (Option LeasedJob) → Program Unit
  | .error _          => return ()
  | .ok none          => return ()
  | .ok (some leased) => r.process leased policies (handler leased.job)

theorem work_eq {r : Runtime} {policies : List RateLimitPolicy} {handler : Job → Option Handling} :
    r.work policies handler = (Broker.dequeue r.workerID r.queues r.leaseTTL).bind (r.handle policies handler) := by
  refine congrArg (Prog.bind · _) (funext fun res => ?_)
  cases res
  case error    => rfl
  case ok leased? => cases leased? <;> rfl

-- The places at which `Run` waits before it goes on.
inductive Phase
  | starting
  | started
  | selecting
  | dequeuing (dequeue : Program (Except Error (Option LeasedJob))) (policies : List RateLimitPolicy)
      (handler : Job → Option Handling)
  | sleeping
  | draining
  | waiting
  | stopping
  | returned (result : Except Error Unit)

-- The variables of `Run`, with the programs of the goroutines that process the jobs. The statuses are those which the
-- main goroutine has reported so far, and `done` says whether the context is done.
structure Loop where
  runtime     : Runtime
  concurrency : Nat
  phase       : Phase
  done        : Bool
  sem         : Nat
  wg          : Nat
  jobs        : List (Program Unit)
  statuses    : List String
  timedOut    : Bool

-- What the main goroutine waits for. A job is handled with the policies and the handler that the worker will have when
-- the job is leased.
inductive Choice
  | reported (result : Except Error Unit)
  | done
  | acquired (policies : List RateLimitPolicy) (handler : Job → Option Handling)
  | answered
  | woken
  | waited
  | timeout

namespace Loop

def start (r : Runtime) (concurrency : Nat) : Loop where
  runtime     := r
  concurrency := concurrency
  phase       := .starting
  done        := false
  sem         := 0
  wg          := 0
  jobs        := []
  statuses    := []
  timedOut    := false

def report (l : Loop) (status : String) (phase : Phase) : Loop :=
  { l with statuses := l.statuses ++ [status], phase }

def acquire (l : Loop) (policies : List RateLimitPolicy) (handler : Job → Option Handling) : Loop :=
  { l with
    sem   := l.sem + 1
    phase := .dequeuing (Broker.dequeue l.runtime.workerID l.runtime.queues l.runtime.leaseTTL) policies handler
  }

def sleepOrDone (l : Loop) : Loop :=
  { l with sem := l.sem - 1, phase := .sleeping }

def go (l : Loop) (job : Program Unit) : Loop :=
  { l with wg := l.wg + 1, jobs := l.jobs ++ [job], phase := .selecting }

-- How the main goroutine goes on. Nothing happens if it does not wait for the choice, or if that is not ready.
def next (l : Loop) (choice : Choice) : Loop :=
  match l.phase, choice with
  | .starting,                       .reported (.ok ())         => l.report "starting" .started
  | .starting,                       .reported (.error e)       => l.report "starting" (.returned (.error e))
  | .started,                        .reported (.ok ())         => l.report "running" .selecting
  | .started,                        .reported (.error e)       => l.report "running" (.returned (.error e))
  | .selecting,                      .done                      => if l.done then { l with phase := .draining } else l
  | .selecting,                      .acquired policies handler =>
    if l.sem < l.concurrency then l.acquire policies handler else l
  | .dequeuing (.ret res) ps handler, .answered                 =>
    match res with
    | .error _          => l.sleepOrDone
    | .ok none          => l.sleepOrDone
    | .ok (some leased) => l.go (l.runtime.process leased ps (handler leased.job))
  | .sleeping,                       .woken                     => { l with phase := .selecting }
  | .draining,                       .reported _                => l.report "draining" .waiting
  | .waiting,                        .waited                    => if l.wg = 0 then { l with phase := .stopping } else l
  | .waiting,                        .timeout                   => { l with phase := .stopping, timedOut := true }
  | .stopping,                       .reported _                => l.report "stopped" (.returned (.ok ()))
  | _,                               _                          => l

-- The goroutine of a job ends.
def release (l : Loop) (k : Nat) : Loop :=
  { l with sem := l.sem - 1, wg := l.wg - 1, jobs := l.jobs.eraseIdx k }

end Loop

namespace Phase

-- The slot that the main goroutine holds itself.
def slots : Phase → Nat
  | .dequeuing .. => 1
  | _             => 0

-- What has been reported when a phase is reached.
def Reports : Phase → List String → Prop
  | .starting                                                 => (· = [])
  | .started                                                  => (· = ["starting"])
  | .selecting | .dequeuing .. | .sleeping | .draining        => (· = ["starting", "running"])
  | .waiting | .stopping                                      => (· = ["starting", "running", "draining"])
  | .returned (.ok ())                                        => (· = ["starting", "running", "draining", "stopped"])
  | .returned (.error _)                                      => (· ∈ [["starting"], ["starting", "running"]])

-- No job has been leased yet, or none will be.
def Idle : Phase → Prop
  | .starting | .started | .returned (.error _) => True
  | _                                           => False

def Leaving : Phase → Prop
  | .draining | .waiting | .stopping | .returned (.ok ()) => True
  | _                                                     => False

def Drained : Phase → Prop
  | .stopping | .returned (.ok ()) => True
  | _                              => False

-- The worker has reported that it is draining.
def Closing : Phase → Prop
  | .waiting | .stopping | .returned (.ok ()) => True
  | _                                         => False

variable {phase : Phase} {statuses : List String}

theorem Closing.leaving (h : phase.Closing) : phase.Leaving := by
  unfold Closing at h
  split at h
  case h_4 => exact h.elim
  all_goals trivial

theorem Closing.slots (h : phase.Closing) : phase.slots = 0 := by
  unfold Closing at h
  split at h
  case h_4 => exact h.elim
  all_goals rfl

namespace Reports

theorem early {Q : List String → Prop} (h : Q [] ∧ Q ["starting"] ∧ Q ["starting", "running"])
    (hs : statuses ∈ [[], ["starting"], ["starting", "running"]]) : Q statuses := by
  obtain rfl | rfl | rfl : statuses = [] ∨ statuses = ["starting"] ∨ statuses = ["starting", "running"] := by
    simpa using hs
  exacts [h.left, h.right.left, h.right.right]

-- The statuses tell how far the main goroutine has come.
theorem cases (h : phase.Reports statuses) :
    (statuses ∈ [[], ["starting"], ["starting", "running"]] ∧ ¬phase.Closing) ∨
    (statuses = ["starting", "running", "draining"] ∧ phase.Closing) ∨
    (statuses = ["starting", "running", "draining", "stopped"] ∧ phase.Closing ∧ phase.Drained) := by
  cases phase
  case returned result =>
    cases result
    case ok    => exact .inr (.inr ⟨h, trivial, trivial⟩)
    case error => exact .inl ⟨List.mem_cons_of_mem _ h, id⟩
  case waiting | stopping => exact .inr (.inl ⟨h, trivial⟩)
  all_goals exact .inl ⟨by simp [show statuses = _ from h], id⟩

theorem ordered (h : phase.Reports statuses) : statuses <+: ["starting", "running", "draining", "stopped"] := by
  obtain ⟨hs, _⟩ | ⟨rfl, _⟩ | ⟨rfl, _⟩ := h.cases
  case inl => exact early (Q := (· <+: _)) (by decide) hs
  all_goals decide

theorem drained (h : phase.Reports statuses) (hs : "stopped" ∈ statuses) : phase.Drained := by
  obtain ⟨he, _⟩ | ⟨rfl, _⟩ | ⟨_, _, hd⟩ := h.cases
  case inl     => exact absurd hs (early (Q := ("stopped" ∉ ·)) (by decide) he)
  case inr.inl => exact absurd hs (by decide)
  case inr.inr => exact hd

end Reports

end Phase

namespace Loop

-- The semaphore counts the jobs in hand and the call of `Dequeue`, and the wait group counts the jobs.
structure Sound (l : Loop) : Prop where
  reports : l.phase.Reports l.statuses
  tokens  : l.sem = l.jobs.length + l.phase.slots
  bound   : l.sem ≤ l.concurrency
  counted : l.wg = l.jobs.length
  idle    : l.phase.Idle → l.jobs = []
  leaving : l.phase.Leaving → l.done
  drained : l.phase.Drained → l.jobs = [] ∨ l.timedOut

-- What can be said about a worker without regard to where its main goroutine is. It gives back each slot, as it can go
-- on whenever it has less jobs in hand than it is allowed to.
structure Orderly (l : Loop) : Prop where
  bounded  : l.jobs.length + l.phase.slots ≤ l.concurrency
  counted  : l.wg = l.jobs.length
  returned : l.phase = .selecting → l.jobs.length < l.concurrency → ∀ policies handler,
    l.next (.acquired policies handler) = l.acquire policies handler
  ordered  : l.statuses <+: ["starting", "running", "draining", "stopped"]
  canceled : "draining" ∈ l.statuses → l.done
  drained  : "stopped" ∈ l.statuses → l.jobs = [] ∨ l.timedOut

variable {l : Loop} {phase : Phase} {status : String} {k : Nat} {job : Program Unit}

namespace Sound

theorem start {r : Runtime} {concurrency : Nat} : (start r concurrency).Sound where
  reports := rfl
  tokens  := rfl
  bound   := Nat.zero_le _
  counted := rfl
  idle    := fun _ => rfl
  leaving := fun h => h.elim
  drained := fun h => h.elim

theorem reports_of (h : l.Sound) (hp : l.phase = phase) : phase.Reports l.statuses :=
  hp ▸ h.reports

theorem tokens_of (h : l.Sound) (hp : l.phase = phase) : l.sem = l.jobs.length + phase.slots :=
  hp ▸ h.tokens

-- The main goroutine may report the status of the worker when it goes on.
theorem turn {phase' : Phase} {statuses : List String} (h : l.Sound) (hp : l.phase = phase)
    (hr : phase'.Reports statuses) (hs : phase'.slots = phase.slots) (hi : phase'.Idle → l.jobs = [])
    (hl : phase'.Leaving → l.done) (hd : phase'.Drained → l.jobs = [] ∨ l.timedOut) :
    { l with phase := phase', statuses }.Sound :=
  ⟨hr, (h.tokens_of hp).trans (congrArg _ hs.symm), h.bound, h.counted, hi, hl, hd⟩

theorem acquire {policies : List RateLimitPolicy} {handler : Job → Option Handling} (h : l.Sound)
    (hp : l.phase = .selecting) (hn : l.sem < l.concurrency) : (l.acquire policies handler).Sound := by
  have hr := h.reports_of hp
  have ht := h.tokens_of hp
  exact ⟨hr, congrArg (· + 1) ht, hn, h.counted, False.elim, False.elim, False.elim⟩

section

variable {dequeue : Program (Except Error (Option LeasedJob))} {policies : List RateLimitPolicy}
         {handler : Job → Option Handling}

theorem sleepOrDone (h : l.Sound) (hp : l.phase = .dequeuing dequeue policies handler) : l.sleepOrDone.Sound := by
  have hr := h.reports_of hp
  have ht := Nat.sub_eq_of_eq_add (h.tokens_of hp)
  exact ⟨hr, ht, (Nat.sub_le ..).trans h.bound, h.counted, False.elim, False.elim, False.elim⟩

theorem go (h : l.Sound) (hp : l.phase = .dequeuing dequeue policies handler) : (l.go job).Sound := by
  have hr := h.reports_of hp
  have ht : l.sem = (l.jobs ++ [job]).length := (h.tokens_of hp).trans (by simp [Phase.slots])
  have hc : l.wg + 1 = (l.jobs ++ [job]).length := by simp [h.counted]
  exact ⟨hr, ht, h.bound, hc, False.elim, False.elim, False.elim⟩

end

theorem stop {timedOut : Bool} (h : l.Sound) (hp : l.phase = .waiting) (hj : l.jobs = [] ∨ timedOut) :
    { l with phase := .stopping, timedOut }.Sound := by
  have hr := h.reports_of hp
  have ht := h.tokens_of hp
  have hl : l.done := h.leaving (hp ▸ trivial)
  exact ⟨hr, ht, h.bound, h.counted, False.elim, fun _ => hl, fun _ => hj⟩

theorem next (h : l.Sound) (choice : Choice) : (l.next choice).Sound := by
  unfold Loop.next
  split
  case h_1 hp  =>
    have hr := congrArg (· ++ ["starting"]) (h.reports_of hp)
    exact h.turn hp hr rfl (fun _ => h.idle (hp ▸ trivial)) False.elim False.elim
  case h_2 hp  =>
    have hr : l.statuses = [] := h.reports_of hp
    exact h.turn hp (by simp [Phase.Reports, hr]) rfl (fun _ => h.idle (hp ▸ trivial)) False.elim False.elim
  case h_3 hp  =>
    have hr := congrArg (· ++ ["running"]) (h.reports_of hp)
    exact h.turn hp hr rfl False.elim False.elim False.elim
  case h_4 hp  =>
    have hr : l.statuses = ["starting"] := h.reports_of hp
    exact h.turn hp (by simp [Phase.Reports, hr]) rfl (fun _ => h.idle (hp ▸ trivial)) False.elim False.elim
  case h_5 hp  =>
    have hr := h.reports_of hp
    split
    case isTrue hd => exact h.turn hp hr rfl False.elim (fun _ => hd) False.elim
    case isFalse   => exact h
  case h_6 hp  =>
    split
    case isTrue hn => exact h.acquire hp hn
    case isFalse   => exact h
  case h_7 hp  =>
    split
    case h_1 | h_2 => exact h.sleepOrDone hp
    case h_3       => exact h.go hp
  case h_8 hp  =>
    have hr := h.reports_of hp
    exact h.turn hp hr rfl False.elim False.elim False.elim
  case h_9 hp  =>
    have hr := congrArg (· ++ ["draining"]) (h.reports_of hp)
    exact h.turn hp hr rfl False.elim (fun _ => h.leaving (hp ▸ trivial)) False.elim
  case h_10 hp =>
    split
    case isTrue hw =>
      have hj := List.length_eq_zero_iff.mp (h.counted.symm.trans hw)
      exact h.stop hp (.inl hj)
    case isFalse   => exact h
  case h_11 hp => exact h.stop hp (.inr rfl)
  case h_12 hp =>
    have hr := congrArg (· ++ ["stopped"]) (h.reports_of hp)
    have hd := h.drained (hp ▸ trivial)
    exact h.turn hp hr rfl False.elim (fun _ => h.leaving (hp ▸ trivial)) (fun _ => hd)
  case h_13    => exact h

-- The context of a worker is canceled.
theorem cancel (h : l.Sound) : { l with done := true }.Sound :=
  ⟨h.reports, h.tokens, h.bound, h.counted, h.idle, fun _ => rfl, h.drained⟩

-- A program takes the place of another.
theorem replace {jobs : List (Program Unit)} (h : l.Sound) (hn : jobs.length = l.jobs.length) :
    { l with jobs }.Sound := by
  have hj : l.jobs = [] → jobs = [] := fun hj => List.length_eq_zero_iff.mp (hn.trans (by simp [hj]))
  have hd : l.phase.Drained → jobs = [] ∨ l.timedOut := fun hd => (h.drained hd).imp_left hj
  exact ⟨h.reports, hn ▸ h.tokens, h.bound, hn ▸ h.counted, hj ∘ h.idle, h.leaving, hd⟩

theorem call {dequeue dequeue' : Program (Except Error (Option LeasedJob))} {policies : List RateLimitPolicy}
    {handler : Job → Option Handling} (h : l.Sound) (hp : l.phase = .dequeuing dequeue policies handler) :
    { l with phase := .dequeuing dequeue' policies handler }.Sound := by
  have hr := h.reports_of hp
  exact h.turn hp hr rfl False.elim False.elim False.elim

theorem release (h : l.Sound) (hk : k < l.jobs.length) : (l.release k).Sound := by
  have hn : (l.jobs.eraseIdx k).length = l.jobs.length - 1 := List.length_eraseIdx_of_lt hk
  have ht : l.sem - 1 = (l.jobs.eraseIdx k).length + l.phase.slots := by
    have ht := h.tokens
    omega
  have hc : l.wg - 1 = (l.jobs.eraseIdx k).length := by rw [hn, h.counted]
  have hj : l.jobs = [] → l.jobs.eraseIdx k = [] := fun hj => by simp [hj]
  have hd : l.phase.Drained → l.jobs.eraseIdx k = [] ∨ l.timedOut := fun hd => (h.drained hd).imp_left hj
  exact ⟨h.reports, ht, (Nat.sub_le ..).trans h.bound, hc, hj ∘ h.idle, h.leaving, hd⟩

end Sound

end Loop
end Runtime
end JobPlatform
