import JobPlatform.Leadership.Tenures
import JobPlatform.Scheduler.Cron
import JobPlatform.Scheduler.Service
import JobPlatform.Service.Manager

namespace JobPlatform

-- What `ensureLeadership` keeps of an answer.
def Candidate.ensure (c : Candidate) (token : Token) (acquired : Bool) : Candidate :=
  { c with leaderToken := token, isLeader := acquired }

-- The kinds of the events that it publishes.
def Candidate.published (c : Candidate) (token : Token) (acquired : Bool) : List String :=
  (if acquired ∧ (¬c.isLeader ∨ token ≠ c.leaderToken) then ["scheduler.leader_acquired"] else []) ++
  (if ¬acquired ∧ c.isLeader then ["scheduler.leader_lost"] else [])

namespace Scheduler

-- The tickers between which `Run` selects.
inductive Tick
  | leader
  | activation
  | recovery
  | cron
  deriving DecidableEq

-- Where `Run` is. While a due schedule is executed, the job of the schedule is enqueued call by call.
inductive Phase
  | selecting
  | sweeping (p : Program (Except Error Unit))
  | dispatching (p : CronProgram (Except Error Unit))
  | enqueuing (p : Program (Except Error Unit)) (k : Except Error Unit → CronProgram (Except Error Unit))
  | stopping
  | returned

-- The variables of `Run`, apart from those of the candidate. The events are those about the leadership.
structure Loop where
  scheduler : Scheduler
  enqueuer  : Manager
  phase     : Phase
  done      : Bool
  events    : List String

def enqueue (m : Manager) (req : JobRequest) (jobID : JobID) : Program (Except Error Unit) := do
  return (← m.enqueueJob req jobID).map fun _ => ()

namespace Loop

def start (s : Scheduler) (m : Manager) : Loop where
  scheduler := s
  enqueuer  := m
  phase     := .selecting
  done      := false
  events    := []

-- The pass that a tick of a leader begins.
def pass (cron : CronPackages) (l : Loop) : Tick → Phase
  | .leader     => .selecting
  | .activation => .sweeping l.scheduler.activateDue
  | .recovery   => .sweeping l.scheduler.recoverExpired
  | .cron       => .dispatching (runDueSchedules cron)

-- What follows the answer of `TryAcquire`.
def ensured (cron : CronPackages) (l : Loop) (tick : Tick) (c : Candidate) (token : Token) (acquired : Bool) : Loop :=
  { l with
    phase  := if acquired then l.pass cron tick else .selecting
    events := l.events ++ c.published token acquired
  }

-- The scheduler panics when it dereferences `nil`, but it still gives up the leadership.
def finish (l : Loop) : Except Error Unit → Loop
  | .error .nilDereference => { l with phase := .stopping }
  | _                      => { l with phase := .selecting }

end Loop

-- The events tell in turn that the leadership has been acquired and that it has been lost.
def alternating : Nat → List String
  | 0     => []
  | n + 1 => alternating n ++ [if n % 2 = 0 then "scheduler.leader_acquired" else "scheduler.leader_lost"]

example : alternating 3 = ["scheduler.leader_acquired", "scheduler.leader_lost", "scheduler.leader_acquired"] := by
  decide

end Scheduler

-- The last event tells whether the scheduler takes itself for the leader.
structure Candidate.Announced (c : Candidate) (events : List String) : Prop where
  token : c.isLeader → c.leaderToken ≠ ""
  turns : ∃ n, events = Scheduler.alternating n ∧ (c.isLeader ↔ n % 2 = 1)

namespace Candidate.Announced

variable {c : Candidate} {events : List String} {token : Token}

theorem ensure (h : c.Announced events) (acquired : Bool) (hn : token ≠ "")
    (ht : c.leaderToken ≠ "" → token = c.leaderToken) :
    (c.ensure token acquired).Announced (events ++ c.published token acquired) where
  token _ := hn
  turns   := by
    obtain ⟨n, rfl, hl⟩ := h.turns
    have hs (hl : c.isLeader) : token = c.leaderToken := ht (h.token hl)
    unfold Candidate.published Candidate.ensure
    by_cases hc : c.isLeader = acquired
    case pos =>
      refine ⟨n, ?_, hc ▸ hl⟩
      cases acquired
      case false => simp [hc]
      case true  => simp [hc, hs hc]
    case neg =>
      cases acquired
      case false =>
        have hi : c.isLeader := by simpa using hc
        have hn := hl.mp hi
        exact ⟨n + 1, by simp [hi, Scheduler.alternating, hn], by simp; omega⟩
      case true  =>
        have hi : c.isLeader = false := by simpa using hc
        have hn : n % 2 = 0 := by simpa [hi] using hl
        exact ⟨n + 1, by simp [hi, Scheduler.alternating, hn], by simp; omega⟩

end Candidate.Announced
end JobPlatform
