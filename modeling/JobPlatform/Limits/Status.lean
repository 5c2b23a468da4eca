import JobPlatform.Limits.Rollback

namespace JobPlatform

-- The keys of the limiter.
inductive LimiterKey
  | rate (policyID : String)
  | concurrency (policyID : String)
  deriving DecidableEq

namespace Limits

def get (l : Limits) : LimiterKey → ExpiringSet
  | .rate id        => l.rate id
  | .concurrency id => l.concurrency id

def set (l : Limits) (s : ExpiringSet) : LimiterKey → Limits
  | .rate id        => { l with rate := Function.update l.rate id s }
  | .concurrency id => { l with concurrency := Function.update l.concurrency id s }

end Limits

-- The commands that `Status` sends to Redis one after the other.
inductive StatusCall
  | now
  | zRemRangeByScore (key : LimiterKey) (max : Int)
  | zCard (key : LimiterKey)

abbrev StatusCall.Resp : StatusCall → Type
  | now                 => Time
  | zRemRangeByScore .. => Except Error Int
  | zCard ..            => Except Error Int

abbrev StatusProgram :=
  Prog StatusCall StatusCall.Resp

def StatusCall.failure? : (c : StatusCall) → Option c.Resp
  | now                 => none
  | zRemRangeByScore .. => some <| .error .unavailable
  | zCard ..            => some <| .error .unavailable

def statusNow : StatusProgram Time :=
  Prog.perform StatusCall.now

def zRemRangeByScore (key : LimiterKey) (max : Int) : StatusProgram (Except Error Int) :=
  Prog.perform (StatusCall.zRemRangeByScore key max)

def zCard (key : LimiterKey) : StatusProgram (Except Error Int) :=
  Prog.perform (StatusCall.zCard key)

namespace World

def statusExec (w : World) : (c : StatusCall) → World × c.Resp
  | .now => ({ w with calls := w.calls + 1 }, w.now)
  | .zRemRangeByScore key max =>
    let members := (w.limits.get key).live w.now.unixMilli
    let rest    := members.removeRangeByScore max
    let limits  := w.limits.set { w.limits.get key with members := rest } key
    ({ w with calls := w.calls + 1, limits }, .ok (members.card - rest.card))
  | .zCard key => ({ w with calls := w.calls + 1 }, .ok ((w.limits.get key).live w.now.unixMilli).card)

def tryStatus (faults : Nat → Fault) (w : World) (c : StatusCall) : World × c.Resp :=
  match faults w.calls, c.failure? with
  | .refused, some res => ({ w with calls := w.calls + 1 }, res)
  | .lost,    some res => ((w.statusExec c).1, res)
  | _,        _        => w.statusExec c

end World

structure RateLimitStatus where
  policy      : RateLimitPolicy
  activeCount : Int
  recentCount : Int
  throttled   : Bool

namespace Limiter

-- The body of the loop of `Status`.
def statusOf (policy : RateLimitPolicy) (now : Time) : StatusProgram (Except Error RateLimitStatus) :=
  match policy.mode with
  | .concurrency => do
    let key := LimiterKey.concurrency policy.id
    match ← zRemRangeByScore key now.unixMilli with
    | .error e => return .error e
    | .ok _    =>
      match ← zCard key with
      | .error e  => return .error e
      | .ok count => return .ok { policy, activeCount := count, recentCount := 0, throttled := policy.limit ≤ count }
  | .rate => do
    let key := LimiterKey.rate policy.id
    match ← zRemRangeByScore key (now.unixMilli - Limits.windowMillis policy) with
    | .error e => return .error e
    | .ok _    =>
      match ← zCard key with
      | .error e  => return .error e
      | .ok count => return .ok { policy, activeCount := 0, recentCount := count, throttled := policy.limit ≤ count }

def statusAll (now : Time) :
    List RateLimitPolicy → List RateLimitStatus → StatusProgram (Except Error (List RateLimitStatus))
  | [],             status => return .ok status
  | policy :: rest, status => do
    match ← statusOf policy now with
    | .error e => return .error e
    | .ok item => statusAll now rest (status ++ [item])

def status (policies : List RateLimitPolicy) : StatusProgram (Except Error (List RateLimitStatus)) := do
  let now ← statusNow
  match ← statusAll now policies [] with
  | .error e    => return .error e
  | .ok status  => return .ok <| status.insertionSort (·.policy.name ≤ ·.policy.name)

end Limiter

namespace RateLimitPolicy

def key (q : RateLimitPolicy) : LimiterKey :=
  match q.mode with
  | .rate        => .rate q.id
  | .concurrency => .concurrency q.id

-- The members with a score up to this one do not count any more.
def boundary (q : RateLimitPolicy) (now : Int) : Int :=
  match q.mode with
  | .rate        => now - Limits.windowMillis q
  | .concurrency => now

end RateLimitPolicy

namespace Limits

-- The answer of the script by which the limiter adds a member under a policy.
def attempt (l : Limits) (now : Time) (leaseTTL : Duration) (q : RateLimitPolicy) (member : String) : Bool × Time :=
  match q.mode with
  | .rate        => (l.exec now (.acquireRate q member now)).2
  | .concurrency => (l.exec now (.acquireConcurrency q member now leaseTTL)).2

-- The members which count under a policy.
def purged (l : Limits) (now : Time) (q : RateLimitPolicy) : SortedSet String Int :=
  ((l.get q.key).live now.unixMilli).removeRangeByScore (q.boundary now.unixMilli)

variable {l : Limits} {now : Time} {leaseTTL : Duration} {q q' : RateLimitPolicy} {member : String}
         {s : ExpiringSet} {k k' : LimiterKey}

@[simp]
theorem get_set_self : (l.set s k).get k = s := by
  cases k <;> exact Function.update_self ..

theorem get_set_ne (h : k' ≠ k) : (l.set s k).get k' = l.get k' := by
  cases k <;> cases k'
  case rate.rate               => exact Function.update_of_ne (fun he => h (by rw [he])) ..
  case concurrency.concurrency => exact Function.update_of_ne (fun he => h (by rw [he])) ..
  all_goals rfl

theorem purged_set (h : q'.id ≠ q.id) : (l.set s q.key).purged now q' = l.purged now q' := by
  have hk : q'.key ≠ q.key := by
    unfold RateLimitPolicy.key
    cases q'.mode <;> cases q.mode <;> simp [h]
  rw [purged, purged, get_set_ne hk]

-- A member that is not in the set yet is allowed as long as the policy has room for it.
theorem attempt_eq (h : ((l.get q.key).live now.unixMilli).score? member = none) :
    (l.attempt now leaseTTL q member).1 = decide (((l.purged now q).card : Int) < q.limit) := by
  cases hm : q.mode
  case rate        =>
    simp only [attempt, hm, exec, acquireRateLua, purged, RateLimitPolicy.key, RateLimitPolicy.boundary, get]
    split
    case isTrue h  => exact (decide_eq_true h).symm
    case isFalse h => exact (decide_eq_false h).symm
  case concurrency =>
    have hs : ((l.purged now q).score? member).isSome = false := by
      rw [purged, SortedSet.score?_removeRangeByScore, h]
      rfl
    simp only [purged, RateLimitPolicy.key, RateLimitPolicy.boundary, get, hm] at hs
    simp only [attempt, hm, exec, acquireConcurrencyLua, purged, RateLimitPolicy.key, RateLimitPolicy.boundary, get,
      hs, Bool.false_eq_true, false_or]
    split
    case isTrue h  => exact (decide_eq_true h).symm
    case isFalse h => exact (decide_eq_false h).symm

end Limits

namespace Limiter

variable {w : World} {now : Time} {q : RateLimitPolicy} {policies : List RateLimitPolicy}
         {items : List RateLimitStatus}

-- What is reported about a policy of which so many members count.
def reported (q : RateLimitPolicy) (count : Int) : RateLimitStatus where
  policy      := q
  activeCount := if q.mode = .concurrency then count else 0
  recentCount := if q.mode = .rate then count else 0
  throttled   := q.limit ≤ count

-- Both kinds of policies are looked at alike.
theorem statusOf_eq : statusOf q now = .call (.zRemRangeByScore q.key (q.boundary now.unixMilli)) fun
    | .error e => .ret (.error e)
    | .ok _    => .call (.zCard q.key) fun
      | .error e  => .ret (.error e)
      | .ok count => .ret (.ok (reported q count)) := by
  unfold statusOf RateLimitPolicy.key RateLimitPolicy.boundary reported
  cases q.mode
  all_goals
    refine congrArg (Prog.call _) (funext fun r => ?_)
    match r with
    | .error _ => rfl
    | .ok _    =>
      refine congrArg (Prog.call _) (funext fun r => ?_)
      match r with
      | .error _ | .ok _ => rfl

theorem statusOf_run (hc : w.clock = .constant now) : (statusOf q now).run World.statusExec w =
    ({ w with
      calls  := w.calls + 2
      limits := w.limits.set { w.limits.get q.key with members := w.limits.purged now q } q.key
    }, .ok (reported q (w.limits.purged now q).card)) := by
  have hn : w.now = now := Admissions.now_eq hc
  have hn' {calls : Nat} {limits : Limits} : ({ w with calls, limits } : World).now = now := Admissions.now_eq hc
  rw [statusOf_eq]
  simp only [Prog.run_call, World.statusExec, hn, hn', Limits.get_set_self, Prog.run_ret]
  rw [ExpiringSet.live_purged]
  rfl

theorem statusAll_run (hc : w.clock = .constant now) (hn : (policies.map (·.id)).Nodup) :
    ((statusAll now policies items).run World.statusExec w).2 =
      .ok (items ++ policies.map fun q => reported q (w.limits.purged now q).card) := by
  induction policies generalizing w items
  case nil            => simp [statusAll]
  case cons q rest hi =>
    have ⟨hq, hn⟩ := List.nodup_cons.mp hn
    rw [statusAll, Prog.bind_eq, Prog.run_bind, statusOf_run hc]
    dsimp only
    refine Eq.trans (hi (by exact hc) hn) ?_
    rw [List.map_cons, List.append_assoc, List.singleton_append]
    refine congrArg (fun l => Except.ok (items ++ _ :: l)) (List.map_congr_left fun q' hm => ?_)
    have hne : q'.id ≠ q.id := fun he => hq (List.mem_map.mpr ⟨q', hm, he⟩)
    rw [Limits.purged_set hne]

theorem status_eq : status policies = .call .now fun now =>
    (statusAll now policies []).bind fun r => .ret (r.map (·.insertionSort (·.policy.name ≤ ·.policy.name))) := by
  refine congrArg (Prog.call _) (funext fun now => ?_)
  refine congrArg (Prog.bind · (statusAll now policies [])) (funext fun r => ?_)
  cases r <;> rfl

-- What is reported about each of the policies, whose sets do not change in between.
theorem status_run (hc : w.clock = .constant now) (hn : (policies.map (·.id)).Nodup) :
    ∃ items, ((status policies).run World.statusExec w).2 = .ok items ∧
      items.Perm (policies.map fun q => reported q (w.limits.purged now q).card) := by
  have hs : ((status policies).run World.statusExec w).2 =
      .ok ((policies.map fun q => reported q (w.limits.purged now q).card).insertionSort
        (·.policy.name ≤ ·.policy.name)) := by
    have hr : ((statusAll now policies []).run World.statusExec { w with calls := w.calls + 1 }).2 = _ :=
      statusAll_run hc hn
    rw [status_eq, Prog.run_call, World.statusExec, Admissions.now_eq hc, Prog.run_bind, hr]
    rfl
  exact ⟨_, hs, List.perm_insertionSort ..⟩

end Limiter
end JobPlatform
