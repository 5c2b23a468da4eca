import JobPlatform.Library.Run
import JobPlatform.Limits.Status

namespace JobPlatform

-- The methods of the limiter.
inductive LimiterOp
  | evaluateAndAcquire (job : Job) (policies : List RateLimitPolicy) (leaseTTL : Duration)
  | renew (job : Job) (policies : List RateLimitPolicy) (leaseTTL : Duration)
  | release (job : Job) (policies : List RateLimitPolicy)
  | status (policies : List RateLimitPolicy)

-- A method is called at a time, and each of its calls to Redis may fail.
structure LimiterEvent where
  now    : Time
  op     : LimiterOp
  faults : Nat → Fault

def LimiterOp.policies : LimiterOp → List RateLimitPolicy
  | evaluateAndAcquire _ policies _ | renew _ policies _ | release _ policies | status policies => policies

def LimiterOp.leaseTTL? : LimiterOp → Option Duration
  | evaluateAndAcquire _ _ leaseTTL | renew _ _ leaseTTL => some leaseTTL
  | _                                                    => none

def LimiterEvent.isStatus (e : LimiterEvent) : Bool :=
  match e.op with
  | .status _ => true
  | _         => false

-- The limiter in use, with all of its decisions, and with the policies whose status was asked for.
structure Usage where
  time      : Time
  world     : World
  decisions : List (Except Error Decision)
  reported  : List (RateLimitPolicy × Time)

namespace Usage

def start (time : Time) (w : World) : Usage where
  time      := time
  world     := w
  decisions := []
  reported  := []

-- The clock stands still while a method runs, whose calls to Redis are numbered.
def worldAt (s : Usage) (now : Time) : World :=
  { s.world with clock := .constant now, calls := 0 }

def step (s : Usage) (e : LimiterEvent) : Usage :=
  let w := s.worldAt e.now
  match e.op with
  | .evaluateAndAcquire job policies leaseTTL =>
    let (world, res) := (Limiter.evaluateAndAcquire job policies leaseTTL).run (World.tryExec e.faults) w
    { s with time := e.now, world, decisions := s.decisions ++ [res] }
  | .renew job policies leaseTTL =>
    { s with time := e.now, world := ((Limiter.renew job policies leaseTTL).run (World.tryExec e.faults) w).1 }
  | .release job policies =>
    { s with time := e.now, world := ((Limiter.release job policies).run (World.tryExec e.faults) w).1 }
  | .status policies =>
    {
      time      := e.now
      world     := ((Limiter.status policies).run (World.tryStatus e.faults) w).1
      decisions := s.decisions
      reported  := s.reported ++ policies.map (·, e.now)
    }

end Usage

namespace Limiter

variable {ok : Call → Prop} {job : Job} {policies : List RateLimitPolicy} {leaseTTL : Duration} {now : Time} {w : World}
         {faults : Nat → Fault}

-- The methods after they have read the clock.
def evaluateAt (job : Job) (policies : List RateLimitPolicy) (leaseTTL : Duration) (now : Time) :
    Program (Except Error Decision) :=
  (acquireAll job leaseTTL now (applicablePolicies job policies) Admissions.unlimited).bind fun
    | .error e => .ret (.error e)
    | .ok d    => if d.allowed then .ret (.ok d) else (rollback d).bind fun _ => .ret (.ok d)

def renewAt (job : Job) (policies : List RateLimitPolicy) (leaseTTL : Duration) (now : Time) : Program Unit :=
  forConcurrency (.renewConcurrency ·.id job.id now leaseTTL) (applicablePolicies job policies)

theorem evaluateAndAcquire_run (hc : w.clock = .constant now) :
    (evaluateAndAcquire job policies leaseTTL).run (World.tryExec faults) w =
      (evaluateAt job policies leaseTTL now).run (World.tryExec faults) { w with calls := w.calls + 1 } := by
  rw [Admissions.evaluateAndAcquire_eq, Prog.run_call, Admissions.tryExec_now faults hc]
  rfl

theorem renew_run (hc : w.clock = .constant now) :
    (renew job policies leaseTTL).run (World.tryExec faults) w =
      (renewAt job policies leaseTTL now).run (World.tryExec faults) { w with calls := w.calls + 1 } := by
  have hp : renew job policies leaseTTL = .call .now (renewAt job policies leaseTTL) := rfl
  rw [hp, Prog.run_call, Admissions.tryExec_now faults hc]

theorem evaluateAt_only (hr : ∀ id member, ok (.limiter (.releaseRate id member)))
    (hs : ∀ id member, ok (.limiter (.releaseConcurrency id member)))
    (ha : ∀ q ∈ applicablePolicies job policies, match q.mode with
      | .rate        => ok (.limiter (.acquireRate q (rateMember job) now))
      | .concurrency => ok (.limiter (.acquireConcurrency q job.id now leaseTTL))) :
    (evaluateAt job policies leaseTTL now).Only ok := by
  refine (acquireAll_only hr hs ha).bind fun r => ?_
  cases r
  case error => trivial
  case ok d  =>
    dsimp only
    split
    case isTrue  => trivial
    case isFalse => exact (rollback_only hr hs).bind fun _ => trivial

end Limiter

namespace ExpiringSet

-- The members above the bound are the same from the given time on.
structure Alike (clock bound : Int) (s s' : ExpiringSet) : Prop where
  expiry  : s'.expiresAt = s.expiresAt
  counted : (s'.live clock).removeRangeByScore bound = (s.live clock).removeRangeByScore bound

variable {s s' s'' : ExpiringSet} {clock clock' bound bound' now limit window ttl : Int} {member : String}

theorem live_wait (h : clock ≤ clock') :
    s.live clock' = if s.expiresAt.any (· ≤ clock') then ∅ else s.live clock := by
  unfold live
  split
  case isTrue      => rfl
  case isFalse hn  =>
    rw [if_neg fun he => hn ?_]
    have ⟨e, he, hl⟩ := (Option.any_eq_true ..).mp he
    exact (Option.any_eq_true ..).mpr ⟨e, he, decide_eq_true ((of_decide_eq_true hl).trans h)⟩

theorem live_release : (Limits.releaseLua member clock s).live clock = (s.live clock).remove member := by
  unfold Limits.releaseLua live
  split
  case isTrue  => rfl
  case isFalse => rfl

namespace Alike

theorem refl : Alike clock bound s s where
  expiry  := rfl
  counted := rfl

theorem trans (h : Alike clock bound s s') (h' : Alike clock bound s' s'') : Alike clock bound s s'' where
  expiry  := h'.expiry.trans h.expiry
  counted := h'.counted.trans h.counted

theorem wait (h : Alike clock bound s s') (hc : clock ≤ clock') (hb : bound ≤ bound') :
    Alike clock' bound' s s' where
  expiry  := h.expiry
  counted := by
    rw [live_wait hc, live_wait hc, h.expiry]
    split
    case isTrue  => rfl
    case isFalse => rw [← SortedSet.removeRangeByScore_of_le hb, h.counted, SortedSet.removeRangeByScore_of_le hb]

-- Members that do not count any more may be taken out early.
theorem purge (hb : bound' ≤ bound) :
    Alike clock bound s { s with members := (s.live clock).removeRangeByScore bound' } where
  expiry  := rfl
  counted := by rw [live_purged, SortedSet.removeRangeByScore_of_le hb]

theorem release (h : Alike clock bound s s') :
    Alike clock bound (Limits.releaseLua member clock s) (Limits.releaseLua member clock s') where
  expiry  := h.expiry
  counted := by
    rw [live_release, live_release, SortedSet.removeRangeByScore_remove, SortedSet.removeRangeByScore_remove,
      h.counted]

-- The scripts only look at the members above their bound.
theorem acquireRateLua (h : Alike clock (now - window) s s') :
    Limits.acquireRateLua now limit window member clock s' =
      Limits.acquireRateLua now limit window member clock s := by
  simp only [Limits.acquireRateLua, h.counted, h.expiry]

theorem acquireConcurrencyLua (h : Alike clock now s s') :
    Limits.acquireConcurrencyLua now limit ttl member clock s' =
      Limits.acquireConcurrencyLua now limit ttl member clock s := by
  simp only [Limits.acquireConcurrencyLua, h.counted, h.expiry]

theorem renewConcurrencyLua (h : Alike clock now s s') :
    Limits.renewConcurrencyLua now ttl member clock s' = Limits.renewConcurrencyLua now ttl member clock s := by
  simp only [Limits.renewConcurrencyLua, h.counted, h.expiry]

end Alike
end ExpiringSet

namespace Limits

-- The bound reaches as far as each report about the key has purged it.
def Covers (reported : List (RateLimitPolicy × Time)) (key : LimiterKey) (bound : Int) : Prop :=
  ∀ x ∈ reported, x.1.key = key → x.1.boundary x.2.unixMilli ≤ bound

instance {reported key bound} : Decidable (Covers reported key bound) :=
  inferInstanceAs (Decidable (∀ x ∈ _, _))

-- The limits cannot be told apart by what counts above the bounds up to which a set was purged.
def Alike (reported : List (RateLimitPolicy × Time)) (now : Time) (l l' : Limits) : Prop :=
  ∀ key bound, Covers reported key bound → (l.get key).Alike now.unixMilli bound (l'.get key)

-- A script that runs now removes at least what was purged.
def Sees (reported : List (RateLimitPolicy × Time)) (now : Time) : Call → Prop
  | .limiter (.acquireRate q _ now')          =>
    now' = now ∧ Covers reported (.rate q.id) (now.unixMilli - windowMillis q)
  | .limiter (.acquireConcurrency _ _ now' _) => now' = now
  | .limiter (.renewConcurrency _ _ now' _)   => now' = now
  | .limiter _                                => True
  | .now                                      => True
  | _                                         => False

variable {reported reported' : List (RateLimitPolicy × Time)} {now now' : Time} {l l' l'' : Limits} {c : LimiterCall}
         {key : LimiterKey} {bound : Int} {s s' : ExpiringSet}

-- What is purged of the slots has expired.
theorem covers_concurrency {id : String} (h : ∀ x ∈ reported, x.2 ≤ now) :
    Covers reported (.concurrency id) now.unixMilli := by
  intro x hx hk
  have hm : x.1.mode = .concurrency := by
    unfold RateLimitPolicy.key at hk
    cases hm : x.1.mode
    case rate        => simp [hm] at hk
    case concurrency => rfl
  rw [RateLimitPolicy.boundary, hm]
  exact Time.unixMilli_mono (h x hx)

namespace Alike

theorem refl : Alike reported now l l :=
  fun _ _ _ => .refl

theorem trans (h : Alike reported now l l') (h' : Alike reported now l' l'') : Alike reported now l l'' :=
  fun key bound hb => (h key bound hb).trans (h' key bound hb)

theorem wait (h : Alike reported now l l') (hn : now ≤ now') : Alike reported now' l l' :=
  fun key bound hb => (h key bound hb).wait (Time.unixMilli_mono hn) le_rfl

theorem mono (h : Alike reported now l l') (hr : reported ⊆ reported') : Alike reported' now l l' :=
  fun key bound hb => h key bound fun x hx => hb x (hr hx)

theorem set (h : Alike reported now l l') (key : LimiterKey)
    (hs : ∀ bound, Covers reported key bound → s.Alike now.unixMilli bound s') :
    Alike reported now (l.set s key) (l'.set s' key) := by
  intro k bound hb
  by_cases hk : k = key
  case pos =>
    subst hk
    rw [get_set_self, get_set_self]
    exact hs bound hb
  case neg =>
    rw [get_set_ne hk, get_set_ne hk]
    exact h k bound hb

-- What does not count any more under a policy may be removed when that is reported.
theorem purge {q : RateLimitPolicy} (h : Alike reported now l l') (hq : (q, now) ∈ reported) :
    Alike reported now l (l'.set { l'.get q.key with members := l'.purged now q } q.key) := by
  intro key bound hb
  by_cases hk : key = q.key
  case pos =>
    subst hk
    rw [get_set_self]
    exact (h q.key bound hb).trans (.purge (hb (q, now) hq rfl))
  case neg =>
    rw [get_set_ne hk]
    exact h key bound hb

theorem exec (h : Alike reported now l l') (hr : ∀ x ∈ reported, x.2 ≤ now) (hc : Sees reported now (.limiter c)) :
    (l'.exec now c).2 = (l.exec now c).2 ∧ Alike reported now (l.exec now c).1 (l'.exec now c).1 := by
  have slots (id : String) : (l.concurrency id).Alike now.unixMilli now.unixMilli (l'.concurrency id) :=
    h (.concurrency id) now.unixMilli (covers_concurrency hr)
  cases c
  case acquireRate q member now' =>
    obtain ⟨rfl, hb⟩ := hc
    have hs : (l.rate q.id).Alike now'.unixMilli (now'.unixMilli - windowMillis q) (l'.rate q.id) := h (.rate q.id) _ hb
    have ha : Limits.acquireRateLua now'.unixMilli q.limit (windowMillis q) member now'.unixMilli (l'.rate q.id) = _ :=
      hs.acquireRateLua
    refine ⟨by simp only [Limits.exec, ha], ?_⟩
    simp only [Limits.exec, ha]
    exact h.set (.rate q.id) fun _ _ => .refl
  case acquireConcurrency q member now' leaseTTL =>
    obtain rfl : now' = now := hc
    have ha : Limits.acquireConcurrencyLua now'.unixMilli q.limit leaseTTL.milliseconds member now'.unixMilli
        (l'.concurrency q.id) = _ := (slots q.id).acquireConcurrencyLua
    refine ⟨by simp only [Limits.exec, ha], ?_⟩
    simp only [Limits.exec, ha]
    exact h.set (.concurrency q.id) fun _ _ => .refl
  case renewConcurrency id member now' leaseTTL =>
    obtain rfl : now' = now := hc
    have ha : Limits.renewConcurrencyLua now'.unixMilli leaseTTL.milliseconds member now'.unixMilli
        (l'.concurrency id) = _ := (slots id).renewConcurrencyLua
    refine ⟨rfl, ?_⟩
    simp only [Limits.exec, ha]
    exact h.set (.concurrency id) fun _ _ => .refl
  case releaseRate id member =>
    exact ⟨rfl, h.set (.rate id) fun bound hb => (h (.rate id) bound hb).release⟩
  case releaseConcurrency id member =>
    exact ⟨rfl, h.set (.concurrency id) fun bound hb => (h (.concurrency id) bound hb).release⟩

end Alike
end Limits

namespace Usage

-- Time does not run backwards.
def Regular (s : Usage) (e : LimiterEvent) : Prop :=
  s.time ≤ e.now

-- No rate is looked at over a window that reaches back before the bounds up to which it was purged.
def Covered (s : Usage) (e : LimiterEvent) : Prop :=
  match e.op with
  | .evaluateAndAcquire job policies _ => ∀ q ∈ Limiter.applicablePolicies job policies, q.mode = .rate →
    Limits.Covers s.reported q.key (q.boundary e.now.unixMilli)
  | _ => True

instance {s e} : Decidable (Regular s e) :=
  inferInstanceAs (Decidable (_ ≤ _))

instance {s : Usage} : {e : LimiterEvent} → Decidable (Covered s e)
  | ⟨_, .evaluateAndAcquire .., _⟩ => inferInstanceAs (Decidable (∀ q ∈ _, _ → _))
  | ⟨_, .renew .., _⟩              => .isTrue trivial
  | ⟨_, .release .., _⟩            => .isTrue trivial
  | ⟨_, .status _, _⟩              => .isTrue trivial

-- Two worlds in which the limiter cannot tell apart what it sees.
structure Alike (reported : List (RateLimitPolicy × Time)) (now : Time) (w w' : World) : Prop where
  clock  : w.clock = .constant now ∧ w'.clock = .constant now
  calls  : w'.calls = w.calls
  limits : w.limits.Alike reported now w'.limits

variable {reported : List (RateLimitPolicy × Time)} {now : Time} {w w' : World} {faults : Nat → Fault} {α : Type}
         {p : Program α} {job : Job} {policies : List RateLimitPolicy} {leaseTTL : Duration}

-- Reading the clock is a call of its own.
theorem Alike.read (h : Alike reported now w w') :
    Alike reported now { w with calls := w.calls + 1 } { w' with calls := w'.calls + 1 } :=
  ⟨h.clock, congrArg (· + 1) h.calls, h.limits⟩

theorem Alike.tryExec (hr : ∀ x ∈ reported, x.2 ≤ now) (h : Alike reported now w w') (c : Call)
    (hc : Limits.Sees reported now c) :
    (w'.tryExec faults c).2 = (w.tryExec faults c).2 ∧
    Alike reported now (w.tryExec faults c).1 (w'.tryExec faults c).1 := by
  have hn : w.now = now := Admissions.now_eq h.clock.left
  have hn' : w'.now = now := Admissions.now_eq h.clock.right
  cases c
  case heartbeats => exact hc.elim
  case broker     => exact hc.elim
  case repo       => exact hc.elim
  case now        =>
    unfold World.tryExec
    rw [h.calls]
    cases faults w.calls <;> exact ⟨hn'.trans hn.symm, h.clock, congrArg (· + 1) h.calls, h.limits⟩
  case limiter c  =>
    have ⟨hres, hl⟩ := h.limits.exec hr hc
    unfold World.tryExec
    rw [h.calls]
    cases faults w.calls
    case refused => exact ⟨rfl, h.clock, rfl, h.limits⟩
    all_goals
      simp only [Call.failure?, World.exec_limiter, hn, hn', hres, true_and]
      exact ⟨h.clock, congrArg (· + 1) h.calls, hl⟩

theorem Alike.run (hr : ∀ x ∈ reported, x.2 ≤ now) (h : Alike reported now w w')
    (hp : p.Only (Limits.Sees reported now)) :
    (p.run (World.tryExec faults) w').2 = (p.run (World.tryExec faults) w).2 ∧
    Alike reported now (p.run (World.tryExec faults) w).1 (p.run (World.tryExec faults) w').1 :=
  hp.simulates (fun _ _ c hc h => h.tryExec hr c hc) h

theorem Alike.evaluateAndAcquire (h : Alike reported now w w') (leaseTTL : Duration) (faults : Nat → Fault)
    (hr : ∀ x ∈ reported, x.2 ≤ now)
    (hc : ∀ q ∈ Limiter.applicablePolicies job policies, q.mode = .rate →
      Limits.Covers reported q.key (q.boundary now.unixMilli)) :
    let p := Limiter.evaluateAndAcquire job policies leaseTTL
    (p.run (World.tryExec faults) w').2 = (p.run (World.tryExec faults) w).2 ∧
    Alike reported now (p.run (World.tryExec faults) w).1 (p.run (World.tryExec faults) w').1 := by
  dsimp only
  rw [Limiter.evaluateAndAcquire_run h.clock.left, Limiter.evaluateAndAcquire_run h.clock.right]
  refine h.read.run hr <| Limiter.evaluateAt_only (fun _ _ => trivial) (fun _ _ => trivial) fun q hq => ?_
  cases hm : q.mode
  case concurrency => rfl
  case rate        =>
    have hb := hc q hq hm
    simp only [RateLimitPolicy.key, RateLimitPolicy.boundary, hm] at hb
    exact ⟨rfl, hb⟩

theorem Alike.renew (hr : ∀ x ∈ reported, x.2 ≤ now) (h : Alike reported now w w') :
    let p := Limiter.renew job policies leaseTTL
    Alike reported now (p.run (World.tryExec faults) w).1 (p.run (World.tryExec faults) w').1 := by
  have hp : (Limiter.renewAt job policies leaseTTL now).Only (Limits.Sees reported now) :=
    Limiter.forConcurrency_only _ fun _ _ => rfl
  dsimp only
  rw [Limiter.renew_run h.clock.left, Limiter.renew_run h.clock.right]
  exact (h.read.run hr hp).right

theorem Alike.release (hr : ∀ x ∈ reported, x.2 ≤ now) (h : Alike reported now w w') :
    let p := Limiter.release job policies
    Alike reported now (p.run (World.tryExec faults) w).1 (p.run (World.tryExec faults) w').1 :=
  (h.run hr <| Limiter.forConcurrency_only (.releaseConcurrency ·.id job.id) fun _ _ => trivial).right

-- `Status` removes what does not count any more under one of its policies.
def Reporting (policies : List RateLimitPolicy) (now : Time) : StatusCall → Prop
  | .zRemRangeByScore key max => ∃ q ∈ policies, key = q.key ∧ max = q.boundary now.unixMilli
  | _                         => True

theorem statusOf_only {q : RateLimitPolicy} (h : q ∈ policies) :
    (Limiter.statusOf q now).Only (Reporting policies now) := by
  rw [Limiter.statusOf_eq]
  refine ⟨⟨q, h, rfl, rfl⟩, fun r => ?_⟩
  cases r
  case error => trivial
  case ok    => exact ⟨trivial, fun r => by cases r <;> trivial⟩

theorem statusAll_only {rest : List RateLimitPolicy} {items : List RateLimitStatus} (h : rest ⊆ policies) :
    (Limiter.statusAll now rest items).Only (Reporting policies now) := by
  induction rest generalizing items
  case nil            => trivial
  case cons q rest hi =>
    have ⟨hq, h⟩ := List.cons_subset.mp h
    rw [Limiter.statusAll]
    refine (statusOf_only hq).bind fun r => ?_
    cases r
    case error => trivial
    case ok    => exact hi h

-- What is removed is covered by what is reported.
theorem status_alike (hc : w.clock = .constant now) : w.limits.Alike (policies.map (·, now)) now
    ((Limiter.status policies).run (World.tryStatus faults) w).1.limits := by
  let Inv (x : World) : Prop := x.clock = .constant now ∧ w.limits.Alike (policies.map (·, now)) now x.limits
  have hs (x : World) (c : StatusCall) (hr : Reporting policies now c) (hx : Inv x) : Inv (x.tryStatus faults c).1 := by
    have he : Inv (x.statusExec c).1 := by
      match c with
      | .now                      => exact hx
      | .zCard _                  => exact hx
      | .zRemRangeByScore key max =>
        obtain ⟨q, hq, rfl, rfl⟩ := hr
        have hp := hx.right.purge (List.mem_map_of_mem (f := (·, now)) hq)
        rw [Limits.purged, ← Admissions.now_eq hx.left] at hp
        exact ⟨hx.left, Admissions.now_eq hx.left ▸ hp⟩
    unfold World.tryStatus
    cases faults x.calls <;> cases c <;> first | exact hx | exact he
  have hn : w.tryStatus faults .now = ({ w with calls := w.calls + 1 }, now) := by
    rw [← Admissions.now_eq hc]
    unfold World.tryStatus
    cases faults w.calls <;> rfl
  rw [Limiter.status_eq, Prog.run_call, hn]
  have hk : Inv { w with calls := w.calls + 1 } := ⟨hc, .refl⟩
  refine (Prog.Only.preserves hs ?_ hk).right
  exact (statusAll_only (List.Subset.refl _)).bind fun _ => trivial

-- The second limiter has been asked for its status in between.
structure Matches (s s' : Usage) : Prop where
  decisions : s'.decisions = s.decisions
  past      : ∀ x ∈ s'.reported, x.2 ≤ s'.time
  limits    : s.world.limits.Alike s'.reported s'.time s'.world.limits

variable {s s' : Usage} {e : LimiterEvent} {es : List LimiterEvent}

namespace Matches

theorem start {time : Time} : Matches (start time w) (start time w) where
  decisions := rfl
  past      := by simp [Usage.start]
  limits    := .refl

-- Both limiters are used at the same time.
theorem worldAt (h : Matches s s') (hn : s'.time ≤ now) :
    (∀ x ∈ s'.reported, x.2 ≤ now) ∧ Alike s'.reported now (s.worldAt now) (s'.worldAt now) :=
  ⟨fun x hx => (h.past x hx).trans hn, ⟨rfl, rfl⟩, rfl, h.limits.wait hn⟩

theorem step (h : Matches s s') (hr : Regular s' e) (hc : Covered s' e) (he : ¬e.isStatus) :
    Matches (step s e) (step s' e) := by
  obtain ⟨now, op, faults⟩ := e
  have ⟨hp, hw⟩ := h.worldAt hr
  cases op
  case status  => exact absurd rfl he
  case renew   => exact ⟨h.decisions, hp, (hw.renew hp).limits⟩
  case release => exact ⟨h.decisions, hp, (hw.release hp).limits⟩
  case evaluateAndAcquire job policies leaseTTL =>
    have ⟨hres, hw⟩ := hw.evaluateAndAcquire leaseTTL faults hp hc
    exact ⟨congrArg₂ (· ++ [·]) h.decisions hres, hp, hw.limits⟩

-- The first limiter does not take part in asking the second one.
theorem status (h : Matches s s') (hr : Regular s' e) (he : e.isStatus) : Matches s (Usage.step s' e) := by
  obtain ⟨now, op, faults⟩ := e
  have ⟨hp, hw⟩ := h.worldAt hr
  cases op
  case status policies =>
    refine ⟨h.decisions, fun x hx => ?_, ?_⟩
    · cases List.mem_append.mp hx
      case inl hx => exact hp x hx
      case inr hx =>
        have ⟨_, _, he⟩ := List.mem_map.mp hx
        exact he ▸ le_rfl
    · have hs : (s'.worldAt now).limits.Alike _ now
          ((Limiter.status policies).run (World.tryStatus faults) (s'.worldAt now)).1.limits := status_alike rfl
      exact (hw.limits.mono (List.subset_append_left ..)).trans (hs.mono (List.subset_append_right ..))
  all_goals cases he

theorem run (h : Matches s s') (hg : Run.Guarded Usage.step (fun s e => Regular s e ∧ Covered s e) s' es) :
    Matches (Run.last Usage.step s (es.filter (!·.isStatus))) (Run.last Usage.step s' es) := by
  induction es generalizing s s'
  case nil          => exact h
  case cons e es hi =>
    have ⟨⟨hr, hc⟩, hg⟩ := hg
    cases he : e.isStatus
    case true  =>
      rw [List.filter_cons_of_neg (by simp [he])]
      exact hi (h.status hr he) hg
    case false =>
      rw [List.filter_cons_of_pos (by simp [he])]
      exact hi (h.step hr hc (by simp [he])) hg

end Matches

-- What is reported about the policies is what their scripts decide about a job without an entry.
def Reports (w : World) (now : Time) (policies : List RateLimitPolicy) : Prop :=
  ∃ items, ((Limiter.status policies).run World.statusExec { w with clock := .constant now }).2 = .ok items ∧
    (items.map (·.policy)).Perm policies ∧
    ∀ item ∈ items, ∀ member leaseTTL, ((w.limits.get item.policy.key).live now.unixMilli).score? member = none →
      (item.throttled ↔ (w.limits.attempt now leaseTTL item.policy member).1 = false)

theorem reports (hn : (policies.map (·.id)).Nodup) : Reports w now policies := by
  have ⟨items, hr, hp⟩ := Limiter.status_run (w := { w with clock := .constant now }) rfl hn
  refine ⟨items, hr, by simpa [Limiter.reported, Function.comp_def] using hp.map (·.policy), ?_⟩
  intro item hi member leaseTTL hm
  have ⟨q, _, he⟩ := List.mem_map.mp (hp.mem_iff.mp hi)
  subst he
  rw [Limits.attempt_eq hm, decide_eq_false_iff_not, not_lt]
  exact decide_eq_true_iff

-- Asking for the status reports the saturation which is enforced, and it does not change any decision as
-- long as no longer window is looked at later on.
theorem status_transparent {time : Time} (hn : (policies.map (·.id)).Nodup)
    (hg : Run.Guarded step (fun s e => Regular s e ∧ Covered s e) (start time w) es) :
    Reports w now policies ∧ (Run.last step (start time w) es).decisions =
      (Run.last step (start time w) (es.filter (!·.isStatus))).decisions :=
  ⟨reports hn, (Matches.start.run hg).decisions⟩

-- The policies stay unchanged.
def Fixed (policies : List RateLimitPolicy) (e : LimiterEvent) : Prop :=
  e.op.policies ⊆ policies

instance {policies e} : Decidable (Fixed policies e) :=
  inferInstanceAs (Decidable (e.op.policies ⊆ policies))

-- Under fixed policies no longer window is looked at.
theorem covered_of_fixed {time : Time} (hn : (policies.map (·.id)).Nodup)
    (hg : Run.Guarded step (fun s e => Regular s e ∧ Fixed policies e) (start time w) es) :
    Run.Guarded step (fun s e => Regular s e ∧ Covered s e) (start time w) es := by
  let Inv (s : Usage) : Prop := ∀ x ∈ s.reported, x.1 ∈ policies ∧ x.2 ≤ s.time
  have hs (s) (e : LimiterEvent) (h : Inv s) (he : Regular s e ∧ Fixed policies e) : Inv (step s e) := by
    have h (x) (hx : x ∈ s.reported) : x.1 ∈ policies ∧ x.2 ≤ e.now := ⟨(h x hx).left, (h x hx).right.trans he.left⟩
    obtain ⟨now, op, faults⟩ := e
    cases op
    case status rest =>
      intro x hx
      cases List.mem_append.mp hx
      case inl hx => exact h x hx
      case inr hx =>
        have ⟨q, hq, hx⟩ := List.mem_map.mp hx
        exact hx ▸ ⟨he.right hq, le_rfl⟩
    all_goals exact h
  refine (hg.strengthen hs (by simp [Inv, start])).mono fun s e ⟨h, hr, hf⟩ => ⟨hr, ?_⟩
  obtain ⟨now, op, faults⟩ := e
  cases op
  case evaluateAndAcquire job rest leaseTTL =>
    intro q hq hm x hx hk
    have hq := hf (List.mem_of_mem_filter hq)
    have hi : x.1.id = q.id := by
      unfold RateLimitPolicy.key at hk
      cases hx : x.1.mode <;> simp only [hx, hm] at hk
      case rate        => exact LimiterKey.rate.inj hk
      case concurrency => cases hk
    have he : x.1 = q := List.inj_on_of_nodup_map hn (h x hx).left hq hi
    have ht : x.2.unixMilli ≤ now.unixMilli := Time.unixMilli_mono ((h x hx).right.trans hr)
    simpa [he, RateLimitPolicy.boundary, hm] using ht
  all_goals trivial

namespace Sample

def policy (windowSeconds : Int) : RateLimitPolicy :=
  { Admissions.Sample.policy with windowSeconds }

def evaluate (jobID : JobID) (ms windowSeconds : Int) : LimiterEvent where
  now      := .ofUnixMilli ms
  op       := .evaluateAndAcquire { buildJob 0 (.plain "email.send") jobID with attempts := 1 }
    [policy windowSeconds] (30 * Duration.second)
  faults _ := .none

def status (ms windowSeconds : Int) : LimiterEvent where
  now      := .ofUnixMilli ms
  op       := .status [policy windowSeconds]
  faults _ := .none

def begin : Usage :=
  start (.ofUnixMilli 1700000000000) .sample

end Sample

theorem status_transparent_sample :
    Reports .sample (.ofUnixMilli 1700000012000) [Sample.policy 10] ∧
    (Run.last step Sample.begin [Sample.evaluate "job-1" 1700000001000 10, Sample.status 1700000012000 10,
        Sample.evaluate "job-2" 1700000014000 10]).decisions =
      (Run.last step Sample.begin [Sample.evaluate "job-1" 1700000001000 10,
        Sample.evaluate "job-2" 1700000014000 10]).decisions := by
  have hg : Run.Guarded step (fun s e => Regular s e ∧ Covered s e) Sample.begin
      [Sample.evaluate "job-1" 1700000001000 10, Sample.status 1700000012000 10,
        Sample.evaluate "job-2" 1700000014000 10] := by decide +kernel
  exact status_transparent (by decide) hg

-- The window of the policy becomes longer after its status was asked for, and so a job is not counted.
theorem not_transparent_of_longer_window :
    let es := [Sample.evaluate "job-1" 1700000001000 10, Sample.evaluate "job-2" 1700000006000 10,
      Sample.status 1700000012000 10, Sample.evaluate "job-3" 1700000014000 60]
    Run.Guarded step Regular Sample.begin es ∧
    (Run.last step Sample.begin es).decisions ≠
      (Run.last step Sample.begin (es.filter (!·.isStatus))).decisions := by
  refine ⟨by decide +kernel, fun h => ?_⟩
  have h := congrArg (List.map fun res => res.toOption.map (·.allowed)) h
  revert h
  decide +kernel

end Usage
end JobPlatform
