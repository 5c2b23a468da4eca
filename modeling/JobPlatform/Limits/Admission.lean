import JobPlatform.Library.Run
import JobPlatform.Library.Window
import JobPlatform.Limits.Limiter

namespace JobPlatform

-- While a call of `evaluateAndAcquire` runs, the clock shows the same time.
def Clock.constant (t : Time) : Clock where
  time _ := t
  mono   := monotone_const

-- A call of `evaluateAndAcquire`, where the call to a script may fail.
structure Evaluation where
  now      : Time
  job      : Job
  policies : List RateLimitPolicy
  leaseTTL : Duration
  faults   : Nat → Fault

-- The jobs that were allowed under a policy at the given milliseconds.
abbrev Admitted := List (Int × String)

structure Admissions where
  time     : Time
  world    : World
  admitted : Admitted

namespace Admissions

variable (P : RateLimitPolicy)

def start (w : World) : Admissions where
  time     := w.now
  world    := w
  admitted := []

def worldAt (s : Admissions) (now : Time) : World :=
  { s.world with clock := .constant now }

def evaluate (s : Admissions) (e : Evaluation) : World × Except Error Decision :=
  (Limiter.evaluateAndAcquire e.job e.policies e.leaseTTL).run (World.tryExec e.faults) (s.worldAt e.now)

-- The job is allowed under the policy, which applies to it.
def Allows (e : Evaluation) (res : Except Error Decision) : Prop :=
  P ∈ Limiter.applicablePolicies e.job e.policies ∧ res.toOption.any (·.allowed)

instance {e res} : Decidable (Allows P e res) :=
  inferInstanceAs (Decidable (_ ∧ _))

def step (s : Admissions) (e : Evaluation) : Admissions :=
  let (world, res) := s.evaluate e
  {
    world
    time     := e.now
    admitted := if Allows P e res
      then s.admitted ++ [(e.now.unixMilli, Limiter.rateMember e.job)]
      else s.admitted
  }

-- Time does not run backwards, and the policy stays unchanged.
def Regular (s : Admissions) (e : Evaluation) : Prop :=
  s.time ≤ e.now ∧ ∀ q ∈ e.policies, q.id = P.id → q = P

instance {s e} : Decidable (Regular P s e) :=
  inferInstanceAs (Decidable (_ ∧ _))

-- A member of the set, which has room for another one, would be moved to a later time.
def Moves (policy : RateLimitPolicy) (member : String) (now : Time) (clock : Time) (s : ExpiringSet) : Prop :=
  let members := (s.live clock.unixMilli).removeRangeByScore (now.unixMilli - Limits.windowMillis policy)
  members.card < policy.limit ∧ (members.score? member).isSome

instance {policy member now clock s} : Decidable (Moves policy member now clock s) :=
  inferInstanceAs (Decidable (_ ∧ _))

-- The call does not move a member of the set of the policy.
def Keeps (faults : Nat → Fault) (w : World) : Call → Prop
  | .limiter (.acquireRate policy member now) =>
    policy.id = P.id → faults w.calls ≠ .refused → ¬Moves policy member now w.now (w.limits.rate policy.id)
  | _ => True

instance Keeps.decidable {faults w} : (c : Call) → Decidable (Keeps P faults w c)
  | .limiter (.acquireRate ..)        => inferInstanceAs (Decidable (_ → _ → _))
  | .limiter (.acquireConcurrency ..) => .isTrue trivial
  | .limiter (.renewConcurrency ..)   => .isTrue trivial
  | .limiter (.releaseRate ..)        => .isTrue trivial
  | .limiter (.releaseConcurrency ..) => .isTrue trivial
  | .now                              => .isTrue trivial
  | .heartbeats ..                    => .isTrue trivial
  | .broker _                         => .isTrue trivial
  | .repo _                           => .isTrue trivial

-- No job is evaluated under the policy while it counts there with the same number of attempts.
def Fresh (s : Admissions) (e : Evaluation) : Prop :=
  (Limiter.evaluateAndAcquire e.job e.policies e.leaseTTL).Guarded (World.tryExec e.faults)
    (Keeps P e.faults) (s.worldAt e.now)

instance {s e} : Decidable (Fresh P s e) :=
  inferInstanceAs (Decidable (Prog.Guarded ..))

def times (s : Admissions) : List Int :=
  s.admitted.map (·.1)

-- The sliding window is never exceeded.
def Limited (s : Admissions) : Prop :=
  Window.Bounded s.times (Limits.windowMillis P) P.limit

variable {P : RateLimitPolicy} {A : Admitted} {s : ExpiringSet} {now now' : Time} {member : String}

-- The jobs in the window that ends now.
def recent (P : RateLimitPolicy) (A : Admitted) (now : Time) : Admitted :=
  A.filter (now.unixMilli - Limits.windowMillis P < ·.1)

-- The set of the policy holds the jobs in the window, and none of them is deleted while it is there.
def Shows (P : RateLimitPolicy) (A : Admitted) (now : Time) (s : ExpiringSet) : Prop :=
  ∀ t m, (t, m) ∈ recent P A now →
    s.members.score? m = some t ∧ ∀ e ∈ s.expiresAt, t + Limits.windowMillis P ≤ e

-- The jobs in the window are different members.
structure Distinct (P : RateLimitPolicy) (A : Admitted) (now : Time) : Prop where
  past    : ∀ x ∈ A, x.1 ≤ now.unixMilli
  members : ((recent P A now).map (·.2)).Nodup

-- The member was added in this call, when there was room for it.
structure Adds (P : RateLimitPolicy) (A : Admitted) (now : Time) (member : String) (s : ExpiringSet) : Prop where
  fresh : member ∉ (recent P A now).map (·.2)
  room  : (recent P A now).length < P.limit
  score : s.members.score? member = some now.unixMilli
  lasts : ∀ e ∈ s.expiresAt, now.unixMilli + Limits.windowMillis P ≤ e

theorem mem_recent {x : Int × String} :
    x ∈ recent P A now ↔ x ∈ A ∧ now.unixMilli - Limits.windowMillis P < x.1 := by
  simp [recent]

theorem recent_sublist (hn : now ≤ now') : (recent P A now').Sublist (recent P A now) := by
  have hm := Time.unixMilli_mono hn
  refine List.monotone_filter_right A fun x hx => ?_
  simp only [decide_eq_true_eq] at hx ⊢
  omega

theorem Distinct.wait (h : Distinct P A now) (hn : now ≤ now') : Distinct P A now' where
  past x hx := (h.past x hx).trans (Time.unixMilli_mono hn)
  members   := h.members.sublist ((recent_sublist hn).map _)

-- The members that are left when those that came before the window are removed.
def purged (P : RateLimitPolicy) (now : Time) (s : ExpiringSet) : SortedSet String Int :=
  (s.live now.unixMilli).removeRangeByScore (now.unixMilli - Limits.windowMillis P)

theorem purged_score {t : Int} (hs : s.members.score? member = some t)
    (ht : now.unixMilli - Limits.windowMillis P < t) (he : ∀ e ∈ s.expiresAt, t + Limits.windowMillis P ≤ e) :
    (purged P now s).score? member = some t := by
  have hl : s.live now.unixMilli = s.members := by
    refine if_neg fun ha => ?_
    have ⟨e, hm, hc⟩ := (Option.any_eq_true ..).mp ha
    have hc : e ≤ now.unixMilli := of_decide_eq_true hc
    have he := he e hm
    omega
  simp [purged, SortedSet.score?_removeRangeByScore, hl, hs, ht]

namespace Shows

theorem wait (h : Shows P A now s) (hn : now ≤ now') : Shows P A now' s :=
  fun t m hm => h t m ((recent_sublist hn).subset hm)

theorem purged_score (h : Shows P A now s) {t : Int} {m : String} (hm : (t, m) ∈ recent P A now) :
    (purged P now s).score? m = some t :=
  have ⟨hs, he⟩ := h t m hm
  Admissions.purged_score hs (mem_recent.mp hm).right he

-- The set is at least as large as the window.
theorem length_le (h : Shows P A now s) (hd : Distinct P A now) :
    (recent P A now).length ≤ (purged P now s).card := by
  have hs : ∀ m ∈ (recent P A now).map (·.2), ((purged P now s).score? m).isSome := by
    intro m hm
    have ⟨x, hx, he⟩ := List.mem_map.mp hm
    rw [← he, h.purged_score hx]
    rfl
  simpa using SortedSet.length_le_card hd.members hs

-- Taking other members out of the set does not matter.
theorem of_score {members : SortedSet String Int} (h : Shows P A now s)
    (hm : ∀ t m, (t, m) ∈ recent P A now → members.score? m = some t) : Shows P A now { s with members } :=
  fun t m hr => ⟨hm t m hr, (h t m hr).right⟩

theorem release (h : Shows P A now s) (hm : member ∉ (recent P A now).map (·.2)) :
    Shows P A now (Limits.releaseLua member now.unixMilli s) := by
  refine h.of_score fun t m hr => ?_
  have hn : m ≠ member := fun he => hm (he ▸ List.mem_map_of_mem hr)
  have hp := h.purged_score hr
  rw [SortedSet.score?_remove_ne hn]
  simp only [purged, SortedSet.score?_removeRangeByScore, Option.filter_eq_some_iff] at hp
  exact hp.left

theorem acquire (h : Shows P A now s) (hd : Distinct P A now) (hw : 0 < Limits.windowMillis P)
    (hk : ¬Moves P member now now s) :
    let r := Limits.acquireRateLua now.unixMilli P.limit (Limits.windowMillis P) member now.unixMilli s
    Shows P A now r.1 ∧ (Adds P A now member s → Adds P A now member r.1) ∧
    (r.2.1 = true → Adds P A now member r.1) := by
  have he : Limits.acquireRateLua now.unixMilli P.limit (Limits.windowMillis P) member now.unixMilli s =
      if (purged P now s).card < P.limit
      then (.expire ((purged P now s).add member now.unixMilli) now.unixMilli (Limits.windowMillis P), true, 0)
      else ({ s with members := purged P now s }, false,
        ((purged P now s).first?.elim now.unixMilli (·.2)) + Limits.windowMillis P) := rfl
  dsimp only
  rw [he]
  split
  case isFalse =>
    refine ⟨h.of_score fun t m hm => h.purged_score hm, fun ha => ?_, fun hr => (nomatch hr)⟩
    exact { ha with score := Admissions.purged_score ha.score (by omega) ha.lasts }
  case isTrue hc =>
    have hn : (purged P now s).score? member = none := by
      cases hs : (purged P now s).score? member
      case none   => rfl
      case some t => exact absurd ⟨hc, by exact Option.isSome_of_mem hs⟩ hk
    have hf : member ∉ (recent P A now).map (·.2) := by
      intro hm
      have ⟨x, hx, he⟩ := List.mem_map.mp hm
      rw [← he, h.purged_score hx] at hn
      cases hn
    have ha : Adds P A now member
        (.expire ((purged P now s).add member now.unixMilli) now.unixMilli (Limits.windowMillis P)) := by
      have hl := h.length_le hd
      rw [ExpiringSet.expire, if_neg (not_le.mpr hw)]
      refine ⟨hf, by omega, by simp, by simp⟩
    refine ⟨fun t m hm => ?_, fun _ => ha, fun _ => ha⟩
    have hp := hd.past _ (mem_recent.mp hm).left
    have hne : m ≠ member := fun he => hf (he ▸ List.mem_map_of_mem hm)
    rw [ExpiringSet.expire, if_neg (not_le.mpr hw), SortedSet.score?_add_ne hne]
    exact ⟨h.purged_score hm, by simpa using hp⟩

end Shows

-- What matters of the world during a call.
structure Kept (P : RateLimitPolicy) (A : Admitted) (now : Time) (w : World) : Prop where
  clock : w.clock = .constant now
  shows : Shows P A now (w.limits.rate P.id)

-- The policy may be among those whose sets the job was added to.
structure Evaluating (P : RateLimitPolicy) (A : Admitted) (now : Time) (job : Job) (w : World) (d : Decision) :
    Prop extends Kept P A now w where
  names : ∀ x ∈ d.activeRate, x.2 = Limiter.rateMember job
  added : ∀ x ∈ d.activeRate, x.1.id = P.id → Adds P A now (Limiter.rateMember job) (w.limits.rate P.id)

section

variable {w : World} {d : Decision} {job : Job} {q : RateLimitPolicy} {faults : Nat → Fault}

theorem now_eq (h : w.clock = .constant now) : w.now = now := by
  rw [World.now, h]
  rfl

theorem tryExec_now (faults : Nat → Fault) (h : w.clock = .constant now) :
    w.tryExec faults .now = ({ w with calls := w.calls + 1 }, now) := by
  rw [← now_eq h]
  unfold World.tryExec
  cases faults w.calls <;> rfl

section

variable {leaseTTL : Duration} {rest : List RateLimitPolicy}

theorem acquireAll_rate (hm : q.mode = .rate) : Limiter.acquireAll job leaseTTL now (q :: rest) d =
    .call (.limiter (.acquireRate q (Limiter.rateMember job) now)) fun
      | .error e             => (Limiter.rollback d).bind fun _ => .ret (.error e)
      | .ok (false, retryAt) => Limiter.acquireAll job leaseTTL now rest (Limiter.deny d q retryAt)
      | .ok (true, _)        => Limiter.acquireAll job leaseTTL now rest
          { d with activeRate := d.activeRate ++ [(q, Limiter.rateMember job)] } := by
  rw [Limiter.acquireAll, hm]
  refine congrArg (Prog.call _) (funext fun r => ?_)
  match r with
  | .error _      => rfl
  | .ok (false, _) => rfl
  | .ok (true, _)  => rfl

theorem acquireAll_concurrency (hm : q.mode = .concurrency) :
    Limiter.acquireAll job leaseTTL now (q :: rest) d =
    .call (.limiter (.acquireConcurrency q job.id now leaseTTL)) fun
      | .error e             => (Limiter.rollback d).bind fun _ => .ret (.error e)
      | .ok (false, retryAt) => Limiter.acquireAll job leaseTTL now rest (Limiter.deny d q retryAt)
      | .ok (true, _)        => Limiter.acquireAll job leaseTTL now rest
          { d with activeSlots := d.activeSlots ++ [(q, job.id)] } := by
  rw [Limiter.acquireAll, hm]
  refine congrArg (Prog.call _) (funext fun r => ?_)
  match r with
  | .error _      => rfl
  | .ok (false, _) => rfl
  | .ok (true, _)  => rfl

end

-- A call of the limiter is refused, or its script runs.
theorem tryExec_limiter (w : World) (faults : Nat → Fault) (c : LimiterCall) :
    (w.tryExec faults (.limiter c) = ({ w with calls := w.calls + 1 }, .error .unavailable)) ∨
    (faults w.calls ≠ .refused ∧
      (w.tryExec faults (.limiter c)).1 = (w.exec (.limiter c)).1 ∧
      ∀ r, (w.tryExec faults (.limiter c)).2 = .ok r → r = (w.limits.exec w.now c).2) := by
  unfold World.tryExec
  cases hf : faults w.calls
  case refused => exact .inl rfl
  case none    => exact .inr ⟨by simp, rfl, fun r hr => by cases hr; rfl⟩
  case lost    => exact .inr ⟨by simp, rfl, fun r hr => by cases hr⟩

namespace Kept

theorem of_rate {w' : World} (h : Kept P A now w) (hc : w'.clock = w.clock)
    (hr : w'.limits.rate P.id = w.limits.rate P.id) : Kept P A now w' where
  clock := hc.trans h.clock
  shows := hr ▸ h.shows

theorem releaseConcurrency {policyID : String} (h : Kept P A now w) :
    Kept P A now (w.tryExec faults (.limiter (.releaseConcurrency policyID member))).1 := by
  match tryExec_limiter w faults (.releaseConcurrency policyID member) with
  | .inl he         => exact h.of_rate (by rw [he]) (by rw [he])
  | .inr ⟨_, he, _⟩ => exact h.of_rate (by rw [he]; rfl) (by rw [he]; rfl)

-- Only the member of this call is released.
theorem releaseRate {policyID : String} (h : Kept P A now w)
    (hm : policyID = P.id → member ∉ (recent P A now).map (·.2)) :
    Kept P A now (w.tryExec faults (.limiter (.releaseRate policyID member))).1 := by
  match tryExec_limiter w faults (.releaseRate policyID member) with
  | .inl he         => exact h.of_rate (by rw [he]) (by rw [he])
  | .inr ⟨_, he, _⟩ =>
    rw [he]
    by_cases hi : policyID = P.id
    case neg => exact h.of_rate rfl (Function.update_of_ne (Ne.symm hi) ..)
    case pos =>
      subst hi
      refine ⟨h.clock, ?_⟩
      have hs := h.shows.release (hm rfl)
      rw [World.exec_limiter, now_eq h.clock]
      simpa [Limits.exec] using hs

theorem releaseAll {call : String → String → LimiterCall} {l : List (RateLimitPolicy × String)}
    (hs : ∀ x ∈ l, ∀ w, Kept P A now w → Kept P A now (w.tryExec faults (.limiter (call x.1.id x.2))).1)
    (h : Kept P A now w) : Kept P A now ((Limiter.releaseAll call l).run (World.tryExec faults) w).1 := by
  induction l generalizing w
  case nil          => exact h
  case cons x l hi =>
    have h := hs x List.mem_cons_self w h
    exact hi (fun y hy => hs y (List.mem_cons_of_mem _ hy)) h

end Kept

namespace Evaluating

-- What matters of the world is the set of the policy.
theorem of_rate {w' : World} (h : Evaluating P A now job w d) (hc : w'.clock = w.clock)
    (hr : w'.limits.rate P.id = w.limits.rate P.id) : Evaluating P A now job w' d where
  toKept := h.toKept.of_rate hc hr
  names  := h.names
  added  := hr ▸ h.added

theorem acquireConcurrency {leaseTTL : Duration} (h : Evaluating P A now job w d) :
    Evaluating P A now job (w.tryExec faults (.limiter (.acquireConcurrency q member now leaseTTL))).1 d := by
  match tryExec_limiter w faults (.acquireConcurrency q member now leaseTTL) with
  | .inl he         => exact h.of_rate (by rw [he]) (by rw [he])
  | .inr ⟨_, he, _⟩ => exact h.of_rate (by rw [he]; rfl) (by rw [he]; rfl)

theorem acquireRate (h : Evaluating P A now job w d) (hd : Distinct P A now) (hw : 0 < Limits.windowMillis P)
    (hq : q.id = P.id → q = P)
    (hk : Keeps P faults w (.limiter (.acquireRate q (Limiter.rateMember job) now))) :
    let x := w.tryExec faults (.limiter (.acquireRate q (Limiter.rateMember job) now))
    Evaluating P A now job x.1 d ∧
    ∀ retryAt, x.2 = .ok (true, retryAt) →
      Evaluating P A now job x.1 { d with activeRate := d.activeRate ++ [(q, Limiter.rateMember job)] } := by
  have hx := tryExec_limiter w faults (.acquireRate q (Limiter.rateMember job) now)
  dsimp only
  match hx with
  | .inl he =>
    refine ⟨h.of_rate (by rw [he]) (by rw [he]), fun retryAt hr => ?_⟩
    rw [he] at hr
    cases hr
  | .inr ⟨hf, he, hr⟩ =>
    rw [he]
    by_cases hi : q.id = P.id
    case neg =>
      have hs : Evaluating P A now job (w.exec (.limiter (.acquireRate q (Limiter.rateMember job) now))).1 d :=
        h.of_rate rfl (Function.update_of_ne (Ne.symm hi) ..)
      refine ⟨hs, fun _ _ => { hs with names := ?_, added := ?_ }⟩
      · simpa [or_imp, forall_and] using h.names
      · simpa [or_imp, forall_and, hi] using hs.added
    case pos =>
      cases hq hi
      have hn := now_eq h.clock
      have hk : ¬Moves P (Limiter.rateMember job) now now (w.limits.rate P.id) := by simpa [hn] using hk rfl hf
      have ⟨hs, ha, hb⟩ := h.shows.acquire hd hw hk
      have hl : (w.exec (.limiter (.acquireRate P (Limiter.rateMember job) now))).1.limits.rate P.id =
          (Limits.acquireRateLua now.unixMilli P.limit (Limits.windowMillis P) (Limiter.rateMember job)
            now.unixMilli (w.limits.rate P.id)).1 := by
        rw [World.exec_limiter, hn]
        exact Function.update_self ..
      rw [← hl] at hs ha hb
      refine ⟨⟨⟨h.clock, hs⟩, h.names, fun x hx hi => ha (h.added x hx hi)⟩, fun retryAt hret => ?_⟩
      have hret := hr _ hret
      rw [hn] at hret
      have hb := hb (congrArg Prod.fst hret).symm
      refine ⟨⟨h.clock, hs⟩, ?_, fun _ _ _ => hb⟩
      simpa [or_imp, forall_and] using h.names

theorem rollback (h : Evaluating P A now job w d) :
    Kept P A now ((Limiter.rollback d).run (World.tryExec faults) w).1 := by
  have hr : Kept P A now ((Limiter.releaseAll .releaseRate d.activeRate).run (World.tryExec faults) w).1 := by
    refine Kept.releaseAll (fun x hx w hw => hw.releaseRate fun hi => ?_) h.toKept
    rw [h.names x hx]
    exact (h.added x hx hi).fresh
  simp only [Limiter.rollback, Prog.bind_eq, Prog.run_bind]
  exact hr.releaseAll fun _ _ _ hw => hw.releaseConcurrency

theorem deny {retryAt : Time} (h : Evaluating P A now job w d) :
    Evaluating P A now job w (Limiter.deny d q retryAt) :=
  { h with }

-- If the job is allowed in the end, it has been added to the set of every policy.
theorem acquireAll {leaseTTL : Duration} {policies : List RateLimitPolicy} (hd : Distinct P A now)
    (hw : 0 < Limits.windowMillis P) (hq : ∀ q ∈ policies, q.id = P.id → q = P)
    (h : Evaluating P A now job w d)
    (hg : (Limiter.acquireAll job leaseTTL now policies d).Guarded (World.tryExec faults) (Keeps P faults) w) :
    let x := (Limiter.acquireAll job leaseTTL now policies d).run (World.tryExec faults) w
    Kept P A now x.1 ∧ ∀ d', x.2 = .ok d' → Evaluating P A now job x.1 d' ∧
      (d'.allowed → d.allowed ∧ d.activeRate ⊆ d'.activeRate ∧
        ∀ q ∈ policies, q.mode = .rate → (q, Limiter.rateMember job) ∈ d'.activeRate) := by
  induction policies generalizing w d
  case nil =>
    refine ⟨h.toKept, fun d' he => ?_⟩
    cases he
    exact ⟨h, fun ha => ⟨ha, List.Subset.refl _, by simp⟩⟩
  case cons q rest hi =>
    have hi {w d} := @hi w d (fun p hp => hq p (List.mem_cons_of_mem _ hp))
    have hq := hq q List.mem_cons_self
    cases hm : q.mode
    case rate =>
      rw [acquireAll_rate hm] at hg ⊢
      have ⟨hk, hg⟩ := hg
      rw [Prog.run_call]
      have ⟨hs, ha⟩ := h.acquireRate hd hw hq hk
      revert hg hs ha
      generalize w.tryExec faults (.limiter (.acquireRate q (Limiter.rateMember job) now)) = x
      match x with
      | (w', .error e)             =>
        intro _ hs _
        dsimp only
        rw [Prog.run_bind]
        exact ⟨hs.rollback, fun d' he => by cases he⟩
      | (w', .ok (false, retryAt)) =>
        intro hg hs _
        have ⟨hk, hr⟩ := hi hs.deny hg
        exact ⟨hk, fun d' he => ⟨(hr d' he).left, fun ha => (nomatch ((hr d' he).right ha).left)⟩⟩
      | (w', .ok (true, retryAt))  =>
        intro hg _ ha
        have ⟨hk, hr⟩ := hi (ha retryAt rfl) hg
        refine ⟨hk, fun d' he => ⟨(hr d' he).left, fun ha => ?_⟩⟩
        have ⟨ha, hs, hr⟩ := (hr d' he).right ha
        have ⟨hs, hl⟩ := List.append_subset.mp hs
        refine ⟨ha, hs, fun p hp hm => ?_⟩
        cases List.mem_cons.mp hp
        case inl hp => exact hl (by simp [hp])
        case inr hp => exact hr p hp hm
    case concurrency =>
      rw [acquireAll_concurrency hm] at hg ⊢
      have ⟨_, hg⟩ := hg
      rw [Prog.run_call]
      have hs : Evaluating P A now job
          (w.tryExec faults (.limiter (.acquireConcurrency q job.id now leaseTTL))).1 d := h.acquireConcurrency
      revert hg hs
      generalize w.tryExec faults (.limiter (.acquireConcurrency q job.id now leaseTTL)) = x
      match x with
      | (w', .error e)             =>
        intro _ hs
        dsimp only
        rw [Prog.run_bind]
        exact ⟨hs.rollback, fun d' he => by cases he⟩
      | (w', .ok (false, retryAt)) =>
        intro hg hs
        have ⟨hk, hr⟩ := hi hs.deny hg
        exact ⟨hk, fun d' he => ⟨(hr d' he).left, fun ha => (nomatch ((hr d' he).right ha).left)⟩⟩
      | (w', .ok (true, retryAt))  =>
        intro hg hs
        have hs : Evaluating P A now job w' { d with activeSlots := d.activeSlots ++ [(q, job.id)] } := { hs with }
        have ⟨hk, hr⟩ := hi hs hg
        refine ⟨hk, fun d' he => ⟨(hr d' he).left, fun ha => ?_⟩⟩
        have ⟨ha, hs, hr⟩ := (hr d' he).right ha
        refine ⟨ha, hs, fun p hp hn => ?_⟩
        cases List.mem_cons.mp hp
        case inl hp => cases hp; cases hm.symm.trans hn
        case inr hp => exact hr p hp hn

end Evaluating

-- The decision before any policy has been looked at.
def unlimited : Decision :=
  { allowed := true, retryAt := .zero, reasons := [], activeRate := [], activeSlots := [] }

theorem evaluateAndAcquire_eq {policies : List RateLimitPolicy} {leaseTTL : Duration} :
    Limiter.evaluateAndAcquire job policies leaseTTL = .call .now fun now =>
      (Limiter.acquireAll job leaseTTL now (Limiter.applicablePolicies job policies) unlimited).bind fun
        | .error e => .ret (.error e)
        | .ok d    => if d.allowed then .ret (.ok d) else (Limiter.rollback d).bind fun _ => .ret (.ok d) := by
  refine congrArg (Prog.call _) (funext fun now => ?_)
  refine congrArg (Prog.bind · (Limiter.acquireAll ..)) (funext fun r => ?_)
  cases r <;> rfl

theorem evaluateAndAcquire {policies : List RateLimitPolicy} {leaseTTL : Duration} (hd : Distinct P A now)
    (hw : 0 < Limits.windowMillis P) (hm : P.mode = .rate) (hq : ∀ q ∈ policies, q.id = P.id → q = P)
    (h : Kept P A now w)
    (hg : (Limiter.evaluateAndAcquire job policies leaseTTL).Guarded (World.tryExec faults) (Keeps P faults) w) :
    let x := (Limiter.evaluateAndAcquire job policies leaseTTL).run (World.tryExec faults) w
    Kept P A now x.1 ∧ (P ∈ Limiter.applicablePolicies job policies → x.2.toOption.any (·.allowed) →
      Adds P A now (Limiter.rateMember job) (x.1.limits.rate P.id)) := by
  have hn := tryExec_now faults h.clock
  have hq (q) (hp : q ∈ Limiter.applicablePolicies job policies) : q.id = P.id → q = P :=
    hq q (List.mem_of_mem_filter hp)
  have h : Evaluating P A now job { w with calls := w.calls + 1 } unlimited :=
    ⟨h.of_rate rfl rfl, by simp [unlimited], by simp [unlimited]⟩
  rw [evaluateAndAcquire_eq, Prog.Guarded, hn, Prog.guarded_bind] at hg
  obtain ⟨hk, hr⟩ := h.acquireAll hd hw hq hg.right.left
  rw [evaluateAndAcquire_eq, Prog.run_call, hn, Prog.run_bind]
  revert hk hr
  generalize (Limiter.acquireAll job leaseTTL now (Limiter.applicablePolicies job policies) unlimited).run
    (World.tryExec faults) { w with calls := w.calls + 1 } = x
  obtain ⟨w', res⟩ := x
  cases res
  case error e =>
    intro hk _
    exact ⟨hk, fun _ ha => by cases ha⟩
  case ok d    =>
    intro hk hr
    obtain ⟨he, hr⟩ := hr d rfl
    dsimp only
    by_cases ha : d.allowed = true
    case pos =>
      rw [if_pos ha]
      exact ⟨hk, fun hp _ => he.added _ ((hr ha).right.right P hp hm) rfl⟩
    case neg =>
      rw [if_neg ha, Prog.run_bind]
      exact ⟨he.rollback, fun _ hd => absurd hd ha⟩

end

-- The invariant of the admissions.
structure Sound (P : RateLimitPolicy) (s : Admissions) : Prop where
  limited  : s.Limited P
  distinct : Distinct P s.admitted s.time
  shows    : Shows P s.admitted s.time (s.world.limits.rate P.id)

variable {w : World} {s : Admissions} {e : Evaluation} {es : List Evaluation}

namespace Sound

theorem start (hl : 0 < P.limit) : Sound P (start w) where
  limited  := Window.Bounded.nil (by omega)
  distinct := ⟨by simp [Admissions.start], by simp [Admissions.start, recent]⟩
  shows    := by simp [Shows, Admissions.start, recent]

theorem wait (h : Sound P s) (hn : s.time ≤ now) : Sound P { s with time := now } where
  limited  := h.limited
  distinct := h.distinct.wait hn
  shows    := h.shows.wait hn

-- The job counts from now on.
theorem count (h : Sound P s) (ha : Adds P s.admitted s.time member (s.world.limits.rate P.id)) :
    Sound P { s with admitted := s.admitted ++ [(s.time.unixMilli, member)] } := by
  have hr : Window.recent s.times (Limits.windowMillis P) s.time.unixMilli =
      (recent P s.admitted s.time).map (·.1) :=
    List.filter_map
  have hs : (recent P (s.admitted ++ [(s.time.unixMilli, member)]) s.time).Sublist
      (recent P s.admitted s.time ++ [(s.time.unixMilli, member)]) := by
    rw [recent, List.filter_append]
    exact (List.Sublist.refl _).append List.filter_sublist
  constructor
  case limited =>
    have hb := Window.Bounded.snoc (t := s.time.unixMilli) h.limited (by simpa [hr] using ha.room)
    simpa [Limited, times] using hb
  case distinct =>
    constructor
    case past =>
      simpa [or_imp, forall_and] using h.distinct.past
    case members =>
      refine List.Nodup.sublist (hs.map _) ?_
      have hf (a : String) (ht : a ∈ (recent P s.admitted s.time).map (·.2)) : a ≠ member :=
        fun he => ha.fresh (he ▸ ht)
      simpa [List.nodup_append, h.distinct.members] using hf
  case shows =>
    intro t m hm
    cases List.mem_append.mp (hs.subset hm)
    case inl hm => exact h.shows t m hm
    case inr hm =>
      cases List.mem_singleton.mp hm
      exact ⟨ha.score, ha.lasts⟩

theorem step (hw : 0 < Limits.windowMillis P) (hm : P.mode = .rate) (h : Sound P s)
    (ha : Regular P s e ∧ Fresh P s e) : Sound P (step P s e) := by
  have ⟨⟨hn, hq⟩, hf⟩ := ha
  have h := h.wait hn
  have ⟨hk, ha⟩ := evaluateAndAcquire (w := s.worldAt e.now) h.distinct hw hm hq ⟨rfl, h.shows⟩ hf
  have h : Sound P { s with time := e.now, world := (s.evaluate e).1 } :=
    { h with shows := hk.shows }
  unfold Admissions.step
  dsimp only
  split
  case isFalse    => exact h
  case isTrue hal => exact h.count (ha hal.left hal.right)

end Sound

theorem validate_positive (hv : P.validate = .ok ()) (hm : P.mode = .rate) :
    0 < P.limit ∧ 0 < P.windowSeconds := by
  unfold RateLimitPolicy.validate at hv
  simp [hm, bind, Except.bind, throw, throwThe, MonadExceptOf.throw, pure, Except.pure] at hv
  grind

-- If no job is evaluated while it counts with the same number of attempts, the limit is never exceeded.
theorem limited_of_fresh (hv : P.validate = .ok ()) (hm : P.mode = .rate)
    (hg : Run.Guarded (step P) (fun s e => Regular P s e ∧ Fresh P s e) (start w) es) :
    Limited P (Run.last (step P) (start w) es) := by
  have ⟨hl, hw⟩ := validate_positive hv hm
  have hw : 0 < Limits.windowMillis P := by
    unfold Limits.windowMillis
    omega
  exact (hg.invariant (fun _ _ => Sound.step hw hm) (Sound.start hl)).limited

namespace Sample

def policy : RateLimitPolicy where
  id            := "policy-1"
  name          := "two per minute"
  scope         := .global
  scopeValue    := ""
  mode          := .rate
  limit         := 2
  windowSeconds := 60
  enabled       := true

-- A job is evaluated after its first dequeue, at so many milliseconds.
def evaluation (jobID : JobID) (ms : Int) : Evaluation where
  now      := .ofUnixMilli ms
  job      := { buildJob 0 (.plain "email.send") jobID with attempts := 1 }
  policies := [policy]
  leaseTTL := 30 * Duration.second
  faults _ := .none

end Sample

theorem limited_of_fresh_sample :
    Limited Sample.policy (Run.last (step Sample.policy) (start .sample)
      [Sample.evaluation "job-1" 1700000001000, Sample.evaluation "job-2" 1700000002000,
        Sample.evaluation "job-3" 1700000003000]) :=
  limited_of_fresh rfl rfl (by decide +kernel)

-- A job that is retried at once, so that its attempts start again, does not count twice.
theorem not_limited_of_regular :
    let es := [1700000001000, 1700000002000, 1700000003000].map (Sample.evaluation "job-1")
    Sample.policy.validate = .ok () ∧ Run.Guarded (step Sample.policy) (Regular Sample.policy) (start .sample) es ∧
    ¬Limited Sample.policy (Run.last (step Sample.policy) (start .sample) es) := by
  refine ⟨rfl, by decide +kernel, fun h => absurd (h 1700000003000) ?_⟩
  decide +kernel

end Admissions
end JobPlatform
