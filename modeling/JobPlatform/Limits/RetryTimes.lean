import JobPlatform.Limits.Usage

namespace JobPlatform

namespace RateLimitPolicy

-- The millisecond from which on an entry with this score does not count any more.
def due (q : RateLimitPolicy) (score : Int) : Int :=
  match q.mode with
  | .rate        => score + Limits.windowMillis q
  | .concurrency => score

variable {q : RateLimitPolicy} {now score : Int}

theorem boundary_lt : q.boundary now < score ↔ now < q.due score := by
  unfold boundary due
  cases q.mode <;> dsimp only <;> omega

theorem boundary_mono {now' : Int} (h : now ≤ now') : q.boundary now ≤ q.boundary now' := by
  unfold boundary
  cases q.mode <;> dsimp only <;> omega

theorem due_mono {score' : Int} : q.due score ≤ q.due score' ↔ score ≤ score' := by
  unfold due
  cases q.mode <;> simp

end RateLimitPolicy

namespace ExpiringSet

-- Each entry is due within the lifetime of the key, which is not deleted before that, and there are not
-- more entries than the limit.
structure Timely (q : RateLimitPolicy) (leaseTTL : Duration) (now : Int) (s : ExpiringSet) : Prop where
  due    : ∀ m score, s.members.score? m = some score → q.due score ≤ now + Limits.lifetime leaseTTL q
  expiry : ∀ m score, s.members.score? m = some score → ∀ e ∈ s.expiresAt, q.due score ≤ e
  room   : (s.members.card : Int) ≤ q.limit

variable {q : RateLimitPolicy} {leaseTTL : Duration} {s : ExpiringSet} {members : SortedSet String Int}
         {now now' score bound : Int} {m : String}

theorem live_score (h : (s.live now).score? m = some score) : s.members.score? m = some score := by
  unfold live at h
  split at h
  case isTrue  => cases h
  case isFalse => exact h

theorem card_live_le : (s.live now).card ≤ s.members.card := by
  unfold live
  split
  case isTrue  => exact Nat.zero_le _
  case isFalse => exact le_rfl

theorem counted_score (h : ((s.live now).removeRangeByScore bound).score? m = some score) :
    s.members.score? m = some score := by
  rw [SortedSet.score?_removeRangeByScore, Option.filter_eq_some_iff] at h
  exact live_score h.left

namespace Timely

theorem empty (hl : 0 ≤ q.limit) : Timely q leaseTTL now .empty where
  due    := by simp [ExpiringSet.empty]
  expiry := by simp [ExpiringSet.empty]
  room   := hl

theorem wait (h : Timely q leaseTTL now s) (hn : now ≤ now') : Timely q leaseTTL now' s where
  due m score hm := (h.due m score hm).trans (by omega)
  expiry         := h.expiry
  room           := h.room

-- Entries may be taken out.
theorem sub (h : Timely q leaseTTL now s) (hm : ∀ m score, members.score? m = some score → s.members.score? m = some score)
    (hc : members.card ≤ s.members.card) : Timely q leaseTTL now { s with members } where
  due m score hs    := h.due m score (hm m score hs)
  expiry m score hs := h.expiry m score (hm m score hs)
  room              := (Int.ofNat_le.mpr hc).trans h.room

theorem purge (h : Timely q leaseTTL now s) :
    Timely q leaseTTL now { s with members := (s.live now).removeRangeByScore bound } :=
  h.sub (fun _ _ => counted_score) (SortedSet.card_removeRangeByScore_le.trans card_live_le)

theorem release (h : Timely q leaseTTL now s) : Timely q leaseTTL now (Limits.releaseLua m now s) := by
  refine h.sub (fun m' score hm => ?_) (SortedSet.card_remove_le.trans card_live_le)
  rw [SortedSet.score?_remove] at hm
  split at hm
  case isTrue  => cases hm
  case isFalse => exact live_score hm

-- The entry that is added is due when the key is deleted.
theorem grant {ttl : Int} (h : Timely q leaseTTL now s) (hl : 0 ≤ q.limit) (ht : Limits.lifetime leaseTTL q = ttl)
    (hd : q.due score = now + ttl)
    (hr : (((s.live now).removeRangeByScore bound).score? m).isSome ∨
      (((s.live now).removeRangeByScore bound).card : Int) < q.limit) :
    Timely q leaseTTL now (.expire (((s.live now).removeRangeByScore bound).add m score) now ttl) := by
  subst ht
  unfold expire
  split
  case isTrue  => exact .empty hl
  case isFalse =>
    have hm (m' score') (hs : (((s.live now).removeRangeByScore bound).add m score).score? m' = some score') :
        q.due score' ≤ now + Limits.lifetime leaseTTL q := by
      rw [SortedSet.score?_add] at hs
      split at hs
      case isTrue  =>
        cases hs
        exact hd.le
      case isFalse => exact h.due m' score' (counted_score hs)
    refine ⟨hm, fun m' score' hs e he => ?_, ?_⟩
    · cases he
      exact hm m' score' hs
    · have hp : (((s.live now).removeRangeByScore bound).card : Int) ≤ q.limit := h.purge.room
      rw [SortedSet.card_add]
      split
      case isTrue  => exact hp
      case isFalse => have := hr.resolve_left ‹_›; omega

theorem acquireRate (h : Timely q leaseTTL now s) (hl : 0 ≤ q.limit) (hm : q.mode = .rate) :
    Timely q leaseTTL now (Limits.acquireRateLua now q.limit (Limits.windowMillis q) m now s).1 := by
  have he : Limits.lifetime leaseTTL q = Limits.windowMillis q := by simp [Limits.lifetime, hm]
  unfold Limits.acquireRateLua
  dsimp only
  split
  case isTrue hr => exact h.grant hl he (by simp [RateLimitPolicy.due, hm]) (.inr hr)
  case isFalse   => exact h.purge

theorem acquireConcurrency (h : Timely q leaseTTL now s) (hl : 0 ≤ q.limit) (hm : q.mode = .concurrency) :
    Timely q leaseTTL now (Limits.acquireConcurrencyLua now q.limit leaseTTL.milliseconds m now s).1 := by
  have he : Limits.lifetime leaseTTL q = leaseTTL.milliseconds := by simp [Limits.lifetime, hm]
  unfold Limits.acquireConcurrencyLua
  dsimp only
  split
  case isTrue hr => exact h.grant hl he (by simp [RateLimitPolicy.due, hm]) hr
  case isFalse   => exact h.purge

theorem renewConcurrency (h : Timely q leaseTTL now s) (hl : 0 ≤ q.limit) (hm : q.mode = .concurrency) :
    Timely q leaseTTL now (Limits.renewConcurrencyLua now leaseTTL.milliseconds m now s) := by
  have he : Limits.lifetime leaseTTL q = leaseTTL.milliseconds := by simp [Limits.lifetime, hm]
  unfold Limits.renewConcurrencyLua
  dsimp only
  split
  case isTrue hr => exact h.grant hl he (by simp [RateLimitPolicy.due, hm]) (.inl hr)
  case isFalse   => exact h.purge

end Timely
end ExpiringSet

namespace Limits

-- The entries of all policies are timely.
def Timely (policies : List RateLimitPolicy) (leaseTTL : Duration) (now : Time) (l : Limits) : Prop :=
  ∀ q ∈ policies, (l.get q.key).Timely q leaseTTL now.unixMilli

-- The calls under fixed policies with one lifetime of the leases.
def Fits (policies : List RateLimitPolicy) (leaseTTL : Duration) (now : Time) : Call → Prop
  | .limiter (.acquireRate q _ now')                  => q ∈ policies ∧ q.mode = .rate ∧ now' = now
  | .limiter (.acquireConcurrency q _ now' leaseTTL') =>
    q ∈ policies ∧ q.mode = .concurrency ∧ now' = now ∧ leaseTTL' = leaseTTL
  | .limiter (.renewConcurrency _ _ now' leaseTTL')   => now' = now ∧ leaseTTL' = leaseTTL
  | .limiter _                                        => True
  | .now                                              => True
  | _                                                 => False

variable {policies : List RateLimitPolicy} {leaseTTL : Duration} {now now' : Time} {l : Limits} {s : ExpiringSet}
         {key : LimiterKey} {c : LimiterCall}

theorem key_inj {q q' : RateLimitPolicy} (hn : (policies.map (·.id)).Nodup) (hq : q ∈ policies) (hq' : q' ∈ policies)
    (hk : q'.key = q.key) : q' = q := by
  refine List.inj_on_of_nodup_map hn hq' hq ?_
  unfold RateLimitPolicy.key at hk
  cases hm : q.mode <;> cases hm' : q'.mode <;> simp only [hm, hm'] at hk
  case rate.rate               => exact LimiterKey.rate.inj hk
  case concurrency.concurrency => exact LimiterKey.concurrency.inj hk
  all_goals cases hk

namespace Timely

theorem wait (h : Timely policies leaseTTL now l) (hn : now ≤ now') : Timely policies leaseTTL now' l :=
  fun q hq => (h q hq).wait (Time.unixMilli_mono hn)

theorem set (h : Timely policies leaseTTL now l) (key : LimiterKey)
    (hs : ∀ q ∈ policies, q.key = key → (l.get key).Timely q leaseTTL now.unixMilli →
      s.Timely q leaseTTL now.unixMilli) : Timely policies leaseTTL now (l.set s key) := by
  intro q hq
  by_cases hk : q.key = key
  case neg => exact (get_set_ne hk).symm ▸ h q hq
  case pos =>
    subst hk
    exact get_set_self.symm ▸ hs q hq rfl (h q hq)

theorem exec (h : Timely policies leaseTTL now l) (hn : (policies.map (·.id)).Nodup)
    (hl : ∀ q ∈ policies, 0 ≤ q.limit) (hc : Fits policies leaseTTL now (.limiter c)) :
    Timely policies leaseTTL now (l.exec now c).1 := by
  cases c
  case acquireRate p member now' =>
    obtain ⟨hp, hm, rfl⟩ := hc
    refine h.set (.rate p.id) fun q hq hk hs => ?_
    obtain rfl : q = p := key_inj hn hp hq (hk.trans (by rw [RateLimitPolicy.key, hm]))
    exact hs.acquireRate (hl q hq) hm
  case acquireConcurrency p member now' leaseTTL' =>
    obtain ⟨hp, hm, rfl, rfl⟩ := hc
    refine h.set (.concurrency p.id) fun q hq hk hs => ?_
    obtain rfl : q = p := key_inj hn hp hq (hk.trans (by rw [RateLimitPolicy.key, hm]))
    exact hs.acquireConcurrency (hl q hq) hm
  case renewConcurrency id member now' leaseTTL' =>
    obtain ⟨rfl, rfl⟩ := hc
    refine h.set (.concurrency id) fun q hq hk hs => ?_
    have hm : q.mode = .concurrency := by
      unfold RateLimitPolicy.key at hk
      cases hm : q.mode <;> simp only [hm] at hk
      case rate        => cases hk
      case concurrency => rfl
    exact hs.renewConcurrency (hl q hq) hm
  case releaseRate id member        => exact h.set (.rate id) fun q _ _ hs => hs.release
  case releaseConcurrency id member => exact h.set (.concurrency id) fun q _ _ hs => hs.release

end Timely

section

variable {t t' : Time} {l₁ : Limits} {q : RateLimitPolicy} {job : Job} {m : String}

theorem unexpired_eq : l.unexpired now q = (l.purged now q).score? := by
  unfold unexpired purged RateLimitPolicy.key RateLimitPolicy.boundary
  cases q.mode <;> rfl

-- A job without an entry is admitted as long as there is room for it.
theorem admits_eq (h : l.unexpired now q (entry job q) = none) :
    l.admits now job q = decide (((l.purged now q).card : Int) < q.limit) := by
  cases hm : q.mode <;>
    simp only [unexpired_eq, entry, hm, purged, RateLimitPolicy.key, RateLimitPolicy.boundary, Limits.get] at h
  all_goals simp [admits, purged, hm, h, RateLimitPolicy.key, RateLimitPolicy.boundary, Limits.get]

theorem retryAt_eq {x : String × Int} (h : (l.purged now q).first? = some x) :
    l.retryAt now leaseTTL q = .ofUnixMilli (q.due x.2) := by
  cases hm : q.mode <;>
    simp only [hm, purged, RateLimitPolicy.key, RateLimitPolicy.boundary, Limits.get] at h
  all_goals simp [retryAt, hm, h, RateLimitPolicy.due]

theorem lt_due {s : Int} (h : l.unexpired now q m = some s) : now.unixMilli < q.due s := by
  rw [unexpired_eq, purged, SortedSet.score?_removeRangeByScore, Option.filter_eq_some_iff] at h
  exact RateLimitPolicy.boundary_lt.mp (of_decide_eq_true h.right)

-- What counts later on is what is not due until then.
theorem purged_wait (h : (l.get q.key).Timely q leaseTTL t.unixMilli) (ht : t ≤ t') :
    (l.purged t' q).score? m = ((l.purged t q).removeRangeByScore (q.boundary t'.unixMilli)).score? m := by
  have ht := Time.unixMilli_mono ht
  unfold purged
  rw [SortedSet.removeRangeByScore_of_le (RateLimitPolicy.boundary_mono ht), SortedSet.score?_removeRangeByScore,
    SortedSet.score?_removeRangeByScore, ExpiringSet.live_wait ht]
  split
  case isFalse   => rfl
  case isTrue he =>
    obtain ⟨e, he, hl⟩ := (Option.any_eq_true ..).mp he
    refine (Option.filter_eq_none_iff.mpr fun score hs => ?_).symm
    have hd := (h.expiry m score (ExpiringSet.live_score hs) e he).trans (of_decide_eq_true hl)
    simpa using (RateLimitPolicy.boundary_lt.not.mpr (not_lt.mpr hd))

-- The policy admits the job again when the first entry that counts is gone, but not before.
theorem admits_later_iff (hv : l₁.unexpired t q = l.unexpired t q)
    (h : (l₁.get q.key).Timely q leaseTTL t.unixMilli) (hf : l.unexpired t q (entry job q) = none)
    (hl : 1 ≤ q.limit) (ht : t ≤ t') :
    l₁.admits t' job q = true ↔ l.admits t job q = true ∨ l.retryAt t leaseTTL q ≤ t' := by
  have hs : (l₁.purged t q).score? = (l.purged t q).score? := by rw [← unexpired_eq, hv, unexpired_eq]
  have hc : (l₁.purged t q).card = (l.purged t q).card := SortedSet.card_congr fun m => congrFun hs m
  have hw : (l₁.purged t' q).card = ((l₁.purged t q).removeRangeByScore (q.boundary t'.unixMilli)).card :=
    SortedSet.card_congr fun _ => purged_wait h ht
  have hf' : l₁.unexpired t' q (entry job q) = none := by
    rw [unexpired_eq, purged_wait h ht, SortedSet.score?_removeRangeByScore, congrFun hs, ← unexpired_eq, hf]
    rfl
  rw [admits_eq hf', admits_eq hf, decide_eq_true_iff, decide_eq_true_iff, hw]
  by_cases hr : ((l.purged t q).card : Int) < q.limit
  case pos =>
    have hle : ((l₁.purged t q).removeRangeByScore (q.boundary t'.unixMilli)).card ≤ (l₁.purged t q).card :=
      SortedSet.card_removeRangeByScore_le
    exact iff_of_true (by omega) (.inl hr)
  case neg =>
    cases hx : (l.purged t q).first?
    case none   =>
      have h0 := SortedSet.first?_eq_none.mp hx
      omega
    case some x =>
      have ⟨hm, hleast⟩ := SortedSet.first?_eq_some hx
      rw [retryAt_eq hx, Time.ofUnixMilli_le, or_iff_right hr]
      by_cases hd : q.due x.2 ≤ t'.unixMilli
      case pos =>
        have hb : x.2 ≤ q.boundary t'.unixMilli := not_lt.mp <| RateLimitPolicy.boundary_lt.not.mpr (not_lt.mpr hd)
        have hlt := SortedSet.card_removeRangeByScore_lt ((congrFun hs x.1).trans hm) hb
        have hroom : ((l₁.purged t q).card : Int) ≤ q.limit := h.purge.room
        exact iff_of_true (by omega) hd
      case neg =>
        have he : (l₁.purged t q).removeRangeByScore (q.boundary t'.unixMilli) = l₁.purged t q :=
          SortedSet.removeRangeByScore_eq_self fun m s hm => by
            have hle : q.due x.2 ≤ q.due s := RateLimitPolicy.due_mono.mpr (hleast m s ((congrFun hs m).symm.trans hm))
            exact RateLimitPolicy.boundary_lt.mpr ((not_le.mp hd).trans_le hle)
        rw [he, hc]
        exact iff_of_false hr hd

-- A policy that denies a job tells it a time in the future.
theorem lt_retryAt (hf : l.unexpired t q (entry job q) = none) (hl : 1 ≤ q.limit) (ha : ¬l.admits t job q = true) :
    t < l.retryAt t leaseTTL q := by
  rw [admits_eq hf, decide_eq_true_iff] at ha
  cases hx : (l.purged t q).first?
  case none   =>
    have h0 := SortedSet.first?_eq_none.mp hx
    omega
  case some x =>
    have hm : l.unexpired t q x.1 = some x.2 := (congrFun unexpired_eq x.1).trans (SortedSet.first?_eq_some hx).left
    rw [retryAt_eq hx]
    exact not_le.mp <| Time.ofUnixMilli_le.not.mpr <| not_le.mpr (lt_due hm)

end
end Limits

deriving instance DecidableEq for ThrottleReason, Decision

namespace Usage

-- There is one lifetime of the leases.
def Leased (leaseTTL : Duration) (e : LimiterEvent) : Prop :=
  ∀ t ∈ e.op.leaseTTL?, t = leaseTTL

instance {leaseTTL e} : Decidable (Leased leaseTTL e) :=
  inferInstanceAs (Decidable (∀ t ∈ _, _))

section

variable {policies rest : List RateLimitPolicy} {leaseTTL : Duration} {now : Time} {w : World} {faults : Nat → Fault}
         {α : Type} {p : Program α} {job : Job} {s : Usage} {e : LimiterEvent} {es : List LimiterEvent}

-- The entries in a world are timely while a method runs.
structure Timely (policies : List RateLimitPolicy) (leaseTTL : Duration) (now : Time) (w : World) : Prop where
  clock  : w.clock = .constant now
  limits : w.limits.Timely policies leaseTTL now

namespace Timely

theorem tryExec (h : Timely policies leaseTTL now w) (hn : (policies.map (·.id)).Nodup)
    (hl : ∀ q ∈ policies, 0 ≤ q.limit) {c : Call} (hc : Limits.Fits policies leaseTTL now c) :
    Timely policies leaseTTL now (w.tryExec faults c).1 := by
  cases c
  case heartbeats => exact hc.elim
  case broker     => exact hc.elim
  case repo       => exact hc.elim
  case now        => exact Admissions.tryExec_now faults h.clock ▸ ⟨h.clock, h.limits⟩
  case limiter c  =>
    cases Admissions.tryExec_limiter w faults c
    case inl he => exact he ▸ ⟨h.clock, h.limits⟩
    case inr he =>
      rw [he.right.left, World.exec_limiter, Admissions.now_eq h.clock]
      exact ⟨h.clock, h.limits.exec hn hl hc⟩

theorem run (h : Timely policies leaseTTL now w) (hn : (policies.map (·.id)).Nodup)
    (hl : ∀ q ∈ policies, 0 ≤ q.limit) (hp : p.Only (Limits.Fits policies leaseTTL now)) :
    Timely policies leaseTTL now (p.run (World.tryExec faults) w).1 :=
  hp.preserves (fun _ _ hc h => h.tryExec hn hl hc) h

theorem status (h : Timely policies leaseTTL now w) :
    Timely policies leaseTTL now ((Limiter.status rest).run (World.tryStatus faults) w).1 := by
  refine Prog.run_preserves (fun w c (h : Timely policies leaseTTL now w) => ?_) _ h
  have he : Timely policies leaseTTL now (w.statusExec c).1 := by
    match c with
    | .now                      => exact ⟨h.clock, h.limits⟩
    | .zCard _                  => exact ⟨h.clock, h.limits⟩
    | .zRemRangeByScore key max =>
      refine ⟨h.clock, ?_⟩
      simp only [World.statusExec, Admissions.now_eq h.clock]
      exact h.limits.set _ fun q _ _ hs => hs.purge
  unfold World.tryStatus
  cases faults w.calls <;> cases c <;> first | exact he | exact ⟨h.clock, h.limits⟩

end Timely

theorem timely_step (hn : (policies.map (·.id)).Nodup) (hl : ∀ q ∈ policies, 0 ≤ q.limit)
    (h : s.world.limits.Timely policies leaseTTL s.time)
    (he : Regular s e ∧ Fixed policies e ∧ Leased leaseTTL e) :
    (step s e).world.limits.Timely policies leaseTTL (step s e).time := by
  obtain ⟨now, op, faults⟩ := e
  obtain ⟨hr, hf, ht⟩ := he
  have hw : Timely policies leaseTTL now (s.worldAt now) := ⟨rfl, h.wait hr⟩
  have hw' : Timely policies leaseTTL now { s.worldAt now with calls := 1 } := ⟨rfl, h.wait hr⟩
  cases op
  case status rest         => exact hw.status.limits
  case release job rest    =>
    exact (hw.run hn hl <| Limiter.forConcurrency_only (.releaseConcurrency ·.id job.id) fun _ _ => trivial).limits
  case renew job rest ttl  =>
    obtain rfl : ttl = leaseTTL := ht ttl rfl
    simp only [step]
    rw [Limiter.renew_run rfl]
    refine (hw'.run hn hl <| Limiter.forConcurrency_only _ fun _ _ => ?_).limits
    exact ⟨rfl, rfl⟩
  case evaluateAndAcquire job rest ttl =>
    obtain rfl : ttl = leaseTTL := ht ttl rfl
    simp only [step]
    rw [Limiter.evaluateAndAcquire_run rfl]
    refine (hw'.run hn hl <| Limiter.evaluateAt_only (fun _ _ => trivial) (fun _ _ => trivial) fun q hq => ?_).limits
    have hq := hf (List.mem_of_mem_filter hq)
    cases hm : q.mode
    case rate        => exact ⟨hq, hm, rfl⟩
    case concurrency => exact ⟨hq, hm, rfl, rfl⟩

@[simp]
theorem step_time : (step s e).time = e.now := by
  obtain ⟨_, op, _⟩ := e
  cases op <;> rfl

-- What holds of the limiter in every run from the beginning.
theorem timely_of_run {start : Time} (hn : (policies.map (·.id)).Nodup) (hl : ∀ q ∈ policies, 0 ≤ q.limit)
    (hw : w.limits = .empty)
    (hg : Run.Guarded step (fun s e => Regular s e ∧ Fixed policies e ∧ Leased leaseTTL e) (Usage.start start w) es) :
    (Run.last step (Usage.start start w) es).world.limits.Timely policies leaseTTL
      (Run.last step (Usage.start start w) es).time ∧
    start ≤ (Run.last step (Usage.start start w) es).time := by
  let Inv (s : Usage) : Prop := s.world.limits.Timely policies leaseTTL s.time ∧ start ≤ s.time
  have h₀ : Inv (Usage.start start w) := by
    refine ⟨fun q hq => ?_, le_rfl⟩
    have he : w.limits.get q.key = .empty := by
      rw [hw]
      cases q.key <;> rfl
    exact he ▸ .empty (hl q hq)
  have hs (s) (e : LimiterEvent) (h : Inv s) (he : Regular s e ∧ Fixed policies e ∧ Leased leaseTTL e) :
      Inv (step s e) :=
    ⟨timely_step hn hl h.left he, step_time ▸ h.right.trans he.left⟩
  exact hg.invariant hs h₀

-- If no call fails, the job is allowed if all policies admit it, and the time to come back is the last of those
-- at which the others do.
theorem evaluate_run (job : Job) (leaseTTL : Duration) (hc : w.clock = .constant now) (hn : (rest.map (·.id)).Nodup) :
    ∃ d, ((Limiter.evaluateAndAcquire job rest leaseTTL).run (World.tryExec fun _ => .none) w).2 = .ok d ∧
      d.allowed = (Limiter.applicablePolicies job rest).all (w.limits.admits now job) ∧
      d.retryAt = (((Limiter.applicablePolicies job rest).filter (!w.limits.admits now job ·)).map
        (w.limits.retryAt now leaseTTL)).foldl Limiter.maxTime .zero := by
  have hm : ((Limiter.applicablePolicies job rest).map (·.id)).Nodup := hn.sublist (List.filter_sublist.map _)
  obtain ⟨w', d, -, hr⟩ := @Unwinding.acquireAll_run (w.limits.admits now job) (fun _ => .none)
    { w with calls := w.calls + 1 } Admissions.unlimited job leaseTTL now (Limiter.applicablePolicies job rest)
    (w.limits.retryAt now leaseTTL) hc hm (fun _ _ => rfl) fun _ _ => rfl
  rw [Unwinding.failing_none] at hr
  obtain ⟨hr, -, ha, ht⟩ := hr
  refine ⟨d, ?_, ha, ht⟩
  rw [Limiter.evaluateAndAcquire_run hc, Limiter.evaluateAt, Prog.run_bind, hr]
  dsimp only
  split
  case isTrue  => rfl
  case isFalse => rw [Prog.run_bind]; rfl

-- A job that is denied, and that had no entry, leaves all that counts as it was.
theorem denied_run {d : Decision} (hw : Timely policies leaseTTL now w) (hp : rest ⊆ policies)
    (hn : (rest.map (·.id)).Nodup)
    (hf : ∀ q ∈ Limiter.applicablePolicies job rest, w.limits.unexpired now q (Limits.entry job q) = none)
    (hd : ((Limiter.evaluateAndAcquire job rest leaseTTL).run (World.tryExec fun _ => .none) w).2 = .ok d)
    (ha : d.allowed = false) : ∀ q ∈ Limiter.applicablePolicies job rest,
      ((Limiter.evaluateAndAcquire job rest leaseTTL).run (World.tryExec fun _ => .none) w).1.limits.unexpired now q =
        w.limits.unexpired now q := by
  have ⟨d', hd', hall, _⟩ := evaluate_run job leaseTTL hw.clock hn
  obtain rfl : d = d' := Except.ok.inj (hd.symm.trans hd')
  have hu : Limiter.Unwinds w.limits now job leaseTTL (fun _ => .none) (w.calls + 1)
      (Limiter.applicablePolicies job rest) := by
    rw [Limiter.Unwinds, Unwinding.failing_none]
    dsimp only
    rw [if_neg (by simp [← hall, ha])]
    intro q hq
    have hm := Unwinding.taken_sublist.subset hq
    have ht : q ∈ Unwinding.freed (fun _ => .none) (w.calls + 1 + (Limiter.applicablePolicies job rest).length)
        (Unwinding.undoing (Unwinding.taken (w.limits.admits now job) (fun _ => .none) (w.calls + 1)
          (Limiter.applicablePolicies job rest))) :=
      Unwinding.freed_none.symm ▸ Unwinding.mem_undoing.mpr hq
    refine (Limiter.restored_congr (iff_true_intro ht)).mpr ?_
    unfold Limiter.Restored
    split
    case isTrue    => exact hf q hm
    case isFalse h =>
      refine fun m => Option.eq_none_iff_forall_ne_some.mpr fun s hs => ?_
      have hl := Limits.lt_due hs
      rw [Limits.unexpired_eq] at hs
      have hr := (hw.limits q (hp (List.mem_of_mem_filter hm))).due m s (ExpiringSet.counted_score hs)
      omega
  intro q hq
  have hq' := List.mem_of_mem_filter hq
  have hr : Limiter.AllOrNothing w.limits now job leaseTTL rest _ _ :=
    (Limiter.run_allOrNothing_iff hw.clock hn).mpr hu
  have hr := hr q fun p hp hi => List.inj_on_of_nodup_map hn hp hq' hi
  rwa [hd, if_neg (by simp [Except.toOption, ha])] at hr

-- The latest of some times after the zero time.
theorem foldl_maxTime_le {ts : List Time} {t t' : Time} (ht : .zero ≤ t) (hs : ∀ x ∈ ts, Time.zero ≤ x) :
    ts.foldl Limiter.maxTime t ≤ t' ↔ t ≤ t' ∧ ∀ x ∈ ts, x ≤ t' := by
  induction ts generalizing t
  case nil          => simp
  case cons x ts hi =>
    have ⟨hx, hs⟩ := List.forall_mem_cons.mp hs
    have hm : Limiter.maxTime t x = max t x := by
      unfold Limiter.maxTime
      split
      case isTrue h  => exact (max_eq_right (h.elim (fun h => h ▸ hx) le_of_lt)).symm
      case isFalse h => exact (max_eq_left (not_lt.mp fun hl => h (.inr hl))).symm
    rw [List.foldl_cons, hm, hi (ht.trans (le_max_left ..)) hs, max_le_iff, List.forall_mem_cons, and_assoc]

-- If each policy admits the job at once or from its own time on, then all of them do from the latest time on.
theorem all_later_iff {ps : List RateLimitPolicy} {now later : RateLimitPolicy → Bool} {times : RateLimitPolicy → Time}
    {t : Time} (ht : .zero ≤ t) (hz : ∀ q ∈ ps, ¬now q = true → Time.zero ≤ times q)
    (hi : ∀ q ∈ ps, later q = true ↔ now q = true ∨ times q ≤ t) :
    ps.all later = true ↔ ((ps.filter (!now ·)).map times).foldl Limiter.maxTime .zero ≤ t := by
  have hz (x) (hx : x ∈ (ps.filter (!now ·)).map times) : Time.zero ≤ x := by
    have ⟨q, hm, he⟩ := List.mem_map.mp hx
    have ⟨hm, hna⟩ := List.mem_filter.mp hm
    exact he ▸ hz q hm (by simpa using hna)
  rw [foldl_maxTime_le le_rfl hz, and_iff_right ht, List.all_eq_true]
  constructor
  case mp  =>
    intro h x hx
    have ⟨q, hq, he⟩ := List.mem_map.mp hx
    have ⟨hq, hna⟩ := List.mem_filter.mp hq
    have hna : ¬now q = true := by simpa using hna
    exact he ▸ ((hi q hq).mp (h q hq)).resolve_left hna
  case mpr =>
    intro h q hq
    refine (hi q hq).mpr ?_
    by_cases hna : now q = true
    case pos => exact .inl hna
    case neg => exact .inr <| h _ <| List.mem_map_of_mem <| List.mem_filter.mpr ⟨hq, by simp [hna]⟩

-- A job is evaluated, and no call fails.
def evaluation (job : Job) (policies : List RateLimitPolicy) (leaseTTL : Duration) (now : Time) : LimiterEvent where
  now      := now
  op       := .evaluateAndAcquire job policies leaseTTL
  faults _ := .none

-- The time that a denied job is told is exactly the one from which on it is allowed.
theorem retryAt_exact {start t t' : Time} {d : Decision} (hn : (policies.map (·.id)).Nodup)
    (hl : ∀ q ∈ policies, 1 ≤ q.limit) (hz : .zero ≤ start) (hw : w.limits = .empty)
    (hg : Run.Guarded step (fun s e => Regular s e ∧ Fixed policies e ∧ Leased leaseTTL e) (Usage.start start w) es)
    (hp : rest ⊆ policies) (hr : (rest.map (·.id)).Nodup) :
    let s := Run.last step (Usage.start start w) es
    let s₁ := step s (evaluation job rest leaseTTL t)
    let s₂ := step s₁ (evaluation job rest leaseTTL t')
    s.time ≤ t →
    (∀ q ∈ Limiter.applicablePolicies job rest, s.world.limits.unexpired t q (Limits.entry job q) = none) →
    s₁.decisions = s.decisions ++ [.ok d] → d.allowed = false → t ≤ t' →
    ∃ d', s₂.decisions = s₁.decisions ++ [.ok d'] ∧ (d'.allowed = true ↔ d.retryAt ≤ t') := by
  intro s s₁ s₂ hst hf hd ha ht
  have hl₀ (q) (hq : q ∈ policies) : 0 ≤ q.limit := Int.le_of_lt (hl q hq)
  have ⟨hs, hs₀⟩ : s.world.limits.Timely policies leaseTTL s.time ∧ start ≤ s.time := timely_of_run hn hl₀ hw hg
  have hs₁ : s₁.world.limits.Timely policies leaseTTL t :=
    timely_step (e := evaluation job rest leaseTTL t) hn hl₀ hs ⟨hst, hp, fun _ h => by cases h; rfl⟩
  have hw₀ : Timely policies leaseTTL t (s.worldAt t) := ⟨rfl, hs.wait hst⟩
  have hd : ((Limiter.evaluateAndAcquire job rest leaseTTL).run (World.tryExec fun _ => .none) (s.worldAt t)).2 = .ok d :=
    List.singleton_injective (List.append_cancel_left hd)
  have hv := denied_run hw₀ hp hr hf hd ha
  have ⟨d₁, hd₁, _, ht₁⟩ := @evaluate_run _ _ (s.worldAt t) job leaseTTL rfl hr
  obtain rfl : d = d₁ := Except.ok.inj (hd.symm.trans hd₁)
  have ⟨d', hd', ha', _⟩ := @evaluate_run _ _ (s₁.worldAt t') job leaseTTL rfl hr
  refine ⟨d', congrArg (s₁.decisions ++ [·]) hd', ?_⟩
  have hq {q : RateLimitPolicy} (hq : q ∈ Limiter.applicablePolicies job rest) : q ∈ policies :=
    hp (List.mem_of_mem_filter hq)
  have hz : .zero ≤ t := hz.trans (hs₀.trans hst)
  rw [ha', ht₁]
  refine all_later_iff (hz.trans ht) (fun q hm hna => ?_) fun q hm =>
    Limits.admits_later_iff (hv q hm) (hs₁ q (hq hm)) (hf q hm) (hl q (hq hm)) ht
  have hlt : t < s.world.limits.retryAt t leaseTTL q := Limits.lt_retryAt (hf q hm) (hl q (hq hm)) hna
  exact hz.trans hlt.le

end

namespace Sample

-- A job needs a slot, and there is one job per minute.
def both : List RateLimitPolicy :=
  [{ Admissions.Sample.policy with id := "slots", mode := .concurrency }, { Admissions.Sample.policy with limit := 1 }]

def job (id : JobID) : Job :=
  { buildJob 0 (.plain "email.send") id with attempts := 1 }

-- The slot is given back, and the rate decides.
def denied : Decision where
  allowed     := false
  retryAt     := .ofUnixMilli 1700000061000
  reasons     := [Limiter.buildReason { Admissions.Sample.policy with limit := 1 } (.ofUnixMilli 1700000061000)]
  activeRate  := []
  activeSlots := [({ Admissions.Sample.policy with id := "slots", mode := .concurrency }, "job-2")]

def leaseTTL : Duration :=
  30 * .second

def used : Usage :=
  Run.last step begin [evaluation (job "job-1") both leaseTTL (.ofUnixMilli 1700000001000)]

end Sample

theorem retryAt_exact_sample : ∃ d', (step (step Sample.used
      (evaluation (Sample.job "job-2") Sample.both Sample.leaseTTL (.ofUnixMilli 1700000002000)))
        (evaluation (Sample.job "job-2") Sample.both Sample.leaseTTL (.ofUnixMilli 1700000061000))).decisions =
      (step Sample.used (evaluation (Sample.job "job-2") Sample.both Sample.leaseTTL
        (.ofUnixMilli 1700000002000))).decisions ++ [.ok d'] ∧
    (d'.allowed = true ↔ Sample.denied.retryAt ≤ .ofUnixMilli 1700000061000) := by
  have hg : Run.Guarded step (fun s e => Regular s e ∧ Fixed Sample.both e ∧ Leased Sample.leaseTTL e) Sample.begin
      [evaluation (Sample.job "job-1") Sample.both Sample.leaseTTL (.ofUnixMilli 1700000001000)] := by decide +kernel
  exact retryAt_exact (by decide) (by decide) (by decide) rfl hg (List.Subset.refl _) (by decide) (by decide +kernel)
    (by decide +kernel) (by decide +kernel) rfl (by decide)

end Usage
end JobPlatform
