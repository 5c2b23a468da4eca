import JobPlatform.Limits.Admission

namespace JobPlatform

namespace ExpiringSet

variable {s : ExpiringSet} {m : String} {clock bound score ttl : Int}

-- The members with their scores that have not expired.
def view (s : ExpiringSet) (clock bound : Int) : String → Option Int :=
  ((s.live clock).removeRangeByScore bound).score?

theorem view_apply : s.view clock bound m = ((s.live clock).score? m).filter (bound < ·) :=
  SortedSet.score?_removeRangeByScore

theorem live_expire {members : SortedSet String Int} :
    (expire members clock ttl).live clock = if 0 < ttl then members else ∅ := by
  unfold expire live
  split
  case isTrue h  => rw [if_neg (Int.not_lt.mpr h)]; rfl
  case isFalse h => simp [Int.not_le.mp h]

-- An entry is added to what has not expired.
theorem view_expire_add (h : 0 < ttl → bound < score) :
    (expire (((s.live clock).removeRangeByScore bound).add m score) clock ttl).view clock bound =
      if 0 < ttl then Function.update (s.view clock bound) m (some score) else fun _ => none := by
  funext x
  rw [view_apply, live_expire]
  split
  case isFalse ht => rfl
  case isTrue ht  =>
    rw [SortedSet.score?_add, Function.update_apply]
    split
    case isTrue hx => simp [h ht]
    case isFalse hx =>
      rw [SortedSet.score?_removeRangeByScore, view_apply]
      simp

theorem live_purged : { s with members := (s.live clock).removeRangeByScore bound : ExpiringSet }.live clock =
    (s.live clock).removeRangeByScore bound := by
  unfold live
  split
  case isTrue  => rfl
  case isFalse => rfl

theorem view_purged :
    { s with members := (s.live clock).removeRangeByScore bound : ExpiringSet }.view clock bound =
      s.view clock bound := by
  funext x
  rw [view_apply, live_purged, SortedSet.score?_removeRangeByScore, view_apply]
  simp

theorem view_release :
    (Limits.releaseLua m clock s).view clock bound = Function.update (s.view clock bound) m none := by
  funext x
  have hl : (Limits.releaseLua m clock s).live clock = (s.live clock).remove m := by
    unfold Limits.releaseLua live
    split
    case isTrue h  => rfl
    case isFalse h => rfl
  rw [view_apply, hl, SortedSet.score?_remove, Function.update_apply]
  split
  case isTrue  => rfl
  case isFalse => rw [view_apply]

end ExpiringSet

namespace Limits

-- What counts under the policy at the given time.
def unexpired (l : Limits) (now : Time) (q : RateLimitPolicy) : String → Option Int :=
  match q.mode with
  | .rate        => (l.rate q.id).view now.unixMilli (now.unixMilli - windowMillis q)
  | .concurrency => (l.concurrency q.id).view now.unixMilli now.unixMilli

-- The entry which the limiter makes for a job, its score, and the lifetime of its key.
def entry (job : Job) (q : RateLimitPolicy) : String :=
  match q.mode with
  | .rate        => Limiter.rateMember job
  | .concurrency => job.id

def score (leaseTTL : Duration) (now : Time) (q : RateLimitPolicy) : Int :=
  match q.mode with
  | .rate        => now.unixMilli
  | .concurrency => now.unixMilli + leaseTTL.milliseconds

def lifetime (leaseTTL : Duration) (q : RateLimitPolicy) : Int :=
  match q.mode with
  | .rate        => windowMillis q
  | .concurrency => leaseTTL.milliseconds

-- The policy has room for the job, or the job holds one of its slots.
def admits (l : Limits) (now : Time) (job : Job) (q : RateLimitPolicy) : Bool :=
  match q.mode with
  | .rate        =>
    ((l.rate q.id).live now.unixMilli |>.removeRangeByScore (now.unixMilli - windowMillis q)).card < q.limit
  | .concurrency =>
    let members := ((l.concurrency q.id).live now.unixMilli).removeRangeByScore now.unixMilli
    (members.score? job.id).isSome || members.card < q.limit

-- The time at which the first of the entries that count is gone.
def retryAt (l : Limits) (now : Time) (leaseTTL : Duration) (q : RateLimitPolicy) : Time :=
  match q.mode with
  | .rate        =>
    let members := ((l.rate q.id).live now.unixMilli).removeRangeByScore (now.unixMilli - windowMillis q)
    .ofUnixMilli (members.first?.elim now.unixMilli (·.2) + windowMillis q)
  | .concurrency =>
    let members := ((l.concurrency q.id).live now.unixMilli).removeRangeByScore now.unixMilli
    .ofUnixMilli (members.first?.elim (now.unixMilli + leaseTTL.milliseconds) (·.2))

-- What counts when the policy has admitted the job.
def held (l : Limits) (now : Time) (job : Job) (leaseTTL : Duration) (q : RateLimitPolicy) :
    String → Option Int :=
  if 0 < lifetime leaseTTL q then
    Function.update (l.unexpired now q) (entry job q) (some (score leaseTTL now q))
  else
    fun _ => none

variable {l l' : Limits} {now : Time} {job : Job} {leaseTTL : Duration} {q r : RateLimitPolicy} {id : String}

-- The keys of the other policies stay as they are.
def Spares (id : String) (l l' : Limits) : Prop :=
  ∀ id' ≠ id, l'.rate id' = l.rate id' ∧ l'.concurrency id' = l.concurrency id'

namespace Spares

theorem unexpired (h : Spares id l l') (hr : r.id ≠ id) : l'.unexpired now r = l.unexpired now r := by
  unfold Limits.unexpired
  rw [(h r.id hr).left, (h r.id hr).right]

theorem admits (h : Spares id l l') (hr : r.id ≠ id) : l'.admits now job r = l.admits now job r := by
  unfold Limits.admits
  rw [(h r.id hr).left, (h r.id hr).right]

theorem retryAt (h : Spares id l l') (hr : r.id ≠ id) : l'.retryAt now leaseTTL r = l.retryAt now leaseTTL r := by
  unfold Limits.retryAt
  rw [(h r.id hr).left, (h r.id hr).right]

theorem held (h : Spares id l l') (hr : r.id ≠ id) : l'.held now job leaseTTL r = l.held now job leaseTTL r := by
  unfold Limits.held
  rw [h.unexpired hr]

end Spares

-- The job is admitted if the policy admits it, and otherwise nothing that counts changes.
structure Acquires (now : Time) (job : Job) (leaseTTL : Duration) (q : RateLimitPolicy) (l l' : Limits) :
    Prop where
  own    : l'.unexpired now q = if l.admits now job q then l.held now job leaseTTL q else l.unexpired now q
  others : Spares q.id l l'

theorem exec_acquireRate (hm : q.mode = .rate) :
    let x := l.exec now (.acquireRate q (Limiter.rateMember job) now)
    Acquires now job leaseTTL q l x.1 ∧ x.2.1 = l.admits now job q ∧
      (x.2.1 = false → x.2.2 = l.retryAt now leaseTTL q) := by
  dsimp only [exec, acquireRateLua]
  have ho {s : ExpiringSet} : Spares q.id l { l with rate := Function.update l.rate q.id s } :=
    fun id' hi => ⟨Function.update_of_ne hi _ _, rfl⟩
  split
  case isTrue h  =>
    have ha : l.admits now job q = true := by simpa [admits, hm] using h
    refine ⟨⟨?_, ho⟩, ha.symm, fun hf => nomatch hf⟩
    have hv := @ExpiringSet.view_expire_add (l.rate q.id) (Limiter.rateMember job) now.unixMilli
      (now.unixMilli - windowMillis q) now.unixMilli (windowMillis q) (by omega)
    simpa [ha, held, unexpired, hm, lifetime, entry, score] using hv
  case isFalse h =>
    have ha : l.admits now job q = false := by simpa [admits, hm] using h
    refine ⟨⟨?_, ho⟩, ha.symm, fun _ => by rw [retryAt, hm]⟩
    simpa [ha, unexpired, hm] using ExpiringSet.view_purged

theorem exec_acquireConcurrency (hm : q.mode = .concurrency) :
    let x := l.exec now (.acquireConcurrency q job.id now leaseTTL)
    Acquires now job leaseTTL q l x.1 ∧ x.2.1 = l.admits now job q ∧
      (x.2.1 = false → x.2.2 = l.retryAt now leaseTTL q) := by
  dsimp only [exec, acquireConcurrencyLua]
  have ho {s : ExpiringSet} : Spares q.id l { l with concurrency := Function.update l.concurrency q.id s } :=
    fun id' hi => ⟨rfl, Function.update_of_ne hi _ _⟩
  split
  case isTrue h  =>
    have ha : l.admits now job q = true := by simpa [admits, hm] using h
    refine ⟨⟨?_, ho⟩, ha.symm, fun hf => by cases hf⟩
    have hv := @ExpiringSet.view_expire_add (l.concurrency q.id) job.id now.unixMilli now.unixMilli
      (now.unixMilli + leaseTTL.milliseconds) leaseTTL.milliseconds (by omega)
    simpa [ha, held, unexpired, hm, lifetime, entry, score] using hv
  case isFalse h =>
    have ha : l.admits now job q = false := by simpa [admits, hm] using h
    refine ⟨⟨?_, ho⟩, ha.symm, fun _ => by rw [retryAt, hm]⟩
    simpa [ha, unexpired, hm] using ExpiringSet.view_purged

structure Frees (now : Time) (job : Job) (q : RateLimitPolicy) (l l' : Limits) : Prop where
  own    : l'.unexpired now q = Function.update (l.unexpired now q) (entry job q) none
  others : Spares q.id l l'

theorem exec_releaseRate (hm : q.mode = .rate) :
    Frees now job q l (l.exec now (.releaseRate q.id (Limiter.rateMember job))).1 where
  own           := by simpa [exec, unexpired, hm, entry] using ExpiringSet.view_release
  others id' hi := ⟨Function.update_of_ne hi _ _, rfl⟩

theorem exec_releaseConcurrency (hm : q.mode = .concurrency) :
    Frees now job q l (l.exec now (.releaseConcurrency q.id job.id)).1 where
  own           := by simpa [exec, unexpired, hm, entry] using ExpiringSet.view_release
  others id' hi := ⟨rfl, Function.update_of_ne hi _ _⟩

end Limits

-- What a call of `evaluateAndAcquire` does, where its calls to the limiter are numbered.
namespace Unwinding

variable (admits : RateLimitPolicy → Bool) (faults : Nat → Fault)

-- The policies that have admitted the job before a call has failed.
def taken : Nat → List RateLimitPolicy → List RateLimitPolicy
  | _, []      => []
  | i, q :: qs =>
    if faults i = .none then
      if admits q then q :: taken (i + 1) qs else taken (i + 1) qs
    else
      []

-- The first call that fails.
def failing : Nat → List RateLimitPolicy → Option (Nat × RateLimitPolicy)
  | _, []      => none
  | i, q :: qs => if faults i = .none then failing (i + 1) qs else some (i, q)

-- The policy that has admitted the job although the call has failed.
def lost (i : Nat) (qs : List RateLimitPolicy) : List RateLimitPolicy :=
  match failing faults i qs with
  | none        => []
  | some (k, q) => if faults k = .lost ∧ admits q then [q] else []

-- The rollback goes over the entries of the first kind before those of the second.
def undoing (qs : List RateLimitPolicy) : List RateLimitPolicy :=
  qs.filter (·.mode = .rate) ++ qs.filter (·.mode = .concurrency)

-- The policies whose release is not refused.
def freed : Nat → List RateLimitPolicy → List RateLimitPolicy
  | _, []      => []
  | i, q :: qs => if faults i = .refused then freed (i + 1) qs else q :: freed (i + 1) qs

variable {admits : RateLimitPolicy → Bool} {faults : Nat → Fault} {i : Nat} {q : RateLimitPolicy}
         {qs qs' : List RateLimitPolicy}

theorem taken_sublist : (taken admits faults i qs).Sublist qs := by
  induction qs generalizing i
  case nil          => exact .slnil
  case cons q qs hi =>
    unfold taken
    split
    case isFalse => exact List.nil_sublist _
    case isTrue  =>
      split
      case isTrue  => exact hi.cons_cons q
      case isFalse => exact hi.cons q

theorem failing_mem {k : Nat} (h : failing faults i qs = some (k, q)) : q ∈ qs ∧ faults k ≠ .none := by
  induction qs generalizing i
  case nil          => cases h
  case cons p qs hi =>
    unfold failing at h
    split at h
    case isTrue     => exact ⟨List.mem_cons_of_mem _ (hi h).left, (hi h).right⟩
    case isFalse hf =>
      cases h
      exact ⟨List.mem_cons_self, hf⟩

theorem mem_lost : q ∈ lost admits faults i qs ↔
    ∃ k, failing faults i qs = some (k, q) ∧ faults k = .lost ∧ admits q := by
  unfold lost
  split
  case h_1 hf     => simp [hf]
  case h_2 k p hf =>
    rw [hf]
    constructor
    case mp  =>
      intro hq
      split at hq
      case isFalse  => cases hq
      case isTrue h =>
        obtain rfl := List.mem_singleton.mp hq
        exact ⟨k, rfl, h⟩
    case mpr =>
      rintro ⟨k', hk, h⟩
      cases hk
      rw [if_pos h]
      exact List.mem_singleton_self q

theorem not_taken_of_lost (hn : qs.Nodup) (hq : q ∈ lost admits faults i qs) :
    q ∉ taken admits faults i qs := by
  induction qs generalizing i
  case nil          => exact List.not_mem_nil
  case cons p qs hi =>
    have ⟨hp, hn⟩ := List.nodup_cons.mp hn
    unfold taken
    split
    case isFalse    => exact List.not_mem_nil
    case isTrue hf  =>
      have hq : q ∈ lost admits faults (i + 1) qs := by simpa [lost, failing, hf] using hq
      have ⟨k, hk, _⟩ := mem_lost.mp hq
      have hne : q ≠ p := fun he => hp (he ▸ (failing_mem hk).left)
      split
      case isFalse => exact hi hn hq
      case isTrue  => exact List.not_mem_cons_of_ne_of_not_mem hne (hi hn hq)

theorem taken_of_all (hf : failing faults i qs = none) (ha : qs.all admits) : taken admits faults i qs = qs := by
  induction qs generalizing i
  case nil          => rfl
  case cons q qs hi =>
    have ⟨hq, ha⟩ := Bool.and_eq_true_iff.mp ha
    unfold failing at hf
    split at hf
    case isFalse   => cases hf
    case isTrue hn => rw [taken, if_pos hn, if_pos hq, hi hf ha]

theorem freed_sublist : (freed faults i qs).Sublist qs := by
  induction qs generalizing i
  case nil          => exact .slnil
  case cons q qs hi =>
    unfold freed
    split
    case isTrue  => exact hi.cons q
    case isFalse => exact hi.cons_cons q

theorem freed_append : freed faults i (qs ++ qs') = freed faults i qs ++ freed faults (i + qs.length) qs' := by
  induction qs generalizing i
  case nil          => simp [freed]
  case cons q qs hi =>
    rw [List.cons_append, freed, freed, hi, List.length_cons, Nat.add_assoc, Nat.add_comm 1]
    split <;> simp

theorem failing_none : failing (fun _ => .none) i qs = none := by
  induction qs generalizing i
  case nil          => rfl
  case cons q qs hi => rw [failing, if_pos rfl, hi]

theorem freed_none : freed (fun _ => .none) i qs = qs := by
  induction qs generalizing i
  case nil          => rfl
  case cons q qs hi => rw [freed, if_neg Fault.noConfusion, hi]

theorem mem_undoing : q ∈ undoing qs ↔ q ∈ qs := by
  unfold undoing
  cases hm : q.mode <;> simp [hm]

section

variable {w : World} {d : Decision} {job : Job} {leaseTTL : Duration} {now : Time} {rest : List RateLimitPolicy}

def hold (job : Job) (q : RateLimitPolicy) (d : Decision) : Decision :=
  match q.mode with
  | .rate        => { d with activeRate := d.activeRate ++ [(q, Limiter.rateMember job)] }
  | .concurrency => { d with activeSlots := d.activeSlots ++ [(q, job.id)] }

theorem run_failed {e : Error} :
    ((Limiter.rollback d).bind fun _ => .ret (.error e : Except Error Decision)).run (World.tryExec faults) w =
      (((Limiter.rollback d).run (World.tryExec faults) w).1, .error e) :=
  Prog.run_bind _ _

-- The loop after the call for its first policy.
theorem acquireAll_cons (hc : w.clock = .constant now) :
    ∃ l, Limits.Acquires now job leaseTTL q w.limits l ∧
      (Limiter.acquireAll job leaseTTL now (q :: rest) d).run (World.tryExec faults) w =
        match faults w.calls with
        | .none    =>
          (Limiter.acquireAll job leaseTTL now rest
            (if w.limits.admits now job q then hold job q d
              else Limiter.deny d q (w.limits.retryAt now leaseTTL q))).run
            (World.tryExec faults) { w with calls := w.calls + 1, limits := l }
        | .lost    =>
          (((Limiter.rollback d).run (World.tryExec faults) { w with calls := w.calls + 1, limits := l }).1,
            .error .unavailable)
        | .refused =>
          (((Limiter.rollback d).run (World.tryExec faults) { w with calls := w.calls + 1 }).1,
            .error .unavailable) := by
  have hn : w.now = now := Admissions.now_eq hc
  cases hm : q.mode
  case rate        =>
    have ⟨ha, hb, ht⟩ := @Limits.exec_acquireRate w.limits now job leaseTTL q hm
    rw [Admissions.acquireAll_rate hm, Prog.run_call, World.tryExec]
    simp only [Call.failure?, World.exec_limiter, hn, hold, hm]
    generalize w.limits.exec now (.acquireRate q (Limiter.rateMember job) now) = x at ha hb ht
    obtain ⟨l, allowed, retryAt⟩ := x
    refine ⟨l, ha, ?_⟩
    cases faults w.calls
    case refused => exact run_failed
    case lost    => exact run_failed
    case none    =>
      dsimp only at hb ht ⊢
      rw [← hb]
      cases allowed
      case true  => rfl
      case false => rw [← ht rfl]; rfl
  case concurrency =>
    have ⟨ha, hb, ht⟩ := @Limits.exec_acquireConcurrency w.limits now job leaseTTL q hm
    rw [Admissions.acquireAll_concurrency hm, Prog.run_call, World.tryExec]
    simp only [Call.failure?, World.exec_limiter, hn, hold, hm]
    generalize w.limits.exec now (.acquireConcurrency q job.id now leaseTTL) = x at ha hb ht
    obtain ⟨l, allowed, retryAt⟩ := x
    refine ⟨l, ha, ?_⟩
    cases faults w.calls
    case refused => exact run_failed
    case lost    => exact run_failed
    case none    =>
      dsimp only at hb ht ⊢
      rw [← hb]
      cases allowed
      case true  => rfl
      case false => rw [← ht rfl]; rfl

-- The entries and the decision when the loop has ended, before anything is taken back.
structure Acquired (admits : RateLimitPolicy → Bool) (faults : Nat → Fault) (job : Job) (leaseTTL : Duration)
    (now : Time) (qs : List RateLimitPolicy) (d d' : Decision) (w w' : World) : Prop where
  clock : w'.clock = w.clock
  rates : d'.activeRate = d.activeRate ++
    ((taken admits faults w.calls qs).filter (·.mode = .rate)).map (·, Limiter.rateMember job)
  slots : d'.activeSlots = d.activeSlots ++
    ((taken admits faults w.calls qs).filter (·.mode = .concurrency)).map (·, job.id)
  views : ∀ r, (∀ p ∈ qs, p.id = r.id → p = r) → w'.limits.unexpired now r =
    if r ∈ taken admits faults w.calls qs ++ lost admits faults w.calls qs then
      w.limits.held now job leaseTTL r
    else
      w.limits.unexpired now r

namespace Acquired

theorem refuse (hf : faults w.calls = .refused) :
    Acquired admits faults job leaseTTL now (q :: rest) d d w { w with calls := w.calls + 1 } where
  clock     := rfl
  rates     := by simp [taken, hf]
  slots     := by simp [taken, hf]
  views _ _ := by simp [taken, lost, failing, hf]

variable {l : Limits} {retryAt : Time} {d' : Decision} {w' : World}

theorem lose (hf : faults w.calls = .lost) (ha : Limits.Acquires now job leaseTTL q w.limits l)
    (hq : w.limits.admits now job q = admits q) :
    Acquired admits faults job leaseTTL now (q :: rest) d d w { w with calls := w.calls + 1, limits := l } where
  clock      := rfl
  rates      := by simp [taken, hf]
  slots      := by simp [taken, hf]
  views r hr := by
    have hl : lost admits faults w.calls (q :: rest) = if admits q then [q] else [] := by simp [lost, failing, hf]
    have ht : taken admits faults w.calls (q :: rest) = [] := by simp [taken, hf]
    rw [hl, ht, List.nil_append]
    by_cases he : r = q
    case pos =>
      subst he
      rw [ha.own, hq]
      cases admits r <;> simp
    case neg =>
      have hi : r.id ≠ q.id := fun hi => he (hr q List.mem_cons_self hi.symm).symm
      rw [ha.others.unexpired hi]
      cases admits q <;> simp [he]

theorem lost_cons (hf : faults i = .none) :
    lost admits faults i (q :: rest) = lost admits faults (i + 1) rest := by
  simp [lost, failing, hf]

theorem not_mem (h : q ∉ rest) : q ∉ taken admits faults i rest ++ lost admits faults i rest := by
  intro hq
  cases List.mem_append.mp hq
  case inl hq => exact h (taken_sublist.subset hq)
  case inr hq =>
    obtain ⟨k, hk, -⟩ := mem_lost.mp hq
    exact h (failing_mem hk).left

theorem views_cons (hf : faults w.calls = .none) (ha : Limits.Acquires now job leaseTTL q w.limits l)
    (hq : w.limits.admits now job q = admits q) (hn : q ∉ rest)
    (h : Acquired admits faults job leaseTTL now rest d d' { w with calls := w.calls + 1, limits := l } w')
    {r : RateLimitPolicy} (hr : ∀ p ∈ q :: rest, p.id = r.id → p = r) :
    w'.limits.unexpired now r =
      if r ∈ taken admits faults w.calls (q :: rest) ++ lost admits faults w.calls (q :: rest) then
        w.limits.held now job leaseTTL r
      else
        w.limits.unexpired now r := by
  rw [h.views r fun p hp => hr p (List.mem_cons_of_mem _ hp), lost_cons hf, taken, if_pos hf]
  by_cases he : r = q
  case pos =>
    subst he
    rw [if_neg (not_mem hn), ha.own, hq]
    cases admits r
    case false => simp [not_mem hn]
    case true  => simp
  case neg =>
    have hi : r.id ≠ q.id := fun hi => he (hr q List.mem_cons_self hi.symm).symm
    rw [ha.others.unexpired hi, ha.others.held hi]
    cases admits q <;> simp [he]

theorem accept (hf : faults w.calls = .none) (ha : Limits.Acquires now job leaseTTL q w.limits l)
    (hq : w.limits.admits now job q = admits q) (hn : q ∉ rest) (hb : admits q)
    (h : Acquired admits faults job leaseTTL now rest (hold job q d) d'
      { w with calls := w.calls + 1, limits := l } w') :
    Acquired admits faults job leaseTTL now (q :: rest) d d' w w' where
  clock      := h.clock
  rates      := by
    rw [h.rates, taken, if_pos hf, if_pos hb]
    cases hm : q.mode <;> simp [hold, hm]
  slots      := by
    rw [h.slots, taken, if_pos hf, if_pos hb]
    cases hm : q.mode <;> simp [hold, hm]
  views r hr := h.views_cons hf ha hq hn hr

theorem deny (hf : faults w.calls = .none) (ha : Limits.Acquires now job leaseTTL q w.limits l)
    (hq : w.limits.admits now job q = admits q) (hn : q ∉ rest) (hb : ¬admits q)
    (h : Acquired admits faults job leaseTTL now rest (Limiter.deny d q retryAt) d'
      { w with calls := w.calls + 1, limits := l } w') :
    Acquired admits faults job leaseTTL now (q :: rest) d d' w w' where
  clock      := h.clock
  rates      := by rw [h.rates, taken, if_pos hf, if_neg hb]; rfl
  slots      := by rw [h.slots, taken, if_pos hf, if_neg hb]; rfl
  views r hr := h.views_cons hf ha hq hn hr

end Acquired

-- How the loop ends.
theorem acquireAll_run {qs : List RateLimitPolicy} {retryAt : RateLimitPolicy → Time}
    (hc : w.clock = .constant now) (hn : (qs.map (·.id)).Nodup)
    (ha : ∀ q ∈ qs, w.limits.admits now job q = admits q)
    (ht : ∀ q ∈ qs, w.limits.retryAt now leaseTTL q = retryAt q) :
    ∃ w' d', Acquired admits faults job leaseTTL now qs d d' w w' ∧
      match failing faults w.calls qs with
      | none        =>
        (Limiter.acquireAll job leaseTTL now qs d).run (World.tryExec faults) w = (w', .ok d') ∧
        w'.calls = w.calls + qs.length ∧ d'.allowed = (d.allowed && qs.all admits) ∧
        d'.retryAt = ((qs.filter (!admits ·)).map retryAt).foldl Limiter.maxTime d.retryAt
      | some (k, _) =>
        (Limiter.acquireAll job leaseTTL now qs d).run (World.tryExec faults) w =
          (((Limiter.rollback d').run (World.tryExec faults) w').1, .error .unavailable) ∧
        w'.calls = k + 1 := by
  induction qs generalizing w d
  case nil =>
    refine ⟨w, d, ?_, rfl, rfl, by simp⟩
    exact {
      clock := rfl
      rates := by simp [taken]
      slots := by simp [taken]
      views := by simp [taken, lost, failing]
    }
  case cons q rest hi =>
    obtain ⟨l, hl, hr⟩ := @acquireAll_cons faults q w d job leaseTTL now rest hc
    have ⟨hq, hn⟩ := List.nodup_cons.mp hn
    have hm : q ∉ rest := fun hm => hq (List.mem_map_of_mem hm)
    have hb := ha q List.mem_cons_self
    have hs := ht q List.mem_cons_self
    cases hf : faults w.calls <;> rw [hf] at hr
    case refused => exact ⟨_, _, .refuse hf, by simpa [failing, hf] using hr⟩
    case lost    => exact ⟨_, _, .lose hf hl hb, by simpa [failing, hf] using hr⟩
    case none    =>
      have hne (p) (hp : p ∈ rest) : p.id ≠ q.id := fun he => hq (List.mem_map.mpr ⟨p, hp, he⟩)
      have hi {d : Decision} := @hi { w with calls := w.calls + 1, limits := l } d hc hn
        (fun p hp => (hl.others.admits (hne p hp)).trans (ha p (List.mem_cons_of_mem _ hp)))
        fun p hp => (hl.others.retryAt (hne p hp)).trans (ht p (List.mem_cons_of_mem _ hp))
      have hff : failing faults w.calls (q :: rest) = failing faults (w.calls + 1) rest := by simp [failing, hf]
      rw [hff]
      dsimp only at hr
      rw [hb, hs] at hr
      cases ht : admits q <;> rw [ht] at hr
      case true  =>
        obtain ⟨w', d', h, hw⟩ := @hi (hold job q d)
        have hd : (hold job q d).allowed = d.allowed ∧ (hold job q d).retryAt = d.retryAt := by
          unfold hold
          split <;> exact ⟨rfl, rfl⟩
        refine ⟨w', d', h.accept hf hl hb hm ht, ?_⟩
        revert hw
        cases failing faults (w.calls + 1) rest
        case some => exact fun hw => ⟨hr.trans hw.left, hw.right⟩
        case none =>
          rintro ⟨hw, hk, he, hx⟩
          exact ⟨hr.trans hw, by simp [hk]; omega, by simp [he, ht, hd], by simp [hx, ht, hd]⟩
      case false =>
        obtain ⟨w', d', h, hw⟩ := @hi (Limiter.deny d q (retryAt q))
        refine ⟨w', d', h.deny hf hl hb hm (by simp [ht]), ?_⟩
        revert hw
        cases failing faults (w.calls + 1) rest
        case some => exact fun hw => ⟨hr.trans hw.left, hw.right⟩
        case none =>
          rintro ⟨hw, hk, he, hx⟩
          exact ⟨hr.trans hw, by simp [hk]; omega, by simp [he, ht, Limiter.deny], by simp [hx, ht, Limiter.deny]⟩

-- The entries after the rollback has gone over the policies.
structure Released (faults : Nat → Fault) (job : Job) (now : Time) (qs : List RateLimitPolicy) (w w' : World) :
    Prop where
  clock : w'.clock = w.clock
  calls : w'.calls = w.calls + qs.length
  views : ∀ r, (∀ p ∈ qs, p.id = r.id → p = r) → w'.limits.unexpired now r =
    if r ∈ freed faults w.calls qs then
      Function.update (w.limits.unexpired now r) (Limits.entry job r) none
    else
      w.limits.unexpired now r

namespace Released

variable {l : Limits} {w' w'' : World}

theorem nil : Released faults job now [] w w where
  clock     := rfl
  calls     := rfl
  views _ _ := by simp [freed]

theorem refuse (hf : faults w.calls = .refused)
    (h : Released faults job now rest { w with calls := w.calls + 1 } w') :
    Released faults job now (q :: rest) w w' where
  clock      := h.clock
  calls      := by rw [h.calls, List.length_cons, Nat.add_assoc, Nat.add_comm 1]
  views r hr := by
    rw [h.views r fun p hp => hr p (List.mem_cons_of_mem _ hp), freed, if_pos hf]

theorem free (hf : faults w.calls ≠ .refused) (hl : Limits.Frees now job q w.limits l)
    (h : Released faults job now rest { w with calls := w.calls + 1, limits := l } w') :
    Released faults job now (q :: rest) w w' where
  clock      := h.clock
  calls      := by rw [h.calls, List.length_cons, Nat.add_assoc, Nat.add_comm 1]
  views r hr := by
    rw [h.views r fun p hp => hr p (List.mem_cons_of_mem _ hp), freed, if_neg hf]
    by_cases he : r = q
    case pos =>
      subst he
      rw [hl.own, Function.update_idem, ite_self, if_pos List.mem_cons_self]
    case neg =>
      have hi : r.id ≠ q.id := fun hi => he (hr q List.mem_cons_self hi.symm).symm
      rw [hl.others.unexpired hi]
      simp [he]

theorem append {qs' : List RateLimitPolicy} (h : Released faults job now qs w w')
    (h' : Released faults job now qs' w' w'') : Released faults job now (qs ++ qs') w w'' where
  clock      := h'.clock.trans h.clock
  calls      := by rw [h'.calls, h.calls, List.length_append, Nat.add_assoc]
  views r hr := by
    rw [h'.views r fun p hp => hr p (List.mem_append_right _ hp),
      h.views r fun p hp => hr p (List.mem_append_left _ hp), freed_append, h.calls]
    by_cases hq : r ∈ freed faults w.calls qs
    case pos => simp [hq]
    case neg => simp [hq]

end Released

theorem releaseAll_run {call : String → String → LimiterCall} {member : String} {qs : List RateLimitPolicy}
    (hc : w.clock = .constant now)
    (hf : ∀ q ∈ qs, ∀ l : Limits, Limits.Frees now job q l (l.exec now (call q.id member)).1) :
    Released faults job now qs w
      ((Limiter.releaseAll call (qs.map (·, member))).run (World.tryExec faults) w).1 := by
  induction qs generalizing w
  case nil            => exact .nil
  case cons q rest hi =>
    have hi {w : World} (hc : w.clock = .constant now) := @hi w hc fun p hp => hf p (List.mem_cons_of_mem _ hp)
    have hl : Limits.Frees now job q w.limits (w.limits.exec w.now (call q.id member)).1 := by
      rw [Admissions.now_eq hc]
      exact hf q List.mem_cons_self w.limits
    have hr : (Limiter.releaseAll call ((q :: rest).map (·, member))).run (World.tryExec faults) w =
        (Limiter.releaseAll call (rest.map (·, member))).run (World.tryExec faults)
          (w.tryExec faults (.limiter (call q.id member))).1 := rfl
    rw [hr, World.tryExec]
    cases hw : faults w.calls
    case refused => exact .refuse hw (hi hc)
    case none    => exact .free (by simp [hw]) hl (hi hc)
    case lost    => exact .free (by simp [hw]) hl (hi hc)

theorem rollback_run {qs : List RateLimitPolicy} (hc : w.clock = .constant now)
    (hr : d.activeRate = (qs.filter (·.mode = .rate)).map (·, Limiter.rateMember job))
    (hs : d.activeSlots = (qs.filter (·.mode = .concurrency)).map (·, job.id)) :
    Released faults job now (undoing qs) w ((Limiter.rollback d).run (World.tryExec faults) w).1 := by
  have h : Released faults job now _ w _ := @releaseAll_run faults w job now .releaseRate (Limiter.rateMember job)
    (qs.filter (·.mode = .rate)) hc fun q hq l =>
      Limits.exec_releaseRate (by simpa using (List.mem_filter.mp hq).right)
  have h' := @releaseAll_run faults _ job now .releaseConcurrency job.id
    (qs.filter (·.mode = .concurrency)) (h.clock.trans hc) fun q hq l =>
      Limits.exec_releaseConcurrency (by simpa using (List.mem_filter.mp hq).right)
  rw [← hr] at h h'
  rw [← hs] at h'
  simp only [Limiter.rollback, Prog.bind_eq, Prog.run_bind]
  exact h.append h'

end

end Unwinding

namespace Limiter

open Limits Unwinding

section

variable (l : Limits) (now : Time) (job : Job) (leaseTTL : Duration) (faults : Nat → Fault)

-- The job is admitted under all of the policies that apply to it, or else nothing changes.
def AllOrNothing (policies : List RateLimitPolicy) (l' : Limits) (res : Except Error Decision) : Prop :=
  ∀ r, (∀ p ∈ policies, p.id = r.id → p = r) → l'.unexpired now r =
    if res.toOption.any (·.allowed) ∧ r ∈ applicablePolicies job policies then
      Function.update (l.unexpired now r) (entry job r) (some (score leaseTTL now r))
    else
      l.unexpired now r

-- The job had no entry, and the one it gets is released. If that is refused, it had the same entry. An
-- entry which does not live on takes all others with it, so there may not be any.
def Restored (q : RateLimitPolicy) (released : Prop) [Decidable released] : Prop :=
  if 0 < lifetime leaseTTL q then
    l.unexpired now q (entry job q) = if released then none else some (score leaseTTL now q)
  else
    ∀ m, l.unexpired now q m = none

-- Each entry that is made is kept if no call fails and all policies admit the job, and restored otherwise.
def Unwinds (i : Nat) (qs : List RateLimitPolicy) : Prop :=
  let admits := l.admits now job
  match failing faults i qs with
  | none        =>
    if qs.all admits then
      ∀ q ∈ qs, 0 < lifetime leaseTTL q
    else
      ∀ q ∈ taken admits faults i qs,
        Restored l now job leaseTTL q (q ∈ freed faults (i + qs.length) (undoing (taken admits faults i qs)))
  | some (k, _) =>
    (∀ q ∈ lost admits faults i qs, Restored l now job leaseTTL q False) ∧
    ∀ q ∈ taken admits faults i qs,
      Restored l now job leaseTTL q (q ∈ freed faults (k + 1) (undoing (taken admits faults i qs)))

variable {l : Limits} {now : Time} {job : Job} {leaseTTL : Duration} {faults : Nat → Fault} {q : RateLimitPolicy}
         {qs policies : List RateLimitPolicy} {w : World}

theorem held_eq_iff : l.held now job leaseTTL q = l.unexpired now q ↔ Restored l now job leaseTTL q False := by
  unfold held Restored
  split
  case isTrue  => rw [Function.update_eq_self_iff, if_neg not_false, eq_comm]
  case isFalse => rw [funext_iff]; exact forall_congr' fun _ => eq_comm

theorem update_held_eq_iff : Function.update (l.held now job leaseTTL q) (entry job q) none = l.unexpired now q ↔
    Restored l now job leaseTTL q True := by
  unfold held Restored
  split
  case isTrue  => rw [Function.update_idem, Function.update_eq_self_iff, if_pos trivial, eq_comm]
  case isFalse =>
    have hu : Function.update (fun _ : String => (none : Option Int)) (entry job q) none = fun _ => none :=
      Function.update_eq_self _ _
    rw [hu, funext_iff]
    exact forall_congr' fun _ => eq_comm

theorem restored_congr {p p' : Prop} [Decidable p] [Decidable p'] (h : p ↔ p') :
    Restored l now job leaseTTL q p ↔ Restored l now job leaseTTL q p' := by
  simp only [Restored, h]

section

variable {admits : RateLimitPolicy → Bool} {w' w'' : World} {d : Decision}

theorem undone_view (hq : qs.Nodup)
    (ha : Acquired admits faults job leaseTTL now qs Admissions.unlimited d w w')
    (hr : Released faults job now (undoing (taken admits faults w.calls qs)) w' w'') {r : RateLimitPolicy}
    (hp : ∀ p ∈ qs, p.id = r.id → p = r) :
    w''.limits.unexpired now r = w.limits.unexpired now r ↔
      (r ∈ lost admits faults w.calls qs → Restored w.limits now job leaseTTL r False) ∧
      (r ∈ taken admits faults w.calls qs → Restored w.limits now job leaseTTL r
        (r ∈ freed faults w'.calls (undoing (taken admits faults w.calls qs)))) := by
  have hf : r ∈ freed faults w'.calls (undoing (taken admits faults w.calls qs)) →
      r ∈ taken admits faults w.calls qs := fun h => mem_undoing.mp (freed_sublist.subset h)
  rw [hr.views r fun p hm => hp p (taken_sublist.subset <| mem_undoing.mp hm), ha.views r hp]
  by_cases hl : r ∈ lost admits faults w.calls qs
  case pos =>
    have ht := not_taken_of_lost hq hl
    rw [if_neg fun h => ht (hf h), if_pos (List.mem_append_right _ hl), held_eq_iff]
    simp [hl, ht]
  case neg =>
    by_cases ht : r ∈ taken admits faults w.calls qs
    case neg =>
      have hg : r ∉ freed faults w'.calls (undoing (taken admits faults w.calls qs)) := fun h => ht (hf h)
      simp [hl, ht, hg]
    case pos =>
      rw [if_pos (List.mem_append_left _ ht)]
      by_cases h : r ∈ freed faults w'.calls (undoing (taken admits faults w.calls qs))
      case pos =>
        rw [if_pos h, update_held_eq_iff, restored_congr (iff_true_intro h).symm]
        simp [hl, ht]
      case neg =>
        rw [if_neg h, held_eq_iff, restored_congr (iff_false_intro h).symm]
        simp [hl, ht]

-- Whether everything is restored by the rollback.
theorem undone_iff (hn : (policies.map (·.id)).Nodup) (hs : qs ⊆ policies) (hq : qs.Nodup)
    (ha : Acquired admits faults job leaseTTL now qs Admissions.unlimited d w w')
    (hr : Released faults job now (undoing (taken admits faults w.calls qs)) w' w'') :
    (∀ r, (∀ p ∈ policies, p.id = r.id → p = r) →
      w''.limits.unexpired now r = w.limits.unexpired now r) ↔
    (∀ q ∈ lost admits faults w.calls qs, Restored w.limits now job leaseTTL q False) ∧
    ∀ q ∈ taken admits faults w.calls qs, Restored w.limits now job leaseTTL q
      (q ∈ freed faults w'.calls (undoing (taken admits faults w.calls qs))) := by
  have hc {q : RateLimitPolicy} (hq : q ∈ qs) : ∀ p ∈ policies, p.id = q.id → p = q :=
    fun _ hp hi => List.inj_on_of_nodup_map hn hp (hs hq) hi
  constructor
  case mp  =>
    intro h
    refine ⟨fun q hl => ?_, fun q ht => ?_⟩
    · have ⟨k, hk, _⟩ := mem_lost.mp hl
      have hm := (failing_mem hk).left
      exact ((undone_view hq ha hr fun p hp => hc hm p (hs hp)).mp (h q (hc hm))).left hl
    · have hm := taken_sublist.subset ht
      exact ((undone_view hq ha hr fun p hp => hc hm p (hs hp)).mp (h q (hc hm))).right ht
  case mpr =>
    exact fun ⟨hl, ht⟩ r hp => (undone_view hq ha hr fun p hm => hp p (hs hm)).mpr ⟨hl r, ht r⟩

-- Whether every policy has admitted the job, and nothing else has changed.
theorem admitted_iff (hn : (policies.map (·.id)).Nodup) (hs : qs ⊆ policies)
    (hf : failing faults w.calls qs = none) (hb : qs.all admits)
    (ha : Acquired admits faults job leaseTTL now qs Admissions.unlimited d w w') :
    (∀ r, (∀ p ∈ policies, p.id = r.id → p = r) → w'.limits.unexpired now r =
      if r ∈ qs then
        Function.update (w.limits.unexpired now r) (entry job r) (some (score leaseTTL now r))
      else
        w.limits.unexpired now r) ↔
    ∀ q ∈ qs, 0 < lifetime leaseTTL q := by
  have hv {r : RateLimitPolicy} (hp : ∀ p ∈ policies, p.id = r.id → p = r) : w'.limits.unexpired now r =
      if r ∈ qs then w.limits.held now job leaseTTL r else w.limits.unexpired now r := by
    have hl : lost admits faults w.calls qs = [] := by simp [lost, hf]
    have h := ha.views r fun p hm => hp p (hs hm)
    rwa [taken_of_all hf hb, hl, List.append_nil] at h
  constructor
  case mp  =>
    intro h q hq
    have hp : ∀ p ∈ policies, p.id = q.id → p = q := fun p hp hi => List.inj_on_of_nodup_map hn hp (hs hq) hi
    have h := h q hp
    rw [hv hp, if_pos hq, if_pos hq, held] at h
    by_contra hl
    rw [if_neg hl] at h
    have h := congrFun h (entry job q)
    rw [Function.update_self] at h
    cases h
  case mpr =>
    intro h r hp
    rw [hv hp]
    split
    case isFalse   => rfl
    case isTrue hr => rw [held, if_pos (h r hr)]

end

theorem run_allOrNothing_iff (hc : w.clock = .constant now) (hn : (policies.map (·.id)).Nodup) :
    let x := (evaluateAndAcquire job policies leaseTTL).run (World.tryExec faults) w
    AllOrNothing w.limits now job leaseTTL policies x.1.limits x.2 ↔
      Unwinds w.limits now job leaseTTL faults (w.calls + 1) (applicablePolicies job policies) := by
  have hs : applicablePolicies job policies ⊆ policies := List.filter_subset_self _
  have hm : ((applicablePolicies job policies).map (·.id)).Nodup := hn.sublist (List.filter_sublist.map _)
  have hq : (applicablePolicies job policies).Nodup := List.Nodup.of_map _ hm
  have hw := Admissions.tryExec_now faults hc
  obtain ⟨w', d, ha, hr⟩ := @acquireAll_run (w.limits.admits now job) faults { w with calls := w.calls + 1 }
    Admissions.unlimited job leaseTTL now (applicablePolicies job policies) (w.limits.retryAt now leaseTTL) hc hm
    (fun _ _ => rfl) fun _ _ => rfl
  rw [Admissions.evaluateAndAcquire_eq, Prog.run_call, hw]
  dsimp only
  rw [Prog.run_bind, Unwinds]
  have hu : Released faults job now _ w' _ := rollback_run (ha.clock.trans hc) ha.rates ha.slots
  have hu' := undone_iff hn hs hq ha hu
  cases hf : failing faults (w.calls + 1) (applicablePolicies job policies) <;> rw [hf] at hr
  case some x =>
    obtain ⟨hr, hk⟩ := hr
    rw [hr]
    rw [hk] at hu'
    refine .trans ?_ hu'
    simp [AllOrNothing, Except.toOption]
  case none   =>
    obtain ⟨hr, hk, he, -⟩ := hr
    rw [hr]
    dsimp only
    cases hb : (applicablePolicies job policies).all (w.limits.admits now job) <;> rw [hb] at he
    case true  =>
      have hd : d.allowed = true := he
      rw [if_pos rfl, if_pos hd]
      refine .trans ?_ (admitted_iff hn hs hf hb ha)
      simp [AllOrNothing, Except.toOption, hd]
    case false =>
      have hd : d.allowed = false := by simpa using he
      have hl : lost (w.limits.admits now job) faults (w.calls + 1) (applicablePolicies job policies) = [] := by
        rw [lost, hf]
      rw [if_neg Bool.false_ne_true, if_neg (by simp [hd]), Prog.run_bind]
      rw [hk, hl] at hu'
      refine .trans ?_ (hu'.trans (and_iff_right fun _ h => nomatch h))
      simp [AllOrNothing, Except.toOption, hd]

-- The clock shows the same time during the call.
theorem allOrNothing_iff {policies : List RateLimitPolicy} (hn : (policies.map (·.id)).Nodup) :
    let x := (evaluateAndAcquire job policies leaseTTL).run (World.tryExec faults)
      { w with clock := .constant now }
    AllOrNothing w.limits now job leaseTTL policies x.1.limits x.2 ↔
      Unwinds w.limits now job leaseTTL faults (w.calls + 1) (applicablePolicies job policies) :=
  run_allOrNothing_iff rfl hn

end

namespace Sample

def now : Time :=
  .ofUnixMilli 1700000001000

def leaseTTL : Duration :=
  30 * .second

def job : Job :=
  { buildJob 0 (.plain "email.send") "job-1" with attempts := 1 }

def policy (id : String) (mode : RateLimitMode) (limit : Int) : RateLimitPolicy :=
  { Admissions.Sample.policy with id, mode, limit }

-- The job holds a slot which it has acquired before.
def slots : Limits :=
  { Limits.empty with
    concurrency := Function.update Limits.empty.concurrency "slots"
      { members := SortedSet.add ∅ "job-1" 1700000015000, expiresAt := some 1700000015000 }
  }

def evaluate (limits : Limits) (policies : List RateLimitPolicy) : World × Except Error Decision :=
  (evaluateAndAcquire job policies leaseTTL).run (World.tryExec fun _ => .none)
    { World.sample with clock := .constant now, limits }

end Sample

theorem allOrNothing_iff_sample :
    let x := Sample.evaluate .empty [Sample.policy "slots" .concurrency 2, Sample.policy "rate" .rate 1]
    AllOrNothing .empty Sample.now Sample.job Sample.leaseTTL
      [Sample.policy "slots" .concurrency 2, Sample.policy "rate" .rate 1] x.1.limits x.2 :=
  (allOrNothing_iff (by decide)).mpr <|
    show ∀ q ∈ [Sample.policy "slots" .concurrency 2, Sample.policy "rate" .rate 1],
      0 < Limits.lifetime Sample.leaseTTL q by decide

-- Another policy denies the job, and so it loses the slot that it had.
theorem not_allOrNothing_of_slot :
    let policies := [Sample.policy "slots" .concurrency 2, Sample.policy "rate" .rate 0]
    let x := Sample.evaluate Sample.slots policies
    (policies.map (·.id)).Nodup ∧
    ¬AllOrNothing Sample.slots Sample.now Sample.job Sample.leaseTTL policies x.1.limits x.2 := by
  refine ⟨by decide, fun h => ?_⟩
  have h := congrFun (h (Sample.policy "slots" .concurrency 2) (by decide)) "job-1"
  revert h
  decide +kernel

end Limiter
end JobPlatform
