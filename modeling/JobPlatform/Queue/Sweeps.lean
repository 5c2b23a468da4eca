import JobPlatform.Library.Rank
import JobPlatform.Queue.Calendar

namespace JobPlatform

namespace Redis

-- What is in the set afterwards has been there before, or has a score of more than `s`.
def Later (z : ZSetKey) (s : Score) (r r' : Redis) : Prop :=
  ∀ i s', (r'.zsets z).score? i = some s' → (r.zsets z).score? i = some s' ∨ s < s'

-- The job is in the set, and will be taken out of there.
structure Awaits (r : Redis) (z : ZSetKey) (j : JobID) (s : Score) : Prop where
  seat  : r.Seat j (some (.zset z))
  score : (r.zsets z).score? j = some s

variable {r r₁ r₂ r' : Redis} {y z : ZSetKey} {i j : JobID} {s s' : Score} {f : JobHash → JobHash} {k : ListKey}
         {ids : List JobID}

namespace Later

theorem of_zsets (h : r'.zsets z = r.zsets z) : Later z s r r' :=
  fun _ _ hs => .inl (h ▸ hs)

theorem refl : Later z s r r :=
  of_zsets rfl

theorem trans (h₁ : Later z s r₁ r₂) (h₂ : Later z s r₂ r') : Later z s r₁ r' :=
  fun i s' hs => (h₂ i s' hs).elim (h₁ i s') .inr

theorem zrem : Later z s r (r.zrem y i) := by
  intro j s' hs
  rw [zrem_score?] at hs
  split at hs
  case isTrue  => cases hs
  case isFalse => exact .inl hs

theorem zadd (h : y = z → s < s') : Later z s r (r.zadd y i s') := by
  intro j s'' hs
  rw [zadd_score?] at hs
  split at hs
  case isTrue he =>
    cases hs
    exact .inr (h he.left.symm)
  case isFalse   => exact .inl hs

theorem hset : Later z s r (r.hset i f) :=
  .of_zsets rfl

theorem lset : Later z s r (r.lset k ids) :=
  .of_zsets rfl

-- Nobody gets ahead of the job.
theorem ahead (h : Later z s r r') (hi : (r'.zsets z).Ahead j s i) : (r.zsets z).Ahead j s i := by
  obtain ⟨hn, s', hs, hb⟩ := hi
  refine ⟨hn, s', (h i s' hs).resolve_right fun hl => ?_, hb⟩
  exact hb.elim hl.asymm fun he => hl.ne he.left.symm

end Later

namespace Awaits

theorem of_seated (hr : r.Seated) (hs : (r.zsets z).score? j = some s) : r.Awaits z j s := by
  have ⟨o, ho⟩ := hr j
  have he := ho.only.of_score? (Option.isSome_of_eq_some hs)
  subst he
  exact ⟨ho, hs⟩

theorem of_unchanged (h : r.Awaits z j s) (hu : r.Unchanged j r') : r'.Awaits z j s where
  seat  := h.seat.of_unchanged hu
  score := (hu.score z).trans h.score

theorem hash (h : r.Awaits z j s) : ∃ x, r.jobs j = some x := by
  refine Option.ne_none_iff_exists'.mp fun hj => ?_
  cases h.seat.known hj

theorem unready {q : QueueName} {n : Int} (h : r.Awaits z j s) : j ∉ r.lists (.ready q n) := by
  have ho := h.seat.only (.list (.ready q n)) trivial
  simpa [occurrences, List.count_eq_zero] using ho

-- The job is in no other set.
theorem score?_eq_none (h : r.Awaits z j s) (hy : y ≠ z) : (r.zsets y).score? j = none := by
  have ho := h.seat.only (.zset y) trivial
  simpa [occurrences, Ne.symm hy] using ho

theorem token (h : r.Awaits .delayed j s) {x : JobHash} (hj : r.jobs j = some x) : x.leaseToken = "" :=
  (h.seat.suits x hj).left

end Awaits
end Redis

open Redis

namespace RedisBroker

variable {b : RedisBroker} {r : Redis} {z : ZSetKey} {i j : JobID} {s : Score} {workerID : WorkerID}
         {ttl now limit : Int}
         {queues : List QueueName} {leaseToken : Token} {body : Redis → Redis} {ids : List JobID} {job : Job}

-- Retries are delayed, by a number of milliseconds.
structure Patient (b : RedisBroker) : Prop where
  base : 0 < b.baseRetryDelay.milliseconds
  max  : 0 < b.maxRetryDelay.milliseconds

theorem Patient.retryDelay_pos (hb : b.Patient) (attempts : Int) : ∃ n, 0 < n ∧ b.retryDelay attempts = .int n := by
  unfold retryDelay
  dsimp only
  generalize (if attempts - 1 < 0 then 0 else attempts - 1).toNat = power
  rw [Double.int_mul_pow2 hb.base]
  split
  case isFalse => exact ⟨_, hb.max, rfl⟩
  case isTrue  =>
    split
    case isTrue  => exact ⟨_, hb.max, rfl⟩
    case isFalse => exact ⟨_, mul_pos hb.base (pow_pos two_pos power), rfl⟩

-- A job is retried after its lease has been recovered.
theorem Patient.lt_retryAt (hb : b.Patient) (hn : 0 ≤ now) (attempts : Int) :
    ∃ s, (b.retryAt now attempts).toScore = some s ∧ Score.ofInt now < s := by
  obtain ⟨n, hp, hd⟩ := hb.retryDelay_pos attempts
  have hl : ¬now + n ≤ -2 ^ 1024 := not_le.mpr <| (neg_lt_zero.mpr (by positivity)).trans (by omega)
  rw [retryAt, hd, Double.int_add_int, Double.ofInt, if_neg hl]
  split
  case isTrue  => exact ⟨_, rfl, WithBot.coe_lt_coe.mpr <| WithTop.coe_lt_top now⟩
  case isFalse => exact ⟨_, rfl, WithBot.coe_lt_coe.mpr <| WithTop.coe_lt_coe.mpr <| by omega⟩

-- No batch of expired leases is cut off then.
theorem Patient.recover_ok (hb : b.Patient) (hn : 0 ≤ now) (h : JobHash) :
    ∃ item, (b.recover now j h r).2 = .ok item ∧ item.jobID = j := by
  apply recover_rule (Q := fun x => ∃ item, x.2 = .ok item ∧ item.jobID = j)
  case canceled => exact fun _ => ⟨_, rfl, rfl⟩
  case retrying => exact fun _ _ _ _ => ⟨_, rfl, rfl⟩
  case failed   => exact fun _ _ => ⟨_, rfl, rfl⟩
  case aborted  =>
    intro _ _ ha
    obtain ⟨s, hs, _⟩ := hb.lt_retryAt hn h.attempts
    rw [ha] at hs
    cases hs

-- What a batch does is what it does job by job.
theorem Patient.recoverAll_induction (hb : b.Patient) (hn : 0 ≤ now)
    {P : List JobID → Redis → Redis × Except Error (List RecoveredLease) → Prop} (nil : ∀ r, P [] r (r, .ok []))
    (skip : ∀ id ids r x, (r.zsets .activeLeases).score? id = none → P ids r x → P (id :: ids) r x)
    (absent : ∀ id ids r x, ((r.zsets .activeLeases).score? id).isSome → r.jobs id = none →
      P ids (r.zrem .activeLeases id) x → P (id :: ids) r x)
    (recover : ∀ id ids r h item x, ((r.zsets .activeLeases).score? id).isSome → r.jobs id = some h → item.jobID = id →
      (b.recover now id h (r.zrem .activeLeases id)).2 = .ok item →
      P ids (b.recover now id h (r.zrem .activeLeases id)).1 x → P (id :: ids) r (x.1, x.2.map (item :: ·))) :
    P ids r (b.recoverAll now ids r) := by
  induction ids generalizing r
  case nil             => exact nil r
  case cons id ids hi =>
    unfold recoverAll
    split
    case isFalse hz => exact skip _ _ _ _ (by simpa using hz) hi
    case isTrue hz  =>
      split
      case h_1 hj   => exact absent _ _ _ _ hz hj hi
      case h_2 h hj =>
        obtain ⟨item, hok, he⟩ := hb.recover_ok (j := id) (r := r.zrem .activeLeases id) hn h
        have hr := recover _ _ _ _ _ _ hz hj he hok hi
        cases hc : b.recover now id h (r.zrem .activeLeases id)
        case mk r' res =>
        rw [hc] at hok hr
        cases hok
        exact hr

section

variable (hb : b.Patient) (hn : 0 ≤ now)
include hb hn

theorem recoverAll_unchanged (hj : j ∉ ids) : r.Unchanged j (b.recoverAll now ids r).1 := by
  revert hj
  apply hb.recoverAll_induction hn (P := fun ids r x => j ∉ ids → r.Unchanged j x.1)
  case nil     => exact fun _ _ => .refl ..
  case skip    => exact fun id ids r x _ hx hj => hx (not_or.mp (List.mem_cons.not.mp hj)).right
  case absent  =>
    intro id ids r x _ _ hx hj
    have ⟨hi, hj⟩ := not_or.mp (List.mem_cons.not.mp hj)
    exact .trans (.zrem hi) (hx hj)
  case recover =>
    intro id ids r h item x _ _ _ _ hx hj
    have ⟨hi, hj⟩ := not_or.mp (List.mem_cons.not.mp hj)
    exact .trans (.zrem hi) <| .trans (recover_unchanged hi) (hx hj)

end
end RedisBroker

namespace Sweep

open RedisBroker

-- How much a sweep may take out of the set, once the job is to be taken out of there.
def limit (z : ZSetKey) (t : Int) : BrokerCall → Nat
  | .activateDue limit now    => if z = .delayed ∧ t ≤ now.unixMilli then limit.toNat else 0
  | .recoverExpired limit now => if z = .activeLeases ∧ t ≤ now.unixMilli then limit.toNat else 0
  | _                         => 0

-- The job is returned by a sweep.
def Takes (z : ZSetKey) (j : JobID) : (c : BrokerCall) → Except Error c.Resp → Prop
  | .activateDue ..,    .ok jobIDs => z = .delayed ∧ j ∈ jobIDs
  | .recoverExpired .., .ok items  => z = .activeLeases ∧ ∃ item ∈ items, item.jobID = j
  | _,                  _          => False

-- The job is left alone by its holder and by operators, and all others are put off until later.
def Spares (z : ZSetKey) (j : JobID) (t : Int) : BrokerCall → Prop
  | .enqueue job now => job.id ≠ j ∧ (z = .delayed → job.state ≠ .blocked →
    (job.state = .scheduled ∨ job.state = .retrying ∨ job.state = .throttled ∨ now < job.runAt) →
    t < job.runAt.unixMilli)
  | .loadJob _ => True
  | .dequeue _ _ leaseTTL now => z = .activeLeases → t < now.unixMilli + leaseTTL.milliseconds
  | .heartbeat i _ leaseTTL now => z = .activeLeases → i ≠ j ∧ t < now.unixMilli + leaseTTL.milliseconds
  | .complete job leaseToken .. => leaseToken ≠ "" ∧ (z = .activeLeases → job.id ≠ j)
  | .fail job leaseToken _ retryAt _ => leaseToken ≠ "" ∧ (z = .activeLeases → job.id ≠ j) ∧
    (z = .delayed → ∀ t' ∈ retryAt, t < t'.unixMilli)
  | .requeueThrottled job leaseToken retryAt _ _ => leaseToken ≠ "" ∧ (z = .activeLeases → job.id ≠ j) ∧
    (z = .delayed → t < retryAt.unixMilli)
  | .activateDue .. => True
  | .recoverExpired _ now => 0 ≤ now.unixMilli ∧ (z = .delayed → t ≤ now.unixMilli)
  | .retry job now => job.id ≠ j ∧ (z = .delayed → now < job.runAt → t < job.runAt.unixMilli)
  | .cancelLoaded i _ _ => i ≠ j

variable {b : RedisBroker} {r : Redis} {z : ZSetKey} {j : JobID} {t : Int} {c : BrokerCall} {cs : List BrokerCall}

def step (b : RedisBroker) (r : Redis) (c : BrokerCall) : Redis :=
  (b.exec r c).1

-- A sweep of the run returns the job.
def TakenIn (b : RedisBroker) (r : Redis) (z : ZSetKey) (j : JobID) (cs : List BrokerCall) : Prop :=
  ∃ cs₁ c cs₂, cs = cs₁ ++ c :: cs₂ ∧ Takes z j c (b.exec (Run.last (step b) r cs₁) c).2

theorem TakenIn.cons (h : TakenIn b (step b r c) z j cs) : TakenIn b r z j (c :: cs) := by
  obtain ⟨cs₁, c', cs₂, rfl, ht⟩ := h
  exact ⟨c :: cs₁, c', cs₂, rfl, ht⟩

def scheduled (jobID : JobID) (seconds : Int) : Job :=
  { Ledger.sampleJob with
    id    := jobID
    state := .scheduled
    runAt := Ledger.sampleTime seconds
  }

-- There are two jobs ahead of the third one.
def schedule : List BrokerCall := [
  .enqueue (scheduled "job-1" 10) (Ledger.sampleTime 0),
  .enqueue (scheduled "job-2" 20) (Ledger.sampleTime 0),
  .enqueue (scheduled "job-3" 30) (Ledger.sampleTime 0)
]

-- The sweeps take one job at a time, and meanwhile another job is scheduled.
def sweeps : List BrokerCall := [
  .activateDue 1 (Ledger.sampleTime 30),
  .dequeue "worker-1" [] (30 * Duration.second) (Ledger.sampleTime 30),
  .activateDue 1 (Ledger.sampleTime 31),
  .enqueue (scheduled "job-4" 31) (Ledger.sampleTime 30),
  .activateDue 1 (Ledger.sampleTime 32)
]

end Sweep
end JobPlatform
