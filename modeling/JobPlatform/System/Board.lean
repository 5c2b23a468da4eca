import JobPlatform.Library.Trace
import JobPlatform.Queue.Sweeps
import JobPlatform.System.Outcomes

namespace JobPlatform

-- Where a job waits when it is ready.
structure Lane where
  queue    : QueueName
  priority : Int
  deriving DecidableEq

-- What a job is waiting for, without regard to how that is stored. A lease may be held although the job has been
-- canceled.
inductive Standing
  | idle (state : JobState)
  | ready
  | delayed (due : Score)
  | leased (token : Token) (expires : Score) (canceled : Bool)

-- What is known about each job.
abbrev Board :=
  JobID → Option (Lane × Standing)

def JobHash.lane (h : JobHash) : Lane where
  queue    := h.queue
  priority := h.priority

def Job.lane (job : Job) : Lane where
  queue    := job.queue
  priority := job.priority

namespace Standing

-- Where a job goes that is put into its queue.
def arrival (job : Job) (now : Time) : Standing :=
  if job.state = .blocked then .idle .blocked
  else if job.state ≠ .queued ∨ now < job.runAt then .delayed (.ofInt job.runAt.unixMilli)
  else .ready

-- A lease is not taken away from its holder.
def cancel : Standing → Standing
  | leased token expires _ => .leased token expires true
  | _                      => .idle .canceled

-- The state that the hash of a job shows.
def Shows : Standing → JobState → Prop
  | idle s,              s' => s' = s
  | ready,               s' => s' = .queued
  | delayed _,           s' => s' ∈ [.queued, .scheduled, .retrying, .throttled, .canceled]
  | leased _ _ canceled, s' => s' = if canceled then .canceled else .active

end Standing

namespace Board

def empty : Board :=
  fun _ => none

-- What is written about a job that is not known.
def blank : Lane × Standing :=
  (JobHash.empty.lane, .idle .queued)

variable (j : JobID) (e e' : Option (Lane × Standing))

-- A lease is held under the token, unless it is refused to do anything.
def Holds (token : Token) (res : Except Error Bool) (after : Standing) : Prop :=
  (∃ l expires canceled, e = some (l, .leased token expires canceled) ∧ res = .ok true ∧ e' = some (l, after)) ∨
  ((∀ l expires canceled, e ≠ some (l, .leased token expires canceled)) ∧ res = .ok false ∧ e' = e)

-- What a call and its answer mean for a job.
def Moves : (c : BrokerCall) → Except Error c.Resp → Prop
  | .enqueue job now, _ =>
    if job.id = j then (∀ p ∈ e, p.2 = .idle .blocked) ∧ e' = some (job.lane, .arrival job now) else e' = e
  | .loadJob i, res => e' = e ∧ (i = j → match e with
    | none        => res = .error .nilReply
    | some (l, s) => ∃ job, res = .ok job ∧ job.lane = l ∧ s.Shows job.state)
  | .dequeue _ queues leaseTTL now, res =>
    (∃ l token, res = .ok (some (j, token)) ∧ e = some (l, .ready) ∧
      .ready l.queue l.priority ∈ readyKeysForQueues queues ∧
      e' = some (l, .leased token (.ofInt (now.unixMilli + leaseTTL.milliseconds)) false)) ∨
    ((∀ token, res ≠ .ok (some (j, token))) ∧ e' = e)
  | .heartbeat i token leaseTTL now, res =>
    if i = j then
      (∃ l expires, e = some (l, .leased token expires false) ∧ res = .ok true ∧
        e' = some (l, .leased token (.ofInt (now.unixMilli + leaseTTL.milliseconds)) false)) ∨
      ((∀ l expires, e ≠ some (l, .leased token expires false)) ∧ res = .ok false ∧ e' = e)
    else e' = e
  | .complete job token .., res =>
    if job.id = j then Holds e e' token res (.idle .completed) else e' = e
  | .fail job token _ retryAt _, res =>
    if job.id = j then
      Holds e e' token res (retryAt.elim (.idle .failed) fun retryAt => .delayed (.ofInt retryAt.unixMilli))
    else e' = e
  | .requeueThrottled job token retryAt .., res =>
    if job.id = j then Holds e e' token res (.delayed (.ofInt retryAt.unixMilli)) else e' = e
  | .activateDue _ now, res => ∃ ids, res = .ok ids ∧
    ((j ∈ ids ∧ ∃ l due, due ≤ .ofInt now.unixMilli ∧ e = some (l, .delayed due) ∧ e' = some (l, .ready)) ∨
    (j ∉ ids ∧ e' = e))
  | .recoverExpired _ now, res => ∃ items, res = .ok items ∧
    ((∃ item ∈ items, item.jobID = j ∧ ∃ l token expires canceled s, expires ≤ .ofInt now.unixMilli ∧
      e = some (l, .leased token expires canceled) ∧ e' = some (l, s) ∧
      ((item.state = .canceled ∨ item.state = .failed) ∧ s = .idle item.state ∨
        item.state = .retrying ∧ ∃ due, .ofInt now.unixMilli < due ∧ s = .delayed due)) ∨
    ((∀ item ∈ items, item.jobID ≠ j) ∧ e' = e))
  | .retry job now, _ =>
    if job.id = j then
      (∀ p ∈ e, ∃ state, p.2 = .idle state) ∧
      e' = some (job.lane, if now < job.runAt then .delayed (.ofInt job.runAt.unixMilli) else .ready)
    else e' = e
  | .cancelLoaded i job _, _ =>
    if i = j then
      let (l, s) := e.getD blank
      e' = some (l, if RedisBroker.isCancellable job.state then s.cancel else s)
    else e' = e

-- The board follows the calls to the broker and their answers.
def Next (d : Board) (x : (c : BrokerCall) × Except Error c.Resp) (d' : Board) : Prop :=
  ∀ j, Moves j (d j) (d' j) x.1 x.2

end Board

namespace Redis

def standing (r : Redis) (j : JobID) (h : JobHash) : Standing :=
  match (r.zsets .activeLeases).score? j, (r.zsets .delayed).score? j with
  | some s, _      => .leased h.leaseToken s (h.state ≠ .active)
  | none,   some s => .delayed s
  | none,   none   =>
    if j ∈ r.lists (.ready h.queue h.priority) ∧ h.state.isRunnable then .ready else .idle h.state

-- What Redis says about all jobs.
def board (r : Redis) : Board :=
  fun j => (r.jobs j).map fun h => (h.lane, r.standing j h)

-- The place of a job and its hash make up its entry.
inductive Posted (r : Redis) (j : JobID) : Option (Lane × Standing) → Prop
  | absent (hj : r.jobs j = none) (ho : r.Only j none) : Posted r j none
  | idle {h : JobHash} (hj : r.jobs j = some h) (ho : r.Only j none) (ht : h.leaseToken = "")
      (hs : h.state ≠ .active) : Posted r j (some (h.lane, .idle h.state))
  | ready {h : JobHash} (hj : r.jobs j = some h) (ho : r.Only j (some (.list (.ready h.queue h.priority))))
      (ht : h.leaseToken = "") (hs : h.state = .queued) : Posted r j (some (h.lane, .ready))
  | doomed {h : JobHash} (hj : r.jobs j = some h) (ho : r.Only j (some (.list (.ready h.queue h.priority))))
      (ht : h.leaseToken = "") (hs : h.state = .canceled) : Posted r j (some (h.lane, .idle .canceled))
  | delayed {h : JobHash} {s : Score} (hj : r.jobs j = some h) (ho : r.Only j (some (.zset .delayed)))
      (hz : (r.zsets .delayed).score? j = some s) (ht : h.leaseToken = "")
      (hs : h.state ∈ [.queued, .scheduled, .retrying, .throttled, .canceled]) :
      Posted r j (some (h.lane, .delayed s))
  | leased {h : JobHash} {s : Score} {c : Bool} (hj : r.jobs j = some h)
      (ho : r.Only j (some (.zset .activeLeases))) (hz : (r.zsets .activeLeases).score? j = some s)
      (hs : h.state = if c then .canceled else .active) :
      Posted r j (some (h.lane, .leased h.leaseToken s c))

variable {r r' : Redis} {i j : JobID} {e e' : Option (Lane × Standing)} {h : JobHash} {q : QueueName} {n : Int}

theorem Only.mem_ready {o : Option Place} (ho : r.Only j o) :
    j ∈ r.lists (.ready q n) ↔ o = some (.list (.ready q n)) := by
  have hk := ho (.list (.ready q n)) trivial
  rw [← List.count_pos_iff, show (r.lists (.ready q n)).count j = _ from hk]
  split <;> simp_all

namespace Posted

theorem of_unchanged (h : r.Posted j e) (hu : r.Unchanged j r') : r'.Posted j e := by
  cases h
  case absent hj ho           => exact .absent (hu.jobs.trans hj) (ho.of_unchanged hu)
  case idle hj ho ht hs       => exact .idle (hu.jobs.trans hj) (ho.of_unchanged hu) ht hs
  case ready hj ho ht hs      => exact .ready (hu.jobs.trans hj) (ho.of_unchanged hu) ht hs
  case doomed hj ho ht hs     => exact .doomed (hu.jobs.trans hj) (ho.of_unchanged hu) ht hs
  case delayed hj ho hz ht hs =>
    exact .delayed (hu.jobs.trans hj) (ho.of_unchanged hu) ((hu.score _).trans hz) ht hs
  case leased hj ho hz hs     => exact .leased (hu.jobs.trans hj) (ho.of_unchanged hu) ((hu.score _).trans hz) hs

theorem entry_eq (h : r.Posted j e) : r.board j = e := by
  unfold board
  cases h
  case absent hj ho           => rw [hj]; rfl
  case idle h hj ho ht hs     =>
    simp [hj, standing, ho.score?_eq_none, ho.mem_ready]
  case ready hj ho ht hs      =>
    simp [hj, standing, ho.score?_eq_none, ho.mem_ready, hs, JobState.isRunnable]
  case doomed hj ho ht hs     =>
    simp [hj, standing, ho.score?_eq_none, ho.mem_ready, hs, JobState.isRunnable]
  case delayed hj ho hz ht hs =>
    simp [hj, standing, ho.score?_eq_none, hz]
  case leased hj ho hz hs     =>
    simp [hj, standing, hz, hs]

open RedisBroker

variable {b : RedisBroker} {job : Job} {token : Token} {body : Redis → Redis} {f : JobHash → JobHash} {ttl now : Int}

-- What is known about a job that has no place.
theorem of_idle (h : r.Posted j e) (ho : r.Only j none) : ∀ p ∈ e, ∃ state, p.2 = .idle state := by
  have hn {p : Place} (ho' : r.Only j (some p)) (hp : p.Live) : False := by
    have hk := (ho p hp).symm.trans (ho' p hp)
    simp at hk
  cases h
  case absent            => exact fun _ hp => nomatch hp
  case idle              => simp
  case ready ho' _ _     => exact (hn ho' trivial).elim
  case doomed ho' _ _    => exact (hn ho' trivial).elim
  case delayed ho' _ _ _ => exact (hn ho' trivial).elim
  case leased ho' _ _    => exact (hn ho' trivial).elim

theorem of_blocked (h : r.Posted j e) (hb : ∀ x, r.jobs j = some x → x.state = .blocked) :
    r.Only j none ∧ ∀ p ∈ e, p.2 = .idle .blocked := by
  cases h
  case absent _ ho           => exact ⟨ho, fun _ hp => nomatch hp⟩
  case idle hj ho _ _        => exact ⟨ho, by simp [hb _ hj]⟩
  case ready hj _ _ hs       => cases (hb _ hj).symm.trans hs
  case doomed hj _ _ hs      => cases (hb _ hj).symm.trans hs
  case delayed hj _ _ _ hs   => rw [hb _ hj] at hs; simp at hs
  case leased hj _ _ hs      => rw [hb _ hj] at hs; split at hs <;> cases hs

-- The list of dead letters is only a record.
theorem lrem_dlq (h : r.Posted j e) : (r.lrem (.dlq q) i).Posted j e := by
  cases h
  case absent hj ho           => exact .absent hj ho.lrem_dlq
  case idle hj ho ht hs       => exact .idle hj ho.lrem_dlq ht hs
  case ready hj ho ht hs      => exact .ready hj ho.lrem_dlq ht hs
  case doomed hj ho ht hs     => exact .doomed hj ho.lrem_dlq ht hs
  case delayed hj ho hz ht hs => exact .delayed hj ho.lrem_dlq hz ht hs
  case leased hj ho hz hs     => exact .leased hj ho.lrem_dlq hz hs

theorem lpush_dlq (h : r.Posted j e) : (r.lpush (.dlq q) i).Posted j e := by
  cases h
  case absent hj ho           => exact .absent hj ho.lpush_dlq
  case idle hj ho ht hs       => exact .idle hj ho.lpush_dlq ht hs
  case ready hj ho ht hs      => exact .ready hj ho.lpush_dlq ht hs
  case doomed hj ho ht hs     => exact .doomed hj ho.lpush_dlq ht hs
  case delayed hj ho hz ht hs => exact .delayed hj ho.lpush_dlq hz ht hs
  case leased hj ho hz hs     => exact .leased hj ho.lpush_dlq hz hs

-- The job may not have been known before.
theorem requestCancel (h : r.Posted j e) (now : Int) :
    (r.hset j (·.requestCancel now)).Posted j (some (e.getD Board.blank)) := by
  cases h
  case absent hj ho             =>
    exact .idle (h := JobHash.empty.requestCancel now) (by simp [hj]) ho rfl nofun
  case idle h hj ho ht hs       => exact .idle (h := h.requestCancel now) (by simp [hj]) ho ht hs
  case ready h hj ho ht hs      => exact .ready (h := h.requestCancel now) (by simp [hj]) ho ht hs
  case doomed h hj ho ht hs     => exact .doomed (h := h.requestCancel now) (by simp [hj]) ho ht hs
  case delayed h _ hj ho hz ht hs => exact .delayed (h := h.requestCancel now) (by simp [hj]) ho hz ht hs
  case leased h _ _ hj ho hz hs => exact .leased (h := h.requestCancel now) (by simp [hj]) ho hz hs

-- A job is taken out of its queue, if it is found there.
theorem cancel {p : Lane × Standing} (h : r.Posted j (some p)) : ((((r.lrem (.ready q n) j).zrem .delayed j).lrem
    (.dlq q) j).hset j (·.cancel now)).Posted j (some (p.1, p.2.cancel)) := by
  let r' := ((r.lrem (.ready q n) j).zrem .delayed j).lrem (.dlq q) j
  have only {o : Option Place} (ho : r.Only j o) : (r'.hset j (·.cancel now)).Only j
      (leave (leave o (.list (.ready q n))) (.zset .delayed)) :=
    (Only.zrem (Only.lrem ho)).lrem_dlq
  have hash {x : JobHash} (hx : r.jobs j = some x) : (r'.hset j (·.cancel now)).jobs j = some (x.cancel now) := by
    simp [r', hx]
  have queued {x : JobHash} (hx : r.jobs j = some x) (ho : r.Only j (some (.list (.ready x.queue x.priority))))
      (ht : x.leaseToken = "") : (r'.hset j (·.cancel now)).Posted j (some (x.lane, .idle .canceled)) := by
    have ho := only ho
    by_cases hl : Place.list (.ready x.queue x.priority) = .list (.ready q n)
    case pos =>
      rw [hl] at ho
      exact .idle (h := x.cancel now) (hash hx) (by simpa [leave] using ho) ht nofun
    case neg =>
      have he : leave (some (.list (.ready x.queue x.priority))) (.list (.ready q n)) = _ := if_neg (by simpa using hl)
      rw [he] at ho
      exact .doomed (h := x.cancel now) (hash hx) ho ht rfl
  cases h
  case idle h hj ho ht hs         => exact .idle (h := h.cancel now) (hash hj) (by simpa [leave] using only ho) ht nofun
  case ready hj ho ht hs          => exact queued hj ho ht
  case doomed hj ho ht hs         => exact queued hj ho ht
  case delayed h _ hj ho hz ht hs => exact .idle (h := h.cancel now) (hash hj) (by simpa [leave] using only ho) ht nofun
  case leased h s c hj ho hz hs   =>
    exact .leased (h := h.cancel now) (c := true) (hash hj) (by simpa [leave] using only ho)
      (by simpa [r', zrem_score?] using hz) rfl

-- The entry of a job in a ready list.
theorem of_ready {ids : List JobID} (h : r.Posted j e) (hl : r.lists (.ready q n) = j :: ids) :
    ∃ x, r.jobs j = some x ∧ x.lane = ⟨q, n⟩ ∧ x.leaseToken = "" ∧ (r.lset (.ready q n) ids).Only j none ∧
    (x.state = .queued ∧ e = some (x.lane, .ready) ∨ x.state = .canceled ∧ e = some (x.lane, .idle .canceled)) := by
  cases h
  case absent ho             => cases (ho.lpop hl).left
  case idle ho _ _           => cases (ho.lpop hl).left
  case delayed ho _ _ _      => cases (ho.lpop hl).left
  case leased ho _ _         => cases (ho.lpop hl).left
  case ready x hj ho ht hs   =>
    obtain ⟨hp, hn⟩ := ho.lpop hl
    cases hp
    exact ⟨x, hj, rfl, ht, hn, .inl ⟨hs, rfl⟩⟩
  case doomed x hj ho ht hs  =>
    obtain ⟨hp, hn⟩ := ho.lpop hl
    cases hp
    exact ⟨x, hj, rfl, ht, hn, .inr ⟨hs, rfl⟩⟩

-- Only a lease has a token.
theorem of_token (h : r.Posted j e) {x : JobHash} (hx : r.jobs j = some x) (ht : x.leaseToken ≠ "") :
    r.Only j (some (.zset .activeLeases)) ∧ ∃ expires canceled,
      e = some (x.lane, .leased x.leaseToken expires canceled) ∧
      x.state = if canceled then .canceled else .active := by
  cases h
  case absent hj _             => cases hj.symm.trans hx
  case idle hj _ ht' _         => cases hj.symm.trans hx; exact absurd ht' ht
  case ready hj _ ht' _        => cases hj.symm.trans hx; exact absurd ht' ht
  case doomed hj _ ht' _       => cases hj.symm.trans hx; exact absurd ht' ht
  case delayed hj _ _ ht' _    => cases hj.symm.trans hx; exact absurd ht' ht
  case leased s _ hj ho _ hs   => cases hj.symm.trans hx; exact ⟨ho, s, _, rfl, hs⟩

theorem of_active (h : r.Posted j e) {x : JobHash} (hx : r.jobs j = some x) (ha : x.state = .active) :
    r.Only j (some (.zset .activeLeases)) ∧ ∃ expires, e = some (x.lane, .leased x.leaseToken expires false) := by
  cases h
  case absent hj _                   => cases hj.symm.trans hx
  case idle hj _ _ hs                => cases hj.symm.trans hx; exact absurd ha hs
  case ready hj _ _ hs               => cases hj.symm.trans hx; cases ha.symm.trans hs
  case doomed hj _ _ hs              => cases hj.symm.trans hx; cases ha.symm.trans hs
  case delayed hj _ _ _ hs           => cases hj.symm.trans hx; rw [ha] at hs; simp at hs
  case leased s canceled hj ho hz hs =>
    cases hj.symm.trans hx
    cases canceled
    case false => exact ⟨ho, s, rfl⟩
    case true  => cases ha.symm.trans hs

-- The hash shows the token of the lease.
theorem token_of (h : r.Posted j e) {l : Lane} {expires : Score} {canceled : Bool}
    (he : e = some (l, .leased token expires canceled)) : ∃ x, r.jobs j = some x ∧ x.leaseToken = token ∧
      x.state = if canceled then .canceled else .active := by
  cases h <;> cases he
  case leased h hj ho hz hs => exact ⟨h, hj, rfl, hs⟩

theorem of_delayed (h : r.Posted j e) (hz : ((r.zsets .delayed).score? j).isSome) : ∃ x s, r.jobs j = some x ∧
    (r.zsets .delayed).score? j = some s ∧ e = some (x.lane, .delayed s) ∧ r.Only j (some (.zset .delayed)) := by
  cases h
  case absent ho              => cases ho.of_score? hz
  case idle ho _ _            => cases ho.of_score? hz
  case ready ho _ _           => cases ho.of_score? hz
  case doomed ho _ _          => cases ho.of_score? hz
  case leased ho _ _          => cases ho.of_score? hz
  case delayed hj ho hs ht hx => exact ⟨_, _, hj, hs, rfl, ho⟩

theorem of_leased (h : r.Posted j e) (hz : ((r.zsets .activeLeases).score? j).isSome) : ∃ x s c, r.jobs j = some x ∧
    (r.zsets .activeLeases).score? j = some s ∧ e = some (x.lane, .leased x.leaseToken s c) ∧
    r.Only j (some (.zset .activeLeases)) := by
  cases h
  case absent ho          => cases ho.of_score? hz
  case idle ho _ _        => cases ho.of_score? hz
  case ready ho _ _       => cases ho.of_score? hz
  case doomed ho _ _      => cases ho.of_score? hz
  case delayed ho _ _ _   => cases ho.of_score? hz
  case leased hj ho hs hx => exact ⟨_, _, _, hj, hs, rfl, ho⟩

end Posted

section

variable {f : JobHash → JobHash} {x : JobHash} {s : Score}

theorem Only.posted_idle (ho : r.Only j none) (hx : f ((r.jobs j).getD .empty) = x) (ht : x.leaseToken = "")
    (hs : x.state ≠ .active) : (r.hset j f).Posted j (some (x.lane, .idle x.state)) :=
  .idle (r := r.hset j f) (by simp [hx]) ho ht hs

theorem Only.posted_ready (ho : r.Only j none) (hx : f ((r.jobs j).getD .empty) = x) (ht : x.leaseToken = "")
    (hs : x.state = .queued) :
    ((r.hset j f).lpush (.ready x.queue x.priority) j).Posted j (some (x.lane, .ready)) :=
  .ready (by simp [hx]) (Only.lpush (r := r.hset j f) ho) ht hs

theorem Only.posted_delayed (ho : r.Only j none) (hx : f ((r.jobs j).getD .empty) = x) (ht : x.leaseToken = "")
    (hs : x.state ∈ [.queued, .scheduled, .retrying, .throttled, .canceled]) :
    ((r.hset j f).zadd .delayed j s).Posted j (some (x.lane, .delayed s)) :=
  .delayed (by simp [hx]) (Only.zadd (r := r.hset j f) ho) (by simp [zadd_score?]) ht hs

end

-- The answer of a call is right about all jobs.
def Answers (r : Redis) (c : BrokerCall) (r' : Redis) (res : Except Error c.Resp) : Prop :=
  ∀ j e, r.Posted j e → ∃ e', r'.Posted j e' ∧ Board.Moves j e e' c res

namespace Answers

open RedisBroker

variable {b : RedisBroker} {job : Job} {token : Token} {body : Redis → Redis} {f : JobHash → JobHash} {ttl : Int}
         {now : Time} {leaseTTL : Duration}

theorem enqueue (ha : Requeuing.Allowed r (.enqueue job now)) :
    r.Answers (.enqueue job now) (RedisBroker.enqueue job now r) (.ok ()) := by
  intro j e h
  by_cases hj : job.id = j
  case neg => exact ⟨e, h.of_unchanged (enqueue_unchanged (Ne.symm hj)), by simp [Board.Moves, hj]⟩
  case pos =>
    subst hj
    obtain ⟨hb, ht, hs⟩ := ha
    obtain ⟨ho, he⟩ := h.of_blocked fun x hx => by simpa [hx] using hb
    simp only [Board.Moves, if_true]
    refine ⟨_, ?_, he, rfl⟩
    unfold RedisBroker.enqueue Standing.arrival
    dsimp only
    split
    case isTrue hb  =>
      have hp := ho.posted_idle (f := fun _ => jobHash job) rfl ht (by simp [jobHash, hb])
      rwa [show (jobHash job).state = .blocked from hb] at hp
    case isFalse hb =>
      have hs : job.state = .queued ∨ job.state = .scheduled := by simpa [hb] using hs
      split
      case isTrue hd  =>
        have hd : job.state ≠ .queued ∨ now < job.runAt := by
          obtain hd | hd | hd | hd := hd <;> simp [hd]
        rw [if_pos hd]
        exact ho.posted_delayed (f := fun _ => jobHash job) rfl ht (by obtain hs | hs := hs <;> simp [jobHash, hs])
      case isFalse hd =>
        obtain ⟨hn, _, _, hr⟩ : job.state ≠ .scheduled ∧ _ ∧ _ ∧ ¬now < job.runAt := by simpa using hd
        have hq := hs.resolve_right hn
        rw [if_pos hq, if_neg (by simpa [hq] using hr)]
        exact ho.posted_ready (f := fun _ => jobHash job) rfl ht hq

theorem retry (ho : r.Only job.id none) : r.Answers (.retry job now) (RedisBroker.retry job now r) (.ok ()) := by
  intro j e h
  by_cases hj : job.id = j
  case neg => exact ⟨e, h.of_unchanged (retry_unchanged (Ne.symm hj)), by simp [Board.Moves, hj]⟩
  case pos =>
    subst hj
    simp only [Board.Moves, if_true]
    refine ⟨_, ?_, h.of_idle ho, rfl⟩
    let x := ((r.jobs job.id).getD .empty).retry job now.unixMilli
    unfold RedisBroker.retry
    dsimp only
    split
    case isTrue  =>
      have hx : (((r.hset job.id (·.retry job now.unixMilli)).jobs job.id).getD .empty).schedule = x.schedule := by
        simp [x]
      exact (Only.posted_delayed (r := r.hset job.id _) ho hx rfl (by simp [JobHash.schedule])).lrem_dlq
    case isFalse => exact (Only.posted_ready (x := x) ho rfl rfl rfl).lrem_dlq

-- The scripts that end a lease.
theorem endLease {after : Standing} (hn : token ≠ "") (hu : ∀ j, j ≠ i → ∀ r : Redis, r.Unchanged j (body r))
    (hb : ∀ (r : Redis) x, r.jobs i = some x → r.Only i none → (body r).Posted i (some (x.lane, after)))
    (h : r.Posted j e) :
    ∃ e', (RedisBroker.endLease i token body r).1.Posted j e' ∧
    if i = j then Board.Holds e e' token (.ok (RedisBroker.endLease i token body r).2) after else e' = e := by
  by_cases hj : i = j
  case neg =>
    have hj : j ≠ i := Ne.symm hj
    exact ⟨e, h.of_unchanged (endLease_unchanged hj (hu j hj)), by simp [hj.symm]⟩
  case pos =>
    subst hj
    simp only [if_true]
    unfold RedisBroker.endLease
    split
    case isTrue ht  =>
      obtain ⟨x, hx, ht⟩ := Option.any_eq_true _ _ |>.mp ht
      have ht := of_decide_eq_true ht
      obtain ⟨ho, expires, canceled, he, _⟩ := h.of_token hx (ht ▸ hn)
      refine ⟨_, hb _ x hx ho.zrem_self, .inl ⟨x.lane, expires, canceled, ht ▸ he, rfl, rfl⟩⟩
    case isFalse ht =>
      refine ⟨e, h, .inr ⟨fun l expires canceled he => ht ?_, rfl, rfl⟩⟩
      obtain ⟨x, hx, hk, _⟩ := h.token_of he
      exact Option.any_eq_true _ _ |>.mpr ⟨x, hx, decide_eq_true hk⟩

theorem complete {result : String} {finishedAt : Time} (hn : token ≠ "") : r.Answers
    (.complete job token result finishedAt) (completeLua job token finishedAt.unixMilli result r).1
    (.ok (completeLua job token finishedAt.unixMilli result r).2) := by
  refine fun j e h => endLease hn (fun j hj _ => .hset hj) (fun r x hx ho => ?_) h
  exact ho.posted_idle (x := x.complete job finishedAt.unixMilli result) (by simp [hx]) rfl nofun

theorem fail {errMessage : String} {retryAt : Option Time} {failedAt : Time} (hn : token ≠ "") : r.Answers
    (.fail job token errMessage retryAt failedAt)
    (failLua job token errMessage (retryAt.map Time.unixMilli) failedAt.unixMilli r).1
    (.ok (failLua job token errMessage (retryAt.map Time.unixMilli) failedAt.unixMilli r).2) := by
  intro j e h
  cases retryAt
  case none         =>
    refine endLease hn (fun j hj _ => .trans (.hset hj) (.lpush hj)) (fun r x hx ho => ?_) h
    exact (ho.posted_idle (x := x.fail errMessage failedAt.unixMilli) (by simp [hx]) rfl nofun).lpush_dlq
  case some retryAt =>
    refine endLease hn (fun j hj _ => .trans (.hset hj) (.zadd hj)) (fun r x hx ho => ?_) h
    exact ho.posted_delayed (x := x.retryAfterFailure errMessage retryAt.unixMilli failedAt.unixMilli)
      (by simp [hx]) rfl (by simp [JobHash.retryAfterFailure])

theorem requeueThrottled {retryAt : Time} {reason : String} (hn : token ≠ "") : r.Answers
    (.requeueThrottled job token retryAt reason now) (throttleLua job token now.unixMilli reason retryAt.unixMilli r).1
    (.ok (throttleLua job token now.unixMilli reason retryAt.unixMilli r).2) := by
  refine fun j e h => endLease hn (fun j hj _ => .trans (.hset hj) (.zadd hj)) (fun r x hx ho => ?_) h
  exact ho.posted_delayed (x := x.throttle reason retryAt.unixMilli now.unixMilli) (by simp [hx]) rfl
    (by simp [JobHash.throttle])

theorem heartbeat : r.Answers (.heartbeat i token leaseTTL now)
    (heartbeatLua i token leaseTTL.milliseconds now.unixMilli r).1
    (.ok (heartbeatLua i token leaseTTL.milliseconds now.unixMilli r).2) := by
  intro j e h
  by_cases hj : i = j
  case neg =>
    exact ⟨e, h.of_unchanged (heartbeatLua_unchanged (Ne.symm hj)), by simp [Board.Moves, hj]⟩
  case pos =>
    subst hj
    simp only [Board.Moves, if_true]
    unfold heartbeatLua
    split
    case isTrue ht  =>
      obtain ⟨x, hx, ht⟩ := Option.any_eq_true _ _ |>.mp ht
      obtain ⟨rfl, ha⟩ := of_decide_eq_true ht
      obtain ⟨ho, expires, he⟩ := h.of_active hx ha
      refine ⟨_, ?_, .inl ⟨x.lane, expires, he, rfl, rfl⟩⟩
      have hx' : (renew leaseTTL.milliseconds now.unixMilli i r).jobs i =
          some (x.renew leaseTTL.milliseconds now.unixMilli) := by simp [renew, hx]
      have ho' : (renew leaseTTL.milliseconds now.unixMilli i r).Only i (some (.zset .activeLeases)) :=
        Only.zadd_self (r := r.hset i _) ho
      exact .leased (h := x.renew _ _) (c := false) hx' ho' (by simp [renew, zadd_score?]) ha
    case isFalse ht =>
      refine ⟨e, h, .inr ⟨fun l expires he => ht ?_, rfl, rfl⟩⟩
      obtain ⟨x, hx, hk, ha⟩ := h.token_of he
      exact Option.any_eq_true _ _ |>.mpr ⟨x, hx, decide_eq_true ⟨hk, ha⟩⟩

theorem loadJob : r.Answers (.loadJob i) r (RedisBroker.loadJob i r) := by
  refine fun j e h => ⟨e, h, rfl, ?_⟩
  rintro rfl
  unfold RedisBroker.loadJob
  cases h
  case absent hj _            => rw [hj]
  case idle hj _ _ _          => rw [hj]; exact ⟨_, rfl, rfl, rfl⟩
  case ready hj _ _ hs        => rw [hj]; exact ⟨_, rfl, rfl, hs⟩
  case doomed hj _ _ hs       => rw [hj]; exact ⟨_, rfl, rfl, hs⟩
  case delayed hj _ _ _ hs    => rw [hj]; exact ⟨_, rfl, rfl, hs⟩
  case leased hj _ _ hs       => rw [hj]; exact ⟨_, rfl, rfl, hs⟩

theorem cancelLoaded :
    r.Answers (.cancelLoaded i job now) (RedisBroker.cancelLoaded i job now.unixMilli r) (.ok ()) := by
  intro j e h
  by_cases hj : i = j
  case neg => exact ⟨e, h.of_unchanged (cancelLoaded_unchanged (Ne.symm hj)), by simp [Board.Moves, hj]⟩
  case pos =>
    subst hj
    simp only [Board.Moves, if_true]
    refine ⟨_, ?_, rfl⟩
    have hr := h.requestCancel now.unixMilli
    unfold RedisBroker.cancelLoaded
    dsimp only
    split
    case isTrue hc  => exact hr.cancel
    case isFalse hc => exact hr

theorem dequeue {workerID : WorkerID} {queues : List QueueName} :
    let x := b.dequeueLua workerID leaseTTL.milliseconds now.unixMilli (readyKeysForQueues queues) r
    r.Answers (.dequeue workerID queues leaseTTL now) x.1 (.ok x.2) := by
  apply dequeueLua_rule (P := fun r' => ∀ j e, r.Posted j e → r'.Posted j e)
    (Q := fun r' res => r.Answers (.dequeue workerID queues leaseTTL now) r' (.ok res))
  case hr    => exact fun _ _ => id
  case none  => exact fun r' hr j e h => ⟨e, hr j e h, .inr ⟨nofun, rfl⟩⟩
  case drop  =>
    intro r' k i rest hr hk hl hs j e h
    obtain ⟨q, n, rfl⟩ := mem_readyKeysForQueues hk
    by_cases hi : j = i
    case neg => exact (hr j e h).of_unchanged (.lpop hl hi)
    case pos =>
      subst hi
      obtain ⟨x, hx, _, ht, ho, ⟨hq, _⟩ | ⟨hc, rfl⟩⟩ := (hr j e h).of_ready hl
      case inl => exact absurd (hs x hx) (by simp [JobState.isRunnable, hq])
      case inr => exact hc ▸ .idle (r := r'.lset _ rest) hx ho ht (by simp [hc])
  case lease =>
    intro r' k i rest x hr hk hl hx hs j e h
    obtain ⟨q, n, rfl⟩ := mem_readyKeysForQueues hk
    by_cases hi : j = i
    case neg =>
      refine ⟨e, (hr j e h).of_unchanged (.trans (.lpop hl hi) (lease_unchanged hi)), .inr ⟨fun token he => ?_, rfl⟩⟩
      cases he
      exact hi rfl
    case pos =>
      subst hi
      obtain ⟨y, hy, hn, ht, ho, ⟨hq, rfl⟩ | ⟨hc, rfl⟩⟩ := (hr j e h).of_ready hl
      all_goals cases hx.symm.trans hy
      case inr => simp [hc, JobState.isRunnable] at hs
      case inl =>
        have hr' : (b.lease workerID leaseTTL.milliseconds now.unixMilli j (r'.lset (.ready q n) rest)).jobs j =
            some (x.lease workerID (b.leaseTokenOf workerID j now.unixMilli) leaseTTL.milliseconds now.unixMilli) := by
          simp [lease, hx]
        have hz : ((b.lease workerID leaseTTL.milliseconds now.unixMilli j (r'.lset (.ready q n) rest)).zsets
            .activeLeases).score? j = some (.ofInt (now.unixMilli + leaseTTL.milliseconds)) := by
          simp [lease, zadd_score?]
        refine ⟨_, .leased (c := false) hr' (Only.zadd (r := (r'.lset _ rest).hset j _) ho) hz rfl, ?_⟩
        exact .inl ⟨x.lane, _, rfl, rfl, hn ▸ hk, rfl⟩

theorem activate {now : Int} (h : r.Posted j e) (hz : ((r.zsets .delayed).score? j).isSome) :
    (RedisBroker.activate now j r).2 = true ∧ ∃ l s, e = some (l, .delayed s) ∧
    (RedisBroker.activate now j r).1.Posted j (some (l, .ready)) := by
  obtain ⟨x, s, hx, _, he, ho⟩ := h.of_delayed hz
  unfold RedisBroker.activate
  rw [hx]
  have hn : (r.zrem .delayed j).Only j none := ho.zrem_self
  exact ⟨rfl, x.lane, s, he, hn.posted_ready (x := x.activate now) (by simp [hx]) rfl rfl⟩

-- A batch takes its jobs in turn.
theorem activateAll {now : Int} {ids : List JobID} (hn : ids.Nodup) (h : r.Posted j e) :
    ∃ e', (RedisBroker.activateAll now ids r).1.Posted j e' ∧
    ((j ∈ ids ∧ j ∈ (RedisBroker.activateAll now ids r).2 ∧ ∃ l s, e = some (l, .delayed s) ∧ e' = some (l, .ready)) ∨
    (j ∉ (RedisBroker.activateAll now ids r).2 ∧ e' = e)) := by
  induction ids generalizing r e
  case nil             => exact ⟨e, h, .inr ⟨List.not_mem_nil, rfl⟩⟩
  case cons id rest hi =>
    obtain ⟨hm, hn'⟩ := List.nodup_cons.mp hn
    unfold RedisBroker.activateAll
    split
    case isFalse hz =>
      obtain ⟨e', h', hc⟩ := hi hn' h
      exact ⟨e', h', hc.imp_left <| .imp_left <| List.mem_cons_of_mem _⟩
    case isTrue hz  =>
      dsimp only
      by_cases hj : j = id
      case neg =>
        obtain ⟨e', h', hc⟩ := hi hn' (h.of_unchanged (activate_unchanged hj))
        refine ⟨e', h', ?_⟩
        have hk : j ∈ (if (RedisBroker.activate now id r).2 then id :: (RedisBroker.activateAll now rest
            (RedisBroker.activate now id r).1).2 else (RedisBroker.activateAll now rest
            (RedisBroker.activate now id r).1).2) ↔ j ∈ (RedisBroker.activateAll now rest
            (RedisBroker.activate now id r).1).2 := by
          split <;> simp [hj]
        rw [hk]
        exact hc.imp_left <| .imp_left <| List.mem_cons_of_mem _
      case pos =>
        subst hj
        obtain ⟨ha, l, s, he, hp⟩ := activate h hz
        obtain ⟨e', h', ⟨hj, _⟩ | ⟨_, rfl⟩⟩ := hi hn' hp
        · exact absurd hj hm
        · exact ⟨_, h', .inl ⟨List.mem_cons_self, by simp [ha], l, s, he, rfl⟩⟩

theorem activateDue {limit : Int} : r.Answers (.activateDue limit now) (activateDueLua limit now.unixMilli r).1
    (.ok (activateDueLua limit now.unixMilli r).2) := by
  intro j e h
  have hn : ((r.zsets .delayed).rangeByScore (.ofInt now.unixMilli) limit).Nodup := SortedSet.rangeByScore_nodup
  obtain ⟨e', h', hc⟩ := activateAll hn h
  refine ⟨e', h', _, rfl, hc.imp_left ?_⟩
  rintro ⟨hj, hm, l, s, he, he'⟩
  obtain ⟨s', hs', hl⟩ := SortedSet.mem_rangeByScore hj
  obtain ⟨x, _, _, hs, hx, _⟩ := h.of_delayed (Option.isSome_of_eq_some hs')
  cases he.symm.trans hx
  cases hs.symm.trans hs'
  exact ⟨hm, x.lane, s, hl, he, he'⟩

-- What is said about a recovered job.
def Recovers (now : Int) (item : RecoveredLease) (s : Standing) : Prop :=
  (item.state = .canceled ∨ item.state = .failed) ∧ s = .idle item.state ∨
  item.state = .retrying ∧ ∃ due, .ofInt now < due ∧ s = .delayed due

theorem recover {now : Int} (hb : b.Patient) (hn : 0 ≤ now) {x : JobHash} (hx : r.jobs j = some x)
    (ho : r.Only j none) : ∃ item s, (b.recover now j x r).2 = .ok item ∧ item.jobID = j ∧
    (b.recover now j x r).1.Posted j (some (x.lane, s)) ∧ Recovers now item s := by
  apply recover_rule (Q := fun y => ∃ item s, y.2 = .ok item ∧ item.jobID = j ∧ y.1.Posted j (some (x.lane, s)) ∧
    Recovers now item s)
  case canceled =>
    intro _
    have hp := ho.posted_idle (f := (·.cancelExpired now)) (x := x.cancelExpired now) (by simp [hx]) rfl
      (by simp [JobHash.cancelExpired])
    exact ⟨_, _, rfl, rfl, hp, .inl ⟨.inl rfl, rfl⟩⟩
  case retrying =>
    intro s _ _ hs
    obtain ⟨s', hs', hl⟩ := hb.lt_retryAt hn x.attempts
    cases hs.symm.trans hs'
    let f (h : JobHash) := h.retryExpired (storedMillis (b.retryAt now x.attempts)) now
    have hp := ho.posted_delayed (f := f) (x := f x) (s := s) (by simp [hx]) rfl (by simp [f, JobHash.retryExpired])
    exact ⟨_, _, rfl, rfl, hp, .inr ⟨rfl, s, hl, rfl⟩⟩
  case aborted  =>
    intro _ _ he
    obtain ⟨s', hs', _⟩ := hb.lt_retryAt hn x.attempts
    rw [he] at hs'
    cases hs'
  case failed   =>
    intro _ _
    have hp := ho.posted_idle (f := (·.failExpired now)) (x := x.failExpired now) (by simp [hx]) rfl
      (by simp [JobHash.failExpired])
    exact ⟨_, _, rfl, rfl, hp.lpush_dlq, .inl ⟨.inr rfl, rfl⟩⟩

-- The sweep reports the lease that it has taken.
def Recovered (now : Int) (j : JobID) (e e' : Option (Lane × Standing)) (items : List RecoveredLease) : Prop :=
  ∃ item ∈ items, item.jobID = j ∧ ∃ l token expires canceled s,
    e = some (l, .leased token expires canceled) ∧ e' = some (l, s) ∧ Recovers now item s

theorem recoverAll {now : Int} {ids : List JobID} (hb : b.Patient) (h0 : 0 ≤ now) (hn : ids.Nodup) (h : r.Posted j e) :
    ∃ items e', (b.recoverAll now ids r).2 = .ok items ∧ (b.recoverAll now ids r).1.Posted j e' ∧
    ((j ∈ ids ∧ Recovered now j e e' items) ∨ ((∀ item ∈ items, item.jobID ≠ j) ∧ e' = e)) := by
  revert hn e
  apply hb.recoverAll_induction h0 (P := fun ids r x => ∀ {e}, ids.Nodup → r.Posted j e → ∃ items e', x.2 = .ok items ∧
    x.1.Posted j e' ∧ ((j ∈ ids ∧ Recovered now j e e' items) ∨ ((∀ item ∈ items, item.jobID ≠ j) ∧ e' = e)))
  case nil     => exact fun r e _ h => ⟨[], e, rfl, h, .inr ⟨List.forall_mem_nil _, rfl⟩⟩
  case skip    =>
    intro id rest r x hz hi e hn h
    obtain ⟨items, e', hok, h', hc⟩ := hi (List.nodup_cons.mp hn).right h
    exact ⟨items, e', hok, h', hc.imp_left <| .imp_left <| List.mem_cons_of_mem _⟩
  case absent  =>
    intro id rest r x hz hx hi e hn h
    have hu : r.Unchanged j (r.zrem .activeLeases id) := by
      refine .zrem fun hj => ?_
      obtain ⟨y, _, _, hy, _⟩ := h.of_leased (hj ▸ hz)
      cases hx.symm.trans (hj ▸ hy)
    obtain ⟨items, e', hok, h', hc⟩ := hi (List.nodup_cons.mp hn).right (h.of_unchanged hu)
    exact ⟨items, e', hok, h', hc.imp_left <| .imp_left <| List.mem_cons_of_mem _⟩
  case recover =>
    intro id rest r y item x hz hy hid hok hi e hn h
    obtain ⟨hm, hn'⟩ := List.nodup_cons.mp hn
    by_cases hj : j = id
    case neg =>
      obtain ⟨items, e', hok', h', hc⟩ := hi hn' (h.of_unchanged (.trans (.zrem hj) (recover_unchanged hj)))
      refine ⟨item :: items, e', by rw [hok']; rfl, h', ?_⟩
      obtain ⟨hr, item', hm', hs⟩ | ⟨hs, he⟩ := hc
      case inl => exact .inl ⟨List.mem_cons_of_mem _ hr, item', List.mem_cons_of_mem _ hm', hs⟩
      case inr => exact .inr ⟨List.forall_mem_cons.mpr ⟨fun he => hj (he.symm.trans hid), hs⟩, he⟩
    case pos =>
      subst hj
      obtain ⟨_, expires, canceled, hy', _, he, ho⟩ := h.of_leased hz
      cases hy.symm.trans hy'
      obtain ⟨item', s, hok', _, hp, hs⟩ := recover (r := r.zrem .activeLeases j) hb h0 hy ho.zrem_self
      cases hok.symm.trans hok'
      obtain ⟨items, e', hr, h', ⟨hj, _⟩ | ⟨_, rfl⟩⟩ := hi hn' hp
      case inl => exact absurd hj hm
      case inr =>
        refine ⟨item :: items, _, by rw [hr]; rfl, h', .inl ⟨List.mem_cons_self, item, List.mem_cons_self, hid, ?_⟩⟩
        exact ⟨y.lane, y.leaseToken, expires, canceled, s, he, rfl, hs⟩

theorem recoverExpired {limit : Int} (hb : b.Patient) (h0 : 0 ≤ now.unixMilli) : r.Answers (.recoverExpired limit now)
    (b.recoverExpiredLua limit now.unixMilli r).1 (b.recoverExpiredLua limit now.unixMilli r).2 := by
  intro j e h
  have hn : ((r.zsets .activeLeases).rangeByScore (.ofInt now.unixMilli) limit).Nodup := SortedSet.rangeByScore_nodup
  obtain ⟨items, e', hr, h', hc⟩ := recoverAll hb h0 hn h
  refine ⟨e', h', items, hr, hc.imp_left ?_⟩
  rintro ⟨hj, item, hm, hi, l, token, expires, c, s, he, he', hs⟩
  obtain ⟨s', hs', hl⟩ := SortedSet.mem_rangeByScore hj
  obtain ⟨x, _, _, _, hz, hx, _⟩ := h.of_leased (Option.isSome_of_eq_some hs')
  cases he.symm.trans hx
  cases hz.symm.trans hs'
  exact ⟨item, hm, hi, x.lane, _, _, _, s, hl, he, he', hs⟩

theorem exec {c : BrokerCall} (hb : b.Patient) (ha : Requeuing.Allowed r c) (h0 : ∀ now ∈ c.sweeps, 0 ≤ now.unixMilli) :
    r.Answers c (b.exec r c).1 (b.exec r c).2 := by
  cases c
  case enqueue          => exact enqueue ha
  case loadJob          => exact loadJob
  case dequeue          => exact dequeue
  case heartbeat        => exact heartbeat
  case complete         => exact complete ha
  case fail             => exact fail ha
  case requeueThrottled => exact requeueThrottled ha
  case activateDue      => exact activateDue
  case recoverExpired   => exact recoverExpired hb (h0 _ rfl)
  case retry            => exact retry ha
  case cancelLoaded     => exact cancelLoaded

end Answers
end Redis

namespace Board

-- The sweeps are made after the epoch.
def Allowed (r : Redis) (c : BrokerCall) : Prop :=
  Requeuing.Allowed r c ∧ ∀ now ∈ c.sweeps, 0 ≤ now.unixMilli

-- What is called and what is answered.
def see (b : RedisBroker) (r : Redis) (c : BrokerCall) : (c : BrokerCall) × Except Error c.Resp :=
  ⟨c, (b.exec r c).2⟩

-- Every job has an entry.
def Kept (r : Redis) : Prop :=
  ∀ j, ∃ e, r.Posted j e

variable {b : RedisBroker} {r : Redis} {c : BrokerCall} {cs : List BrokerCall}

theorem Kept.step (hb : b.Patient) (hr : Kept r) (ha : Allowed r c) : Kept (Requeuing.step b r c) := by
  intro j
  obtain ⟨e, he⟩ := hr j
  obtain ⟨e', he', _⟩ := Redis.Answers.exec hb ha.left ha.right j e he
  exact ⟨e', he'⟩

theorem Kept.next (hb : b.Patient) (hr : Kept r) (ha : Allowed r c) :
    Next r.board (see b r c) (Requeuing.step b r c).board := by
  intro j
  obtain ⟨e, he⟩ := hr j
  obtain ⟨e', he', hm⟩ := Redis.Answers.exec hb ha.left ha.right j e he
  have he' : (Requeuing.step b r c).board j = e' := he'.entry_eq
  rw [he.entry_eq, he']
  exact hm

theorem kept_empty : Kept .empty := by
  intro j
  obtain ⟨o, ho⟩ := Redis.Seated.empty j
  exact ⟨none, .absent rfl (ho.known rfl ▸ ho.only)⟩

-- What the broker answers in any order of calls is what the board answers.
theorem trace_of_allowed (hb : b.Patient) (hg : Run.Guarded (Requeuing.step b) Allowed .empty cs) :
    Trace Next .empty (Run.observe (Requeuing.step b) (see b) .empty cs)
      (Run.last (Requeuing.step b) .empty cs).board :=
  hg.trace Redis.board (fun _ _ => Kept.step hb) (fun _ _ => Kept.next hb) kept_empty

namespace Sample

open Docket.Sample

-- The job is put off once. It is canceled while its second worker holds it, and the worker does not come back.
def calls : List BrokerCall := [
  .enqueue submitted (time 0),
  .dequeue "worker-1" [] (30 * Duration.second) (time 0),
  .requeueThrottled submitted "5567c106259ceacb00ef1701815b187dca3f70c3" (time 5) "tenant limit" (time 1),
  .activateDue 200 (time 6),
  .dequeue "worker-2" [] (30 * Duration.second) (time 6),
  .cancelLoaded "job-1" { submitted with state := .active } (time 7),
  .recoverExpired 200 (time 37)
]

theorem calls_allowed : Run.Guarded (Requeuing.step .sample) Allowed .empty calls :=
  ⟨⟨⟨rfl, rfl, by decide⟩, nofun⟩, ⟨trivial, nofun⟩, ⟨by unfold Requeuing.Allowed; decide, nofun⟩,
    ⟨trivial, by decide⟩, ⟨trivial, nofun⟩, ⟨trivial, nofun⟩, ⟨trivial, by decide⟩, trivial⟩

end Sample

theorem trace_of_allowed_sample :
    Trace Next .empty (Run.observe (Requeuing.step .sample) (see .sample) .empty Sample.calls)
      (Run.last (Requeuing.step .sample) .empty Sample.calls).board :=
  trace_of_allowed ⟨by decide, by decide⟩ Sample.calls_allowed

end Board
end JobPlatform
