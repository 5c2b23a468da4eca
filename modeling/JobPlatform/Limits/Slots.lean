import JobPlatform.Limits.Rollback

namespace JobPlatform

-- A call to the limiter, and the time at which Redis executes it.
structure SlotCall where
  clock : Time
  call  : LimiterCall

-- The slots that have been granted under a policy, each to a job until a given millisecond.
abbrev Granted := List (String × Int)

structure Slots where
  time    : Time
  limits  : Limits
  granted : Granted

namespace Slots

variable (policyID : String)

def start (time : Time) (limits : Limits) : Slots where
  time    := time
  limits  := limits
  granted := []

-- The members which the script counts that runs at `clock` with the time `now`.
def counted (s : ExpiringSet) (clock now : Int) : SortedSet String Int :=
  (s.live clock).removeRangeByScore now

-- The slot that a call grants or renews, with the time and the lifetime of the call.
def grant (s : Slots) (clock : Time) : LimiterCall → Option (String × Time × Int)
  | .acquireConcurrency policy member now leaseTTL =>
    if policy.id = policyID ∧ (s.limits.exec clock (.acquireConcurrency policy member now leaseTTL)).2.1
      then some (member, now, leaseTTL.milliseconds) else none
  | .renewConcurrency id member now leaseTTL =>
    if id = policyID ∧ ((counted (s.limits.concurrency id) clock.unixMilli now.unixMilli).score? member).isSome
      then some (member, now, leaseTTL.milliseconds) else none
  | _ => none

-- The job whose slot is given up by a call.
def release : LimiterCall → Option String
  | .releaseConcurrency id member => if id = policyID then some member else none
  | _                             => none

def step (s : Slots) (c : SlotCall) : Slots where
  time    := c.clock
  limits  := (s.limits.exec c.clock c.call).1
  granted := (s.granted.filter fun x => release policyID c.call ≠ some x.1) ++
    (s.grant policyID c.clock c.call).toList.map fun (member, now, ttl) => (member, now.unixMilli + ttl)

-- The slots that are still granted at a time.
def slotsAt (s : Slots) (t : Time) : List String :=
  ((s.granted.filter (t.unixMilli < ·.2)).map (·.1)).dedup

-- Each slot lasts as long as it was granted for, so no acquire counts fewer members than there are slots.
structure Lasting (s : Slots) : Prop where
  members : ∀ x ∈ s.granted, ∀ t, s.time ≤ t → t.unixMilli < x.2 →
    (((s.limits.concurrency policyID).live t.unixMilli).score? x.1).isSome
  counts  : ∀ t, s.time ≤ t →
    (s.slotsAt t).length ≤ (counted (s.limits.concurrency policyID) t.unixMilli t.unixMilli).card

-- The time with which a worker makes a call.
def now? : LimiterCall → Option Time
  | .acquireRate _ _ now          => some now
  | .acquireConcurrency _ _ now _ => some now
  | .renewConcurrency _ _ now _   => some now
  | _                             => none

-- The clock does not run backwards, and a worker has read it before its call is executed.
def Regular (s : Slots) (c : SlotCall) : Prop :=
  s.time ≤ c.clock ∧ ∀ now ∈ now? c.call, now ≤ c.clock

instance {s c} : Decidable (Regular s c) :=
  inferInstanceAs (Decidable (_ ∧ _))

-- A call that grants or renews a slot does not end it earlier than before, and the lifetime which it
-- gives to the key is not shorter than what is left to the other slots.
def Outlasts (s : Slots) (c : SlotCall) : Prop :=
  ∀ g ∈ s.grant policyID c.clock c.call, ∀ x ∈ ((s.limits.concurrency policyID).live c.clock.unixMilli).entries,
    c.clock.unixMilli < x.2 → x.2 ≤ (if x.1 = g.1 then g.2.1.unixMilli else c.clock.unixMilli) + g.2.2

instance {s c} : Decidable (Outlasts policyID s c) :=
  inferInstanceAs (Decidable (∀ g ∈ _, ∀ x ∈ _, _))

variable {policyID : String} {s : ExpiringSet} {j member : String} {e e' clock now ttl : Int}

-- The set keeps the job until the given time.
structure Keeps (s : ExpiringSet) (j : String) (e : Int) : Prop where
  score  : ∃ e' ≥ e, s.members.score? j = some e'
  expiry : ∀ x ∈ s.expiresAt, e ≤ x

namespace Keeps

theorem live (h : Keeps s j e) (hc : clock < e) : s.live clock = s.members := by
  refine if_neg fun ha => ?_
  have ⟨x, hx, hl⟩ := (Option.any_eq_true ..).mp ha
  exact absurd ((h.expiry x hx).trans (of_decide_eq_true hl)) (not_le.mpr hc)

theorem counted (h : Keeps s j e) (hc : clock < e) (hn : now ≤ clock) :
    ∃ e' ≥ e, (Slots.counted s clock now).score? j = some e' := by
  have ⟨e', he, hs⟩ := h.score
  have hl : now < e' := by omega
  exact ⟨e', he, by simp [Slots.counted, SortedSet.score?_removeRangeByScore, h.live hc, hs, hl]⟩

-- Members that have expired may be taken out.
theorem purge (h : Keeps s j e) (hc : clock < e) (hn : now ≤ clock) :
    Keeps { s with members := Slots.counted s clock now } j e where
  score  := h.counted hc hn
  expiry := h.expiry

theorem release (h : Keeps s j e) (hc : clock < e) (hm : j ≠ member) :
    Keeps (Limits.releaseLua member clock s) j e where
  score  := by
    have ⟨e', he, hs⟩ := h.score
    exact ⟨e', he, by simp [Limits.releaseLua, h.live hc, SortedSet.score?_remove_ne hm, hs]⟩
  expiry := h.expiry

-- Another slot does not end this one.
theorem extend (h : Keeps s j e) (hc : clock < e) (hn : now ≤ clock)
    (ho : ∀ x ∈ (s.live clock).entries, clock < x.2 → x.2 ≤ (if x.1 = member then now else clock) + ttl) :
    Keeps (.expire ((Slots.counted s clock now).add member (now + ttl)) clock ttl) j e := by
  obtain ⟨e', he, hs⟩ := h.score
  have hm : ⟨j, e'⟩ ∈ (s.live clock).entries := SortedSet.mem_entries_iff.mpr (h.live hc ▸ hs)
  have ho : e' ≤ (if j = member then now else clock) + ttl := ho _ hm (by dsimp only; omega)
  have hl : e' ≤ clock + ttl := by split at ho <;> omega
  rw [ExpiringSet.expire, if_neg (by omega)]
  constructor
  case expiry => simpa using he.le.trans hl
  case score  =>
    by_cases hj : j = member
    case pos => exact ⟨now + ttl, by simp only [hj, if_true] at ho; omega, by simp [hj]⟩
    case neg =>
      obtain ⟨e', he, hs⟩ := h.counted hc hn
      exact ⟨e', he, by simp [SortedSet.score?_add_ne hj, hs]⟩

theorem new {members : SortedSet String Int} (hc : clock < now + ttl) (hn : now ≤ clock) :
    Keeps (.expire (members.add member (now + ttl)) clock ttl) member (now + ttl) := by
  rw [ExpiringSet.expire, if_neg (by omega)]
  exact ⟨⟨now + ttl, le_rfl, by simp⟩, by simpa using hn⟩

end Keeps

-- What a call does to the set of the policy.
inductive Effect (policyID : String) (s : Slots) (c : SlotCall) (set' : ExpiringSet) : Prop
  | grants (member : String) (now : Time) (ttl : Int)
    (grant : s.grant policyID c.clock c.call = some (member, now, ttl)) (read : now? c.call = some now)
    (set : set' = .expire ((counted (s.limits.concurrency policyID) c.clock.unixMilli now.unixMilli).add member
      (now.unixMilli + ttl)) c.clock.unixMilli ttl)
  | purges (now : Time) (grant : s.grant policyID c.clock c.call = none) (read : now? c.call = some now)
    (set : set' = { s.limits.concurrency policyID with
      members := counted (s.limits.concurrency policyID) c.clock.unixMilli now.unixMilli })
  | releases (member : String) (grant : s.grant policyID c.clock c.call = none)
    (release : release policyID c.call = some member)
    (set : set' = Limits.releaseLua member c.clock.unixMilli (s.limits.concurrency policyID))
  | spares (grant : s.grant policyID c.clock c.call = none) (set : set' = s.limits.concurrency policyID)

section

variable {s : Slots} {c : SlotCall} {cs : List SlotCall}

theorem exec_effect : Effect policyID s c ((s.limits.exec c.clock c.call).1.concurrency policyID) := by
  obtain ⟨clock, call⟩ := c
  cases call
  case acquireRate => exact .spares rfl rfl
  case releaseRate => exact .spares rfl rfl
  case releaseConcurrency id member =>
    by_cases hi : id = policyID
    case neg => exact .spares rfl (Function.update_of_ne (Ne.symm hi) ..)
    case pos =>
      subst hi
      exact .releases member rfl (if_pos rfl) (Function.update_self ..)
  case renewConcurrency id member now leaseTTL =>
    by_cases hi : id = policyID
    case neg => exact .spares (by simp [grant, hi]) (Function.update_of_ne (Ne.symm hi) ..)
    case pos =>
      subst hi
      have hs : (s.limits.exec clock (.renewConcurrency id member now leaseTTL)).1.concurrency id =
          Limits.renewConcurrencyLua now.unixMilli leaseTTL.milliseconds member clock.unixMilli
            (s.limits.concurrency id) := Function.update_self ..
      rw [hs, Limits.renewConcurrencyLua]
      split
      case isTrue h  => exact .grants member now leaseTTL.milliseconds (by simp [grant, counted, h]) rfl rfl
      case isFalse h => exact .purges now (by simp [grant, counted, h]) rfl rfl
  case acquireConcurrency policy member now leaseTTL =>
    by_cases hi : policy.id = policyID
    case neg => exact .spares (by simp [grant, hi]) (Function.update_of_ne (Ne.symm hi) ..)
    case pos =>
      subst hi
      have hs : (s.limits.exec clock (.acquireConcurrency policy member now leaseTTL)).1.concurrency policy.id =
          (Limits.acquireConcurrencyLua now.unixMilli policy.limit leaseTTL.milliseconds member clock.unixMilli
            (s.limits.concurrency policy.id)).1 := Function.update_self ..
      have hr : (s.limits.exec clock (.acquireConcurrency policy member now leaseTTL)).2.1 =
          (Limits.acquireConcurrencyLua now.unixMilli policy.limit leaseTTL.milliseconds member clock.unixMilli
            (s.limits.concurrency policy.id)).2.1 := rfl
      have hg {b : Bool} (hb : (s.limits.exec clock (.acquireConcurrency policy member now leaseTTL)).2.1 = b) :
          s.grant policy.id clock (.acquireConcurrency policy member now leaseTTL) =
            if b then some (member, now, leaseTTL.milliseconds) else none := by
        simp [grant, ← hb]
      rw [hs]
      rw [Limits.acquireConcurrencyLua] at hr ⊢
      split
      case isTrue h  => exact .grants member now leaseTTL.milliseconds (hg (b := true) (by rw [hr, if_pos h])) rfl rfl
      case isFalse h => exact .purges now (hg (b := false) (by rw [hr, if_neg h])) rfl rfl

-- The set of the policy keeps every job for as long as its slot was granted for.
def Sound (policyID : String) (s : Slots) : Prop :=
  ∀ x ∈ s.granted, s.time.unixMilli < x.2 → Keeps (s.limits.concurrency policyID) x.1 x.2

namespace Sound

theorem start {time : Time} {limits : Limits} : Sound policyID (start time limits) :=
  fun _ hx => absurd hx List.not_mem_nil

theorem step (h : Sound policyID s) (hr : Regular s c ∧ Outlasts policyID s c) : Sound policyID (step policyID s c) := by
  have ⟨⟨hc, hn⟩, ho⟩ := hr
  have hc := Time.unixMilli_mono hc
  intro x hx ht
  have ht : c.clock.unixMilli < x.2 := ht
  simp only [Slots.step, List.mem_append, List.mem_filter, decide_eq_true_eq, List.mem_map,
    Option.mem_toList] at hx
  have he : Effect policyID s c ((Slots.step policyID s c).limits.concurrency policyID) := exec_effect
  have old (hg : x ∈ s.granted) : Keeps (s.limits.concurrency policyID) x.1 x.2 := h x hg (by omega)
  cases he
  case spares hg hs =>
    have ⟨hm, _⟩ := hx.resolve_right (by simp [hg])
    exact hs ▸ old hm
  case purges now hg hnow hs =>
    have ⟨hm, _⟩ := hx.resolve_right (by simp [hg])
    exact hs ▸ (old hm).purge ht (Time.unixMilli_mono (hn now hnow))
  case releases member hg hrel hs =>
    have ⟨hm, hne⟩ := hx.resolve_right (by simp [hg])
    exact hs ▸ (old hm).release ht fun he => hne (he ▸ hrel)
  case grants member now ttl hg hnow hs =>
    have hn := Time.unixMilli_mono (hn now hnow)
    rw [hs]
    cases hx
    case inl hx => exact (old hx.left).extend ht hn (ho _ hg)
    case inr hx =>
      obtain ⟨⟨member', now', ttl'⟩, hx, he⟩ := hx
      cases hg.symm.trans hx
      subst he
      exact .new ht hn

theorem lasting (h : Sound policyID s) : Lasting policyID s := by
  have hk {t : Time} (ht : s.time ≤ t) (x) (hx : x ∈ s.granted) (he : t.unixMilli < x.2) :
      Keeps (s.limits.concurrency policyID) x.1 x.2 :=
    h x hx ((Time.unixMilli_mono ht).trans_lt he)
  constructor
  case members =>
    intro x hx t ht he
    have hk := hk ht x hx he
    have ⟨e, _, hs⟩ := hk.score
    rw [hk.live he, hs]
    rfl
  case counts =>
    intro t ht
    refine SortedSet.length_le_card (List.nodup_dedup _) fun m hm => ?_
    have ⟨x, hx, he⟩ := List.mem_map.mp (List.mem_dedup.mp hm)
    have ⟨hx, hl⟩ := List.mem_filter.mp hx
    have hl := of_decide_eq_true hl
    have ⟨e, _, hs⟩ := (hk ht x hx hl).counted hl le_rfl
    exact he ▸ Option.isSome_of_mem hs

end Sound

-- If no call shortens what is left to a slot, each slot lasts as long as it was granted for.
theorem lasting_of_outlasting {time : Time} {limits : Limits}
    (hg : Run.Guarded (step policyID) (fun s c => Regular s c ∧ Outlasts policyID s c) (start time limits) cs) :
    Lasting policyID (Run.last (step policyID) (start time limits) cs) :=
  (hg.invariant (fun _ _ => Sound.step) Sound.start).lasting

end

namespace Sample

def policy : RateLimitPolicy :=
  { Admissions.Sample.policy with mode := .concurrency }

-- A worker whose leases live so many seconds acquires a slot for a job.
def acquire (jobID : JobID) (ms : Int) (seconds : Int) : SlotCall where
  clock := .ofUnixMilli ms
  call  := .acquireConcurrency policy jobID (.ofUnixMilli ms) (seconds * Duration.second)

def begin : Slots :=
  start (.ofUnixMilli 1700000000000) .empty

end Sample

theorem lasting_of_outlasting_sample : Lasting "policy-1" (Run.last (step "policy-1") Sample.begin
    [Sample.acquire "job-1" 1700000001000 30, Sample.acquire "job-2" 1700000002000 60]) :=
  lasting_of_outlasting (by decide +kernel)

-- Another worker has shorter leases, and the slot of the first job is lost with the whole key. There
-- are three slots under a limit of two then.
theorem not_lasting_of_shorter :
    let cs := [Sample.acquire "job-1" 1700000001000 30, Sample.acquire "job-2" 1700000002000 1,
      Sample.acquire "job-3" 1700000003500 30, Sample.acquire "job-4" 1700000004000 30]
    let s := Run.last (step "policy-1") Sample.begin cs
    Run.Guarded (step "policy-1") Regular Sample.begin cs ∧ ¬Lasting "policy-1" s ∧
    (s.slotsAt s.time).length = 3 ∧ Sample.policy.limit = 2 := by
  refine ⟨by decide +kernel, fun h => ?_, by decide +kernel, rfl⟩
  have h := h.members ("job-1", 1700000031000) (by decide +kernel) (.ofUnixMilli 1700000004000) (by decide +kernel)
    (by decide)
  revert h
  decide +kernel

end Slots
end JobPlatform
