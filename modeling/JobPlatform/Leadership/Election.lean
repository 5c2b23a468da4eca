import JobPlatform.Leadership.Redis
import JobPlatform.Library.Run
import JobPlatform.System.World

namespace JobPlatform

-- What a scheduler remembers. Its leadership TTL only changes when it is restarted.
structure Candidate where
  schedulerID   : String
  leadershipTTL : Duration
  leaderToken   : Token
  isLeader      : Bool

-- The last time that a scheduler acquired the leadership, unless it has released it since.
structure Term where
  token    : Token
  since    : Int
  duration : Int

-- The schedulers compete for the key. They draw new tokens, and `drawn` says by whom.
structure Election where
  time       : Time
  key        : Option LeaderKey
  candidates : Nat → Candidate
  terms      : Nat → Option Term
  drawn      : List (Token × Nat)

inductive ElectionLabel
  | tryAcquire (i : Nat) (uuid : Token) (now : Time) (fault : Fault)
  | release (i : Nat) (now : Time) (fault : Fault)
  | start (i : Nat) (schedulerID : String) (leadershipTTL : Duration) (now : Time)

namespace ElectionLabel

def scheduler : ElectionLabel → Nat
  | tryAcquire i .. => i
  | release i ..    => i
  | start i ..      => i

def now : ElectionLabel → Time
  | tryAcquire _ _ now _ => now
  | release _ now _      => now
  | start _ _ _ now      => now

end ElectionLabel

namespace Election

-- A scheduler that has not been configured has the default TTL.
def initial (time : Time) : Election where
  time         := time
  key          := none
  candidates _ :=
    { schedulerID := "scheduler", leadershipTTL := 15 * Duration.second, leaderToken := "", isLeader := false }
  terms _      := none
  drawn        := []

-- The token that `TryAcquire` uses, which is drawn if there is none yet.
def token (s : Election) (i : Nat) (uuid : Token) : Token :=
  if (s.candidates i).leaderToken = "" then uuid else (s.candidates i).leaderToken

def draw (s : Election) (i : Nat) (uuid : Token) : List (Token × Nat) :=
  if (s.candidates i).leaderToken = "" then (uuid, i) :: s.drawn else s.drawn

-- `ensureLeadership` takes over the answer of `TryAcquire`, but nothing if it fails.
def ensured (s : Election) (i : Nat) (uuid : Token) (now : Time) (acquired : Bool) : Election :=
  { s with
    candidates := Function.update s.candidates i
      { s.candidates i with leaderToken := s.token i uuid, isLeader := acquired }
    terms := if acquired
      then Function.update s.terms i <| some {
        token    := s.token i uuid
        since    := now.unixMilli
        duration := (s.candidates i).leadershipTTL.milliseconds
      }
      else s.terms
  }

def acquireLeader (s : Election) (i : Nat) (uuid : Token) (now : Time) : Option LeaderKey × Bool :=
  let c := s.candidates i
  LeaderKey.acquireLeaderLua c.schedulerID (s.token i uuid) now.unixMilli (now + c.leadershipTTL).unixMilli
    c.leadershipTTL.milliseconds now.unixMilli s.key

def tryAcquire (s : Election) (i : Nat) (uuid : Token) (now : Time) (fault : Fault) : Election :=
  let (key, acquired) := s.acquireLeader i uuid now
  match fault with
  | .none    => { s.ensured i uuid now acquired with time := now, drawn := s.draw i uuid, key }
  | .refused => { s with time := now, drawn := s.draw i uuid }
  | .lost    => { s with time := now, drawn := s.draw i uuid, key }

def release (s : Election) (i : Nat) (now : Time) (fault : Fault) : Election :=
  let token := (s.candidates i).leaderToken
  if token = "" ∨ fault = .refused then
    { s with time := now }
  else
    { s with
      time  := now
      key   := LeaderKey.releaseLeaderLua token now.unixMilli s.key
      terms := if (s.terms i).any (·.token = token) then Function.update s.terms i none else s.terms
    }

def step (s : Election) : ElectionLabel → Election
  | .tryAcquire i uuid now fault => s.tryAcquire i uuid now fault
  | .release i now fault         => s.release i now fault
  | .start i schedulerID leadershipTTL now =>
    { s with
      time       := now
      candidates := Function.update s.candidates i
        { schedulerID, leadershipTTL, leaderToken := "", isLeader := false }
    }

-- Time does not run backwards, each token is drawn only once, and each TTL is at least a millisecond.
def Allowed (s : Election) : ElectionLabel → Prop
  | .tryAcquire _ uuid now _     => s.time ≤ now ∧ uuid ≠ "" ∧ uuid ∉ s.drawn.map (·.1)
  | .release _ now _             => s.time ≤ now
  | .start _ _ leadershipTTL now => s.time ≤ now ∧ 0 < leadershipTTL.milliseconds

instance Allowed.decidable {s : Election} : (l : ElectionLabel) → Decidable (s.Allowed l)
  | .tryAcquire _ _ _ _ => inferInstanceAs (Decidable (_ ∧ _ ∧ _))
  | .release _ _ _      => inferInstanceAs (Decidable (_ ≤ _))
  | .start _ _ _ _      => inferInstanceAs (Decidable (_ ∧ _))

-- The scheduler has acquired the leadership within its last TTL, and has not released it since.
def Leads (s : Election) (i : Nat) (time : Time) : Prop :=
  ∃ t, s.terms i = some t ∧ time.unixMilli < t.since + t.duration

-- The invariant of the election.
structure Sound (s : Election) : Prop where
  ttl       : ∀ i, 0 < (s.candidates i).leadershipTTL.milliseconds
  drawer    : ∀ t i j, (t, i) ∈ s.drawn → (t, j) ∈ s.drawn → i = j
  nonempty  : ∀ t i, (t, i) ∈ s.drawn → t ≠ ""
  candidate : ∀ i, (s.candidates i).leaderToken ≠ "" → ((s.candidates i).leaderToken, i) ∈ s.drawn
  term      : ∀ i t, s.terms i = some t → (t.token, i) ∈ s.drawn ∧ t.since ≤ s.time.unixMilli
  duration  : ∀ i t, s.terms i = some t → (s.candidates i).leaderToken = t.token →
    t.duration = (s.candidates i).leadershipTTL.milliseconds
  held      : ∀ i t, s.terms i = some t → s.time.unixMilli < t.since + t.duration →
    ∃ k, s.key = some k ∧ k.token = t.token ∧ t.since + t.duration ≤ k.expiresAt

variable {s : Election} {i j : Nat} {uuid : Token} {now : Time} {fault : Fault}

theorem acquireLeader_cases (s : Election) {i : Nat} (uuid : Token) (now : Time)
    (h : 0 < (s.candidates i).leadershipTTL.milliseconds) :
    (s.acquireLeader i uuid now = (LeaderKey.live s.key now.unixMilli, false) ∧
      ∃ k, LeaderKey.live s.key now.unixMilli = some k ∧ k.token ≠ s.token i uuid) ∨
    ((∀ k, LeaderKey.live s.key now.unixMilli = some k → k.token = s.token i uuid) ∧
      ∃ k, s.acquireLeader i uuid now = (some k, true) ∧ k.token = s.token i uuid ∧
        k.expiresAt = now.unixMilli + (s.candidates i).leadershipTTL.milliseconds) :=
  LeaderKey.acquireLeaderLua_cases h

namespace Sound

theorem initial : Sound (initial now) where
  ttl _              := by simp [Election.initial]; decide
  drawer _ _ _ h     := nomatch h
  nonempty _ _ h     := nomatch h
  candidate _ h      := absurd rfl h
  term _ _ h         := nomatch h
  duration _ _ h     := nomatch h
  held _ _ h         := nomatch h

-- As time goes by, nothing happens to the key of a term that still runs.
theorem wait (h : Sound s) (hn : s.time ≤ now) : Sound { s with time := now } :=
  have hm := Time.unixMilli_mono hn
  { h with
    term := fun i t ht => ⟨(h.term i t ht).left, (h.term i t ht).right.trans hm⟩
    held := fun i t ht hl => h.held i t ht (lt_of_le_of_lt hm hl)
  }

theorem mem_draw (h : Sound s) (i : Nat) (uuid : Token) : (s.token i uuid, i) ∈ s.draw i uuid := by
  unfold token draw
  split
  case isTrue     => exact List.mem_cons_self
  case isFalse hn => exact h.candidate i hn

theorem mem_draw_of_mem {t : Token} (h : (t, j) ∈ s.drawn) : (t, j) ∈ s.draw i uuid := by
  unfold Election.draw
  split
  case isTrue  => exact List.mem_cons_of_mem _ h
  case isFalse => exact h

theorem draw (h : Sound s) (hu : uuid ≠ "") (hf : uuid ∉ s.drawn.map (·.1)) :
    Sound { s with drawn := s.draw i uuid } := by
  have hm (t j) (h : (t, j) ∈ s.draw i uuid) : (t, j) = (uuid, i) ∨ (t, j) ∈ s.drawn := by
    unfold Election.draw at h
    split at h
    case isTrue  => exact List.mem_cons.mp h
    case isFalse => exact .inr h
  constructor
  case ttl       => exact h.ttl
  case duration  => exact h.duration
  case held      => exact h.held
  case term      => exact fun j t ht => ⟨mem_draw_of_mem (h.term j t ht).left, (h.term j t ht).right⟩
  case candidate => exact fun j hj => mem_draw_of_mem (h.candidate j hj)
  case nonempty  =>
    intro t j ht
    match hm t j ht with
    | .inl he => cases he; exact hu
    | .inr ht => exact h.nonempty t j ht
  case drawer    =>
    intro t j k hj hk
    match hm t j hj, hm t k hk with
    | .inl hj, .inl hk => cases hj; cases hk; rfl
    | .inl hj, .inr hk => cases hj; exact absurd (List.mem_map_of_mem hk) hf
    | .inr hj, .inl hk => cases hk; exact absurd (List.mem_map_of_mem hj) hf
    | .inr hj, .inr hk => exact h.drawer t j k hj hk

-- The key of a term that still runs is live.
theorem live (h : Sound s) (hn : s.time ≤ now) {t : Term} (ht : s.terms i = some t)
    (hl : now.unixMilli < t.since + t.duration) :
    ∃ k, LeaderKey.live s.key now.unixMilli = some k ∧ k.token = t.token ∧ t.since + t.duration ≤ k.expiresAt := by
  have ⟨k, hk, ht, he⟩ := h.held i t ht (lt_of_le_of_lt (Time.unixMilli_mono hn) hl)
  exact ⟨k, LeaderKey.live_eq_some.mpr ⟨hk, hl.trans_le he⟩, ht, he⟩

-- A key that is not live can be forgotten.
theorem forget (h : Sound s) : Sound { s with key := LeaderKey.live s.key s.time.unixMilli } :=
  { h with held := fun _ _ ht hl => h.live le_rfl ht hl }

-- If the key is free or already that of the scheduler, no other term runs.
theorem running (h : Sound s) (ht : (s.token i uuid, i) ∈ s.drawn)
    (hk : ∀ k, LeaderKey.live s.key s.time.unixMilli = some k → k.token = s.token i uuid) {t : Term}
    (hj : s.terms j = some t) (hl : s.time.unixMilli < t.since + t.duration) : j = i ∧ t.token = s.token i uuid := by
  have ⟨k, hs, he, _⟩ := h.live le_rfl hj hl
  have he : t.token = s.token i uuid := he.symm.trans (hk k hs)
  exact ⟨h.drawer _ _ _ (he ▸ (h.term j t hj).left) ht, he⟩

-- What is left of the scheduler if it takes over an answer.
theorem ensured_candidate (h : Sound s) (now : Time) (acquired : Bool) (ht : (s.token i uuid, i) ∈ s.drawn) :
    (∀ j, 0 < ((s.ensured i uuid now acquired).candidates j).leadershipTTL.milliseconds) ∧
    (∀ j, ((s.ensured i uuid now acquired).candidates j).leaderToken ≠ "" →
      (((s.ensured i uuid now acquired).candidates j).leaderToken, j) ∈ s.drawn) := by
  refine ⟨fun j => ?_, fun j => ?_⟩
  · by_cases hj : j = i
    case pos => simp [ensured, hj, h.ttl i]
    case neg => simp [ensured, hj, h.ttl j]
  · by_cases hj : j = i
    case pos => simp [ensured, hj, ht]
    case neg => simpa [ensured, hj] using h.candidate j

theorem refuse (h : Sound s) (ht : (s.token i uuid, i) ∈ s.drawn)
    (hd : ∀ t, s.terms i = some t → s.token i uuid = t.token → (s.candidates i).leaderToken = t.token) :
    Sound (s.ensured i uuid now false) := by
  have ⟨hl, hc⟩ := h.ensured_candidate now false ht
  refine { h with ttl := hl, candidate := hc, duration := fun j t hj he => ?_ }
  by_cases hi : j = i
  case neg => simpa [ensured, hi] using h.duration j t hj (by simpa [ensured, hi] using he)
  case pos =>
    subst hi
    simpa [ensured] using h.duration j t hj (hd t hj (by simpa [ensured] using he))

-- The key is extended for the scheduler.
theorem extend (h : Sound s) (ht : (s.token i uuid, i) ∈ s.drawn)
    (hd : ∀ t, s.terms i = some t → s.token i uuid = t.token → (s.candidates i).leaderToken = t.token)
    (hk : ∀ k, LeaderKey.live s.key s.time.unixMilli = some k → k.token = s.token i uuid) {k : LeaderKey}
    (hn : k.token = s.token i uuid)
    (he : k.expiresAt = s.time.unixMilli + (s.candidates i).leadershipTTL.milliseconds) :
    Sound { s with key := some k } := by
  refine { h with held := fun j t hj hl => ⟨k, rfl, ?_⟩ }
  have ⟨hi, hs⟩ := h.running ht hk hj hl
  subst hi
  have hm := (h.term j t hj).right
  rw [h.duration j t hj (hd t hj hs.symm), he]
  exact ⟨hn.trans hs.symm, by simpa using hm⟩

theorem acquire (h : Sound s) (ht : (s.token i uuid, i) ∈ s.drawn)
    (hk : ∀ k, LeaderKey.live s.key s.time.unixMilli = some k → k.token = s.token i uuid) {k : LeaderKey}
    (hn : k.token = s.token i uuid)
    (he : k.expiresAt = s.time.unixMilli + (s.candidates i).leadershipTTL.milliseconds) :
    Sound { s.ensured i uuid s.time true with key := some k } := by
  have ⟨hl, hc⟩ := h.ensured_candidate s.time true ht
  have hi (j) : (s.ensured i uuid s.time true).terms j = if j = i then some {
        token    := s.token i uuid
        since    := s.time.unixMilli
        duration := (s.candidates i).leadershipTTL.milliseconds
      } else s.terms j := by
    simp [ensured, Function.update_apply]
  refine {
    h with
    ttl := hl, candidate := hc, term := fun j t hj => ?_, duration := fun j t hj hs => ?_, held := fun j t hj hr => ?_
  }
  all_goals
    simp only [hi] at hj
    split at hj
  · cases hj
    subst j
    exact ⟨ht, le_rfl⟩
  · exact h.term j t hj
  · cases hj
    subst j
    simp [ensured]
  · simp_all [ensured]
    exact h.duration j t hj hs
  · cases hj
    exact ⟨k, rfl, hn, he.ge⟩
  · have ⟨hj, _⟩ := h.running ht hk hj hr
    contradiction

theorem tryAcquire (h : Sound s) (hn : s.time ≤ now) (hu : uuid ≠ "") (hf : uuid ∉ s.drawn.map (·.1)) :
    Sound (s.tryAcquire i uuid now fault) := by
  have hd (t) (hi : s.terms i = some t) (he : s.token i uuid = t.token) :
      (s.candidates i).leaderToken = t.token := by
    unfold token at he
    split at he
    case isTrue  => exact absurd (List.mem_map_of_mem (he ▸ (h.term i t hi).left)) hf
    case isFalse => exact he
  have ht := h.mem_draw i uuid
  have h  := (h.draw (i := i) hu hf).wait hn
  unfold Election.tryAcquire
  match s.acquireLeader_cases uuid now (h.ttl i) with
  | .inl ⟨he, _⟩ =>
    rw [he]
    cases fault
    case none    => exact (h.refuse ht hd).forget
    case refused => exact h
    case lost    => exact h.forget
  | .inr ⟨hk, k, he, hn, hx⟩ =>
    rw [he]
    cases fault
    case none    => exact h.acquire ht hk hn hx
    case refused => exact h
    case lost    => exact h.extend ht hd hk hn hx

-- The terms that are left when a token is given up.
theorem release_terms {t : Term} (hj : (s.release i now fault).terms j = some t) :
    s.terms j = some t := by
  unfold Election.release at hj
  dsimp only at hj
  split at hj
  case isTrue  => exact hj
  case isFalse =>
    dsimp only at hj
    split at hj
    case isFalse => exact hj
    case isTrue  =>
      simp only [Function.update_apply] at hj
      split at hj
      case isTrue  => cases hj
      case isFalse => exact hj

theorem release (h : Sound s) (hn : s.time ≤ now) : Sound (s.release i now fault) := by
  have h := h.wait hn
  have hterms {j t} := @release_terms s i j now fault t
  unfold Election.release at hterms ⊢
  dsimp only at hterms ⊢
  split
  case isTrue     => exact h
  case isFalse ht =>
    simp only [ht, if_false] at hterms
    have ht := h.candidate i (not_or.mp ht).left
    refine {
      h with
      term     := fun j t hj => h.term j t (hterms hj)
      duration := fun j t hj => h.duration j t (hterms hj)
      held     := fun j t hj hl => ?_
    }
    have ⟨k, hk, hs, he⟩ := h.live le_rfl (hterms hj) hl
    refine ⟨k, LeaderKey.releaseLeaderLua_eq_some.mpr ⟨hk, fun hn => ?_⟩, hs, he⟩
    have hs : t.token = (s.candidates i).leaderToken := hs.symm.trans hn
    have hi : j = i := h.drawer _ _ _ (hs ▸ (h.term j t (hterms hj)).left) ht
    have hr : s.terms i = some t := hi ▸ hterms hj
    simp [hr, hs, hi] at hj

theorem start (h : Sound s) (hn : s.time ≤ now) {schedulerID : String} {leadershipTTL : Duration}
    (hl : 0 < leadershipTTL.milliseconds) : Sound (s.step (.start i schedulerID leadershipTTL now)) := by
  have h := h.wait hn
  have hc (j) : (s.step (.start i schedulerID leadershipTTL now)).candidates j = if j = i
      then { schedulerID, leadershipTTL, leaderToken := "", isLeader := false } else s.candidates j := by
    simp [step, Function.update_apply]
  refine { h with ttl := fun j => ?_, candidate := fun j hj => ?_, duration := fun j t hj he => ?_ }
  · rw [hc]
    split
    · exact hl
    · exact h.ttl j
  · rw [hc] at hj ⊢
    split at hj
    case isTrue     => exact absurd rfl hj
    case isFalse hn =>
      rw [if_neg hn]
      exact h.candidate j hj
  · rw [hc] at he ⊢
    split at he
    case isTrue     => exact absurd he.symm (h.nonempty _ _ (h.term j t hj).left)
    case isFalse hn =>
      rw [if_neg hn]
      exact h.duration j t hj he

theorem step {l : ElectionLabel} (h : Sound s) (ha : s.Allowed l) : Sound (s.step l) := by
  cases l
  case tryAcquire => exact h.tryAcquire ha.left ha.right.left ha.right.right
  case release    => exact h.release ha
  case start      => exact h.start ha.left ha.right

end Sound

-- What a scheduler can rely on. Others are spared by whatever it does itself.
structure Exclusive (s : Election) : Prop where
  one    : ∀ i j time, s.time ≤ time → s.Leads i time → s.Leads j time → i = j
  kept   : ∀ i t time, s.time ≤ time → s.terms i = some t → time.unixMilli < t.since + t.duration →
    ∃ k, LeaderKey.live s.key time.unixMilli = some k ∧ k.token = t.token
  renews : ∀ i t uuid now, s.time ≤ now → s.terms i = some t → now.unixMilli < t.since + t.duration →
    (s.candidates i).leaderToken = t.token → (s.acquireLeader i uuid now).2 = true
  spares : ∀ l i k, s.Allowed l → l.scheduler ≠ i → (k.token, i) ∈ s.drawn →
    LeaderKey.live s.key l.now.unixMilli = some k → (s.step l).key = some k

namespace Sound

theorem spares {l : ElectionLabel} {k : LeaderKey} (h : Sound s) (ha : s.Allowed l) (hi : l.scheduler ≠ i)
    (hd : (k.token, i) ∈ s.drawn) (hk : LeaderKey.live s.key l.now.unixMilli = some k) :
    (s.step l).key = some k := by
  have hs : s.key = some k := (LeaderKey.live_eq_some.mp hk).left
  cases l
  case start      => exact hs
  case release j now fault =>
    simp only [Election.step, Election.release]
    split
    case isTrue     => exact hs
    case isFalse hn =>
      have hj := h.candidate j (not_or.mp hn).left
      refine LeaderKey.releaseLeaderLua_eq_some.mpr ⟨hk, fun he => ?_⟩
      exact hi <| h.drawer _ _ _ hj (he ▸ hd)
  case tryAcquire j uuid now fault =>
    simp only [Election.step, Election.tryAcquire]
    match s.acquireLeader_cases uuid now (h.ttl j) with
    | .inl ⟨he, _⟩ =>
      rw [he]
      cases fault
      case none    => exact hk
      case refused => exact hs
      case lost    => exact hk
    | .inr ⟨hn, _⟩ =>
      have hd' := (h.draw (i := j) ha.right.left ha.right.right).drawer _ _ _ (mem_draw_of_mem hd)
        (hn k hk ▸ h.mem_draw j uuid)
      exact absurd hd'.symm hi

theorem exclusive (h : Sound s) : Exclusive s where
  spares _ _ _ ha hi hd hk  := h.spares ha hi hd hk
  kept i t time hn ht hl    :=
    have ⟨k, hk, he, _⟩ := h.live hn ht hl
    ⟨k, hk, he⟩
  one i j time hn           := by
    intro ⟨t, hi, hl⟩ ⟨t', hj, hl'⟩
    have ⟨k, hk, he, _⟩   := h.live hn hi hl
    have ⟨k', hk', he', _⟩ := h.live hn hj hl'
    cases hk.symm.trans hk'
    exact h.drawer _ _ _ (h.term i t hi).left (he.symm.trans he' ▸ (h.term j t' hj).left)
  renews i t uuid now hn ht hl hc := by
    have ⟨k, hk, he, _⟩ := h.live hn ht hl
    have hne := h.nonempty _ _ (h.term i t ht).left
    match s.acquireLeader_cases uuid now (h.ttl i) with
    | .inr ⟨_, _, ha, _⟩       => rw [ha]
    | .inl ⟨_, k', hk', hn'⟩ =>
      cases hk.symm.trans hk'
      simp [token, hc, hne, he] at hn'

end Sound

variable {ls : List ElectionLabel}

-- However the schedulers act and fail, there is at most one leader at any time.
theorem exclusive_of_allowed (h : Run.Guarded step Allowed (initial now) ls) :
    Exclusive (Run.last step (initial now) ls) :=
  Sound.exclusive <| h.invariant (fun _ _ hs ha => hs.step ha) .initial

-- A leader that is not restarted in time loses the leadership to another scheduler.
theorem exclusive_of_allowed_sample :
    let now : Time := .ofUnixMilli 1700000000000
    let uuid := "7b6a1f0e-42d6-4c6e-9a53-0f5d2c9f8b11"
    let uuid' := "c2f7d9b4-0c0f-4d8e-8f0a-5b1a6e3d7c22"
    let ls := [.start 0 "scheduler-a" (15 * Duration.second) now, .start 1 "scheduler-b" (15 * Duration.second) now,
      .tryAcquire 0 uuid now .none, .tryAcquire 1 uuid' (now + Duration.second) .none,
      .tryAcquire 1 "e41b5b6c-7a35-43cf-b6ef-6b6c5f0e1d33" (now + 15 * Duration.second) .none,
      .release 0 (now + 16 * Duration.second) .none]
    Exclusive (Run.last step (initial now) ls) :=
  exclusive_of_allowed (by decide)

end Election
end JobPlatform
