import JobPlatform.Leadership.Election

namespace JobPlatform

-- The time for which a scheduler is granted the leadership. It ends earlier if the scheduler gives it up.
structure Tenure where
  scheduler : Nat
  token     : Token
  since     : Int
  ends      : Int

-- The election, and the tenures that it has led to so far.
structure Reign where
  election : Election
  tenures  : List Tenure

namespace Election

def tenure (s : Election) (i : Nat) (uuid : Token) (now : Time) : Tenure where
  scheduler := i
  token     := s.token i uuid
  since     := now.unixMilli
  ends      := now.unixMilli + (s.candidates i).leadershipTTL.milliseconds

-- What `TryAcquire` grants, even if the answer is lost.
def tenures (s : Election) (i : Nat) (uuid : Token) (now : Time) (fault : Fault) : List Tenure :=
  if fault ≠ .refused ∧ (s.acquireLeader i uuid now).2 then [s.tenure i uuid now] else []

end Election

def Tenure.release (token : Token) (now : Time) (t : Tenure) : Tenure :=
  if t.token = token then { t with ends := min t.ends now.unixMilli } else t

namespace Reign

def initial (time : Time) : Reign where
  election := .initial time
  tenures  := []

def record (s : Reign) : ElectionLabel → List Tenure
  | .tryAcquire i uuid now fault => s.tenures ++ s.election.tenures i uuid now fault
  | .release i now fault         =>
    let token := (s.election.candidates i).leaderToken
    if token = "" ∨ fault = .refused then s.tenures else s.tenures.map (·.release token now)
  | .start ..                    => s.tenures

def step (s : Reign) (l : ElectionLabel) : Reign where
  election := s.election.step l
  tenures  := s.record l

end Reign

namespace Election

-- A tenure that has not ended is guarded by the key.
structure Backs (s : Election) (t : Tenure) : Prop where
  drawn : (t.token, t.scheduler) ∈ s.drawn
  since : t.since ≤ s.time.unixMilli
  ends  : (s.candidates t.scheduler).leaderToken = t.token →
    t.ends ≤ t.since + (s.candidates t.scheduler).leadershipTTL.milliseconds
  held  : s.time.unixMilli < t.ends → ∃ k, s.key = some k ∧ k.token = t.token ∧ t.ends ≤ k.expiresAt

variable {s s' : Election} {i : Nat} {uuid : Token} {now : Time} {fault : Fault} {t : Tenure} {l : ElectionLabel}

theorem mem_tenures : t ∈ s.tenures i uuid now fault ↔
    fault ≠ .refused ∧ (s.acquireLeader i uuid now).2 ∧ t = s.tenure i uuid now := by
  unfold tenures
  split <;> simp_all

theorem token_ne_empty (hu : uuid ≠ "") : s.token i uuid ≠ "" := by
  unfold token
  split
  case isTrue     => exact hu
  case isFalse hn => exact hn

-- A token that has been drawn before is not drawn again.
theorem leaderToken_of_token (hf : uuid ∉ s.drawn.map (·.1)) (ht : (t.token, t.scheduler) ∈ s.drawn)
    (he : s.token i uuid = t.token) : (s.candidates i).leaderToken = t.token := by
  unfold token at he
  split at he
  case isTrue  => exact absurd (List.mem_map_of_mem (he ▸ ht)) hf
  case isFalse => exact he

namespace Backs

theorem live (h : s.Backs t) (hn : s.time ≤ now) (ht : now.unixMilli < t.ends) :
    ∃ k, LeaderKey.live s.key now.unixMilli = some k ∧ k.token = t.token ∧ t.ends ≤ k.expiresAt := by
  obtain ⟨k, hk, he, ho⟩ := h.held ((Time.unixMilli_mono hn).trans_lt ht)
  exact ⟨k, LeaderKey.live_eq_some.mpr ⟨hk, ht.trans_le ho⟩, he, ho⟩

-- Time goes by, and the key is left alone or extended as long as the tenure lasts.
theorem keep (h : s.Backs t) (hn : s.time ≤ s'.time) (hd : (t.token, t.scheduler) ∈ s'.drawn)
    (hc : (s'.candidates t.scheduler).leaderToken = t.token → (s.candidates t.scheduler).leaderToken = t.token ∧
      (s'.candidates t.scheduler).leadershipTTL = (s.candidates t.scheduler).leadershipTTL)
    (hk : ∀ k, LeaderKey.live s.key s'.time.unixMilli = some k → k.token = t.token → t.ends ≤ k.expiresAt →
      ∃ k', s'.key = some k' ∧ k'.token = t.token ∧ t.ends ≤ k'.expiresAt) : s'.Backs t where
  drawn   := hd
  since   := h.since.trans (Time.unixMilli_mono hn)
  ends ht := by
    obtain ⟨ht, hl⟩ := hc ht
    exact hl ▸ h.ends ht
  held ht := by
    obtain ⟨k, hl, he, ho⟩ := h.live hn ht
    exact hk k hl he ho

end Backs

-- The token of a scheduler is that of no other one.
theorem Backs.scheduler_eq (h : s.Backs t) (hs : s.Sound) (hu : uuid ≠ "") (hf : uuid ∉ s.drawn.map (·.1))
    (he : t.token = s.token i uuid) : t.scheduler = i := by
  have hd : (t.token, t.scheduler) ∈ s.draw i uuid := Sound.mem_draw_of_mem h.drawn
  exact (hs.draw hu hf).drawer _ _ _ hd (he ▸ hs.mem_draw i uuid)

section

variable (hs : s.Sound) (hn : s.time ≤ now) (hu : uuid ≠ "") (hf : uuid ∉ s.drawn.map (·.1))
include hs hn hu hf

-- Nobody else has a tenure when a scheduler gets the key.
theorem Backs.ends_le (h : s.Backs t)
    (hk : ∀ k, LeaderKey.live s.key now.unixMilli = some k → k.token = s.token i uuid) (hi : t.scheduler ≠ i) :
    t.ends ≤ now.unixMilli := by
  by_contra hl
  obtain ⟨k, hl, he, _⟩ := h.live hn (not_le.mp hl)
  exact hi (h.scheduler_eq hs hu hf (he.symm.trans (hk k hl)))

theorem Backs.tryAcquire (h : s.Backs t) : (s.tryAcquire i uuid now fault).Backs t := by
  have hd : (t.token, t.scheduler) ∈ s.draw i uuid := Sound.mem_draw_of_mem h.drawn
  have hc (acquired : Bool) (ht : ((s.ensured i uuid now acquired).candidates t.scheduler).leaderToken = t.token) :
      (s.candidates t.scheduler).leaderToken = t.token ∧
      ((s.ensured i uuid now acquired).candidates t.scheduler).leadershipTTL =
        (s.candidates t.scheduler).leadershipTTL := by
    by_cases hi : t.scheduler = i
    case neg => simpa [ensured, hi] using ht
    case pos =>
      subst hi
      have ht : s.token t.scheduler uuid = t.token := by simpa [ensured] using ht
      exact ⟨leaderToken_of_token hf h.drawn ht, by simp [ensured]⟩
  unfold Election.tryAcquire
  obtain ⟨he, _⟩ | ⟨hk, k, he, ht, ho⟩ := s.acquireLeader_cases uuid now (hs.ttl i)
  all_goals rw [he]
  case inl =>
    have hk (k) (hl : LeaderKey.live s.key now.unixMilli = some k) (he : k.token = t.token) (ho : t.ends ≤ k.expiresAt) :
        ∃ k', LeaderKey.live s.key now.unixMilli = some k' ∧ k'.token = t.token ∧ t.ends ≤ k'.expiresAt :=
      ⟨k, hl, he, ho⟩
    cases fault
    case none    => exact h.keep hn hd (hc false) hk
    case lost    => exact h.keep hn hd (fun ht => ⟨ht, rfl⟩) hk
    case refused =>
      exact h.keep hn hd (fun ht => ⟨ht, rfl⟩) fun k hl he ho => ⟨k, (LeaderKey.live_eq_some.mp hl).left, he, ho⟩
  case inr =>
    have hk (k') (hl : LeaderKey.live s.key now.unixMilli = some k') (he : k'.token = t.token)
        (_ : t.ends ≤ k'.expiresAt) : ∃ k', some k = some k' ∧ k'.token = t.token ∧ t.ends ≤ k'.expiresAt := by
      have he : t.token = s.token i uuid := he.symm.trans (hk k' hl)
      have hi := h.scheduler_eq hs hu hf he
      have hm := h.since.trans (Time.unixMilli_mono hn)
      refine ⟨k, rfl, ht.trans he.symm, ?_⟩
      rw [ho]
      subst hi
      exact (h.ends (leaderToken_of_token hf h.drawn he.symm)).trans (by simpa using hm)
    cases fault
    case none    => exact h.keep hn hd (hc true) hk
    case lost    => exact h.keep hn hd (fun ht => ⟨ht, rfl⟩) hk
    case refused =>
      exact h.keep hn hd (fun ht => ⟨ht, rfl⟩) fun k hl he ho => ⟨k, (LeaderKey.live_eq_some.mp hl).left, he, ho⟩

-- The new tenure is guarded by the key, and comes after those of the others.
theorem backs_tenures (ht : t ∈ s.tenures i uuid now fault) : (s.tryAcquire i uuid now fault).Backs t ∧
    t.scheduler = i ∧ t.since = now.unixMilli ∧ ∀ t', s.Backs t' → t'.scheduler ≠ i → t'.ends ≤ now.unixMilli := by
  obtain ⟨hr, ha, rfl⟩ := mem_tenures.mp ht
  obtain ⟨he, _⟩ | ⟨hk, k, he, hx, ho⟩ := s.acquireLeader_cases uuid now (hs.ttl i)
  case inl => simp [he] at ha
  case inr =>
    refine ⟨?_, rfl, rfl, fun t' h hi => h.ends_le hs hn hu hf hk hi⟩
    unfold Election.tryAcquire
    rw [he]
    have hd := hs.mem_draw i uuid
    cases fault
    case refused => exact absurd rfl hr
    case none    => exact ⟨hd, le_rfl, by simp [tenure, ensured], fun _ => ⟨k, rfl, hx, ho.ge⟩⟩
    case lost    => exact ⟨hd, le_rfl, by simp [tenure], fun _ => ⟨k, rfl, hx, ho.ge⟩⟩

end

theorem Backs.wait (h : s.Backs t) (hn : s.time ≤ now) : Backs { s with time := now } t :=
  h.keep hn h.drawn (fun ht => ⟨ht, rfl⟩) fun k hl he ho => ⟨k, (LeaderKey.live_eq_some.mp hl).left, he, ho⟩

-- A tenure ends when its token is given up.
theorem Backs.release (h : s.Backs t) (hn : s.time ≤ now) : (s.release i now fault).Backs
    (if (s.candidates i).leaderToken = "" ∨ fault = .refused then t
    else t.release (s.candidates i).leaderToken now) := by
  unfold Election.release
  dsimp only
  split
  case isTrue  => exact h.wait hn
  case isFalse =>
    by_cases ht : t.token = (s.candidates i).leaderToken
    case pos =>
      rw [Tenure.release, if_pos ht]
      refine ⟨h.drawn, h.since.trans (Time.unixMilli_mono hn), fun ht => ?_, fun hl => ?_⟩
      · exact (min_le_left ..).trans (h.ends ht)
      · exact absurd hl (not_lt.mpr (min_le_right ..))
    case neg =>
      rw [Tenure.release, if_neg ht]
      refine h.keep ?_ h.drawn (fun ht => ⟨ht, rfl⟩) fun k hl he ho => ⟨k, ?_, he, ho⟩
      · exact hn
      · exact LeaderKey.releaseLeaderLua_eq_some.mpr ⟨hl, fun hk => ht (he.symm.trans hk)⟩

theorem Backs.start (h : s.Backs t) (hs : s.Sound) {schedulerID : String} {leadershipTTL : Duration}
    (hn : s.time ≤ now) : (s.step (.start i schedulerID leadershipTTL now)).Backs t := by
  refine h.keep hn h.drawn (fun ht => ?_) fun k hl he ho => ⟨k, (LeaderKey.live_eq_some.mp hl).left, he, ho⟩
  by_cases hi : t.scheduler = i
  case neg => simpa [Election.step, hi] using ht
  case pos => exact absurd (by simpa [Election.step, hi] using ht.symm) (hs.nonempty _ _ h.drawn)

-- The key belongs to one of the tenures.
def Kept (s : Election) (tenures : List Tenure) : Prop :=
  ∀ k, s.key = some k → ∃ t ∈ tenures, t.token = k.token ∧ k.expiresAt ≤ t.ends

variable {tenures : List Tenure}

theorem Kept.live (h : s.Kept tenures) {k : LeaderKey} (hk : LeaderKey.live s.key now.unixMilli = some k) :
    ∃ t ∈ tenures, t.token = k.token ∧ k.expiresAt ≤ t.ends :=
  h k (LeaderKey.live_eq_some.mp hk).left

theorem Kept.tryAcquire (h : s.Kept tenures) (hs : s.Sound) :
    (s.tryAcquire i uuid now fault).Kept (tenures ++ s.tenures i uuid now fault) := by
  have hl {k : LeaderKey} (hk : ∃ t ∈ tenures, t.token = k.token ∧ k.expiresAt ≤ t.ends) :
      ∃ t ∈ tenures ++ s.tenures i uuid now fault, t.token = k.token ∧ k.expiresAt ≤ t.ends := by
    obtain ⟨t, ht, he⟩ := hk
    exact ⟨t, List.mem_append_left _ ht, he⟩
  unfold Election.tryAcquire
  obtain ⟨he, _⟩ | ⟨_, k, he, hx, ho⟩ := s.acquireLeader_cases uuid now (hs.ttl i)
  case inl =>
    rw [he]
    cases fault
    case none | lost => exact fun k hk => hl (h.live hk)
    case refused     => exact fun k hk => hl (h k hk)
  case inr =>
    have hn (hf : fault ≠ .refused) (k') (hk : some k = some k') :
        ∃ t ∈ tenures ++ s.tenures i uuid now fault, t.token = k'.token ∧ k'.expiresAt ≤ t.ends := by
      cases hk
      refine ⟨s.tenure i uuid now, List.mem_append_right _ (mem_tenures.mpr ⟨hf, by rw [he], rfl⟩), hx.symm, ho.le⟩
    rw [he]
    cases fault
    case none    => exact hn nofun
    case lost    => exact hn nofun
    case refused => exact fun k hk => hl (h k hk)

theorem Kept.release (h : s.Kept tenures) : (s.release i now fault).Kept
    (if (s.candidates i).leaderToken = "" ∨ fault = .refused then tenures
    else tenures.map (·.release (s.candidates i).leaderToken now)) := by
  unfold Election.release
  dsimp only
  split
  case isTrue  => exact h
  case isFalse =>
    intro k hk
    obtain ⟨hl, hn⟩ := LeaderKey.releaseLeaderLua_eq_some.mp hk
    obtain ⟨t, ht, he, ho⟩ := h.live hl
    exact ⟨t, List.mem_map.mpr ⟨t, ht, if_neg (he ▸ hn)⟩, he, ho⟩

end Election

namespace Reign

-- The tenures of two schedulers do not overlap.
def Apart (tenures : List Tenure) : Prop :=
  tenures.Pairwise fun t t' => t.scheduler ≠ t'.scheduler → t.ends ≤ t'.since

-- The leadership is granted to a scheduler as soon as all tenures under other tokens have ended.
def Open (s : Reign) : Prop :=
  ∀ i uuid now, s.election.time ≤ now → ((s.election.acquireLeader i uuid now).2 = true ↔
    ∀ t ∈ s.tenures, t.token ≠ s.election.token i uuid → t.ends ≤ now.unixMilli)

structure Sound (s : Reign) : Prop where
  sound : s.election.Sound
  backs : ∀ t ∈ s.tenures, s.election.Backs t
  kept  : s.election.Kept s.tenures
  apart : Apart s.tenures

namespace Sound

variable {s : Reign} {i : Nat} {uuid : Token} {now : Time} {fault : Fault} {l : ElectionLabel}

theorem initial : Sound (initial now) where
  sound := .initial
  backs := List.forall_mem_nil _
  kept  := nofun
  apart := .nil

theorem tryAcquire (h : Sound s) (ha : s.election.Allowed (.tryAcquire i uuid now fault)) :
    Sound (s.step (.tryAcquire i uuid now fault)) where
  sound := h.sound.step ha
  kept  := h.kept.tryAcquire h.sound
  backs := by
    obtain ⟨hn, hu, hf⟩ := ha
    refine List.forall_mem_append.mpr ⟨fun t ht => (h.backs t ht).tryAcquire h.sound hn hu hf, fun t ht => ?_⟩
    exact (Election.backs_tenures h.sound hn hu hf ht).left
  apart := by
    obtain ⟨hn, hu, hf⟩ := ha
    refine List.pairwise_append.mpr ⟨h.apart, ?_, fun t ht t' ht' hi => ?_⟩
    · unfold Election.tenures
      split
      case isTrue  => exact List.pairwise_singleton ..
      case isFalse => exact .nil
    · obtain ⟨_, hi', hs, ho⟩ := Election.backs_tenures h.sound hn hu hf ht'
      exact hs ▸ ho t (h.backs t ht) (hi' ▸ hi)

theorem release (h : Sound s) (hn : s.election.time ≤ now) : Sound (s.step (.release i now fault)) where
  sound := h.sound.release hn
  kept  := h.kept.release
  backs := by
    have hb (t) (ht : t ∈ s.tenures) : (s.election.release i now fault).Backs _ := (h.backs t ht).release hn
    unfold step record
    dsimp only
    split
    case isTrue hc  =>
      simp only [if_pos hc] at hb
      exact hb
    case isFalse hc =>
      simp only [if_neg hc] at hb
      exact List.forall_mem_map.mpr hb
  apart := by
    unfold step record
    dsimp only
    split
    case isTrue  => exact h.apart
    case isFalse =>
      refine List.pairwise_map.mpr (h.apart.imp fun {t t'} ht => ?_)
      unfold Tenure.release
      split <;> split
      case isTrue.isTrue | isTrue.isFalse  => exact fun hi => (min_le_left ..).trans (ht hi)
      case isFalse.isTrue | isFalse.isFalse => exact ht

theorem start (h : Sound s) {schedulerID : String} {leadershipTTL : Duration}
    (ha : s.election.Allowed (.start i schedulerID leadershipTTL now)) :
    Sound (s.step (.start i schedulerID leadershipTTL now)) where
  sound := h.sound.step ha
  kept  := h.kept
  backs := fun t ht => (h.backs t ht).start h.sound ha.left
  apart := h.apart

theorem step (h : Sound s) (ha : s.election.Allowed l) : Sound (s.step l) := by
  cases l
  case tryAcquire => exact h.tryAcquire ha
  case release    => exact h.release ha
  case start      => exact h.start ha

theorem opens (h : Sound s) : s.Open := by
  intro i uuid now hn
  obtain ⟨he, k, hk, hx⟩ | ⟨hk, _, he, _⟩ := s.election.acquireLeader_cases uuid now (h.sound.ttl i)
  case inl =>
    obtain ⟨t, ht, he', ho⟩ := h.kept.live hk
    refine iff_of_false (by simp [he]) fun hf => ?_
    have hl := (LeaderKey.live_eq_some.mp hk).right.trans_le ho
    exact (hf t ht (he' ▸ hx)).not_gt hl
  case inr =>
    refine iff_of_true (by rw [he]) fun t ht hx => ?_
    by_contra hl
    obtain ⟨k, hl, he, _⟩ := (h.backs t ht).live hn (not_le.mp hl)
    exact hx (he.symm.trans (hk k hl))

end Sound
end Reign
end JobPlatform
