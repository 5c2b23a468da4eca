import JobPlatform.Domain

namespace JobPlatform

-- The hash of the leader under a key that Redis deletes at the given millisecond.
structure LeaderKey where
  schedulerID     : String
  token           : Token
  acquiredAt      : Int
  lastHeartbeatAt : Int
  leaseExpiresAt  : Int
  expiresAt       : Int
  deriving DecidableEq

namespace LeaderKey

-- What is still stored when the clock of Redis shows `clock`.
def live (k : Option LeaderKey) (clock : Int) : Option LeaderKey :=
  k.filter (clock < ·.expiresAt)

-- A key whose remaining time is not positive is deleted at once.
def expire (k : LeaderKey) (clock ttl : Int) : Option LeaderKey :=
  if ttl ≤ 0 then none else some { k with expiresAt := clock + ttl }

def acquireLeaderLua (schedulerID : String) (token : Token) (now expiresAt ttl clock : Int)
    (k : Option LeaderKey) : Option LeaderKey × Bool :=
  match live k clock with
  | none   =>
    let k := {
      schedulerID
      token
      acquiredAt      := now
      lastHeartbeatAt := now
      leaseExpiresAt  := expiresAt
      expiresAt       := clock
    }
    (expire k clock ttl, true)
  | some k =>
    if k.token = token then
      (expire { k with lastHeartbeatAt := now, leaseExpiresAt := expiresAt } clock ttl, true)
    else
      (some k, false)

def releaseLeaderLua (token : Token) (clock : Int) (k : Option LeaderKey) : Option LeaderKey :=
  if (live k clock).any (·.token = token) then none else live k clock

variable {k k' : LeaderKey} {o : Option LeaderKey} {schedulerID : String} {token : Token}
         {now expiresAt ttl clock : Int}

@[simp]
theorem live_eq_some : live o clock = some k ↔ o = some k ∧ clock < k.expiresAt := by
  simp [live, Option.filter_eq_some_iff]

theorem releaseLeaderLua_eq_some :
    releaseLeaderLua token clock o = some k ↔ live o clock = some k ∧ k.token ≠ token := by
  unfold releaseLeaderLua
  cases live o clock
  case none   => simp
  case some k =>
    by_cases hk : k.token = token
    case pos => simpa [hk] using fun he => he ▸ hk
    case neg => simpa [hk] using fun he => he ▸ hk

theorem expire_pos (h : 0 < ttl) : expire k clock ttl = some { k with expiresAt := clock + ttl } :=
  if_neg (not_le.mpr h)

-- The key is left alone, or it is held under the given token for the given time.
theorem acquireLeaderLua_cases (h : 0 < ttl) :
    (acquireLeaderLua schedulerID token now expiresAt ttl clock o = (live o clock, false) ∧
      ∃ k, live o clock = some k ∧ k.token ≠ token) ∨
    ((∀ k, live o clock = some k → k.token = token) ∧
      ∃ k, acquireLeaderLua schedulerID token now expiresAt ttl clock o = (some k, true) ∧
        k.token = token ∧ k.expiresAt = clock + ttl) := by
  unfold acquireLeaderLua
  cases live o clock
  case none   =>
    simp only [expire_pos h]
    exact .inr ⟨fun _ hk => (nomatch hk), _, rfl, rfl, rfl⟩
  case some k =>
    by_cases hk : k.token = token
    case neg => exact .inl ⟨if_neg hk, k, rfl, hk⟩
    case pos =>
      simp only [hk, if_true, expire_pos h]
      exact .inr ⟨by simpa using hk, _, rfl, rfl, rfl⟩

end LeaderKey
end JobPlatform
