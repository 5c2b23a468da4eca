import JobPlatform.Domain
import JobPlatform.Library.SortedSet

namespace JobPlatform

-- A sorted set under a key that Redis deletes at the given millisecond.
structure ExpiringSet where
  members   : SortedSet String Int
  expiresAt : Option Int

namespace ExpiringSet

def empty : ExpiringSet where
  members   := ∅
  expiresAt := none

-- What is still stored when the clock of Redis shows `clock`.
def live (s : ExpiringSet) (clock : Int) : SortedSet String Int :=
  if s.expiresAt.any (· ≤ clock) then ∅ else s.members

-- A key whose remaining time is not positive is deleted at once.
def expire (members : SortedSet String Int) (clock ttl : Int) : ExpiringSet :=
  if ttl ≤ 0 then empty else { members, expiresAt := some (clock + ttl) }

end ExpiringSet

-- The keys of the limiter for each policy.
structure Limits where
  rate        : String → ExpiringSet
  concurrency : String → ExpiringSet

namespace Limits

def empty : Limits where
  rate _        := .empty
  concurrency _ := .empty

def acquireRateLua (now limit window : Int) (member : String) (clock : Int) (s : ExpiringSet) :
    ExpiringSet × Bool × Int :=
  let members := (s.live clock).removeRangeByScore (now - window)
  if members.card < limit then
    (.expire (members.add member now) clock window, true, 0)
  else
    ({ s with members }, false, (members.first?.elim now (·.2)) + window)

def acquireConcurrencyLua (now limit ttl : Int) (member : String) (clock : Int) (s : ExpiringSet) :
    ExpiringSet × Bool × Int :=
  let members := (s.live clock).removeRangeByScore now
  if (members.score? member).isSome ∨ members.card < limit then
    (.expire (members.add member (now + ttl)) clock ttl, true, 0)
  else
    ({ s with members }, false, members.first?.elim (now + ttl) (·.2))

def renewConcurrencyLua (now ttl : Int) (member : String) (clock : Int) (s : ExpiringSet) : ExpiringSet :=
  let members := (s.live clock).removeRangeByScore now
  if (members.score? member).isSome then
    .expire (members.add member (now + ttl)) clock ttl
  else
    { s with members }

def releaseLua (member : String) (clock : Int) (s : ExpiringSet) : ExpiringSet :=
  { s with members := (s.live clock).remove member }

end Limits

-- The calls of the limiter, each of which runs a script on the key of a policy.
inductive LimiterCall
  | acquireRate (policy : RateLimitPolicy) (member : String) (now : Time)
  | acquireConcurrency (policy : RateLimitPolicy) (member : String) (now : Time) (leaseTTL : Duration)
  | renewConcurrency (policyID : String) (member : String) (now : Time) (leaseTTL : Duration)
  | releaseRate (policyID : String) (member : String)
  | releaseConcurrency (policyID : String) (member : String)

abbrev LimiterCall.Resp : LimiterCall → Type
  | acquireRate ..        => Bool × Time
  | acquireConcurrency .. => Bool × Time
  | _                     => Unit

namespace Limits

def windowMillis (policy : RateLimitPolicy) : Int :=
  policy.windowSeconds * 1000

-- The clock is the one by which Redis deletes its keys.
def exec (l : Limits) (clock : Time) : (c : LimiterCall) → Limits × c.Resp
  | .acquireRate policy member now =>
    let (s, allowed, retryAt) := acquireRateLua now.unixMilli policy.limit (windowMillis policy) member
      clock.unixMilli (l.rate policy.id)
    ({ l with rate := Function.update l.rate policy.id s }, allowed, .ofUnixMilli retryAt)
  | .acquireConcurrency policy member now leaseTTL =>
    let (s, allowed, retryAt) := acquireConcurrencyLua now.unixMilli policy.limit leaseTTL.milliseconds
      member clock.unixMilli (l.concurrency policy.id)
    ({ l with concurrency := Function.update l.concurrency policy.id s }, allowed, .ofUnixMilli retryAt)
  | .renewConcurrency policyID member now leaseTTL =>
    let s := renewConcurrencyLua now.unixMilli leaseTTL.milliseconds member clock.unixMilli
      (l.concurrency policyID)
    ({ l with concurrency := Function.update l.concurrency policyID s }, ())
  | .releaseRate policyID member =>
    ({ l with rate := Function.update l.rate policyID (releaseLua member clock.unixMilli (l.rate policyID)) }, ())
  | .releaseConcurrency policyID member =>
    let s := releaseLua member clock.unixMilli (l.concurrency policyID)
    ({ l with concurrency := Function.update l.concurrency policyID s }, ())

end Limits
end JobPlatform
