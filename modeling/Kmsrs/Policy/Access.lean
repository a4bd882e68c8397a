import Kmsrs.Lib.TokenBucket
import Kmsrs.Policy.Counting

/-! The rate limiter: a token bucket for each source address and application.
Addresses are canonical before anything looks at them, so one machine has one
bucket however it arrives. The table is bounded; at the limit the source least
recently seen is forgotten, and starts full when it comes back. -/

namespace Kmsrs.Policy.Access

open Kmsrs.Kms Kmsrs.Wire

inductive IpAddr where
  | v4 (octets : Vector UInt8 4)
  | v6 (octets : Vector UInt8 16)
deriving DecidableEq

/-- The IPv4 address inside `::ffff:0:0/96`. -/
def toIpv4Mapped (octets : Vector UInt8 16) : Option (Vector UInt8 4) :=
  if octets.toList.take 12 = [0, 0, 0, 0, 0, 0, 0, 0, 0, 0, 0xFF, 0xFF] then
    some (octets.drop 12)
  else none

/-- Collapse an IPv4-mapped address to its IPv4 form. -/
def canonical : IpAddr → IpAddr
  | .v6 octets => ((toIpv4Mapped octets).map .v4).getD (.v6 octets)
  | .v4 octets => .v4 octets

theorem canonical_canonical (address : IpAddr) : canonical (canonical address) = canonical address := by
  cases address with
  | v4 octets => rfl
  | v6 octets =>
    cases h : toIpv4Mapped octets with
    | none => simp [canonical, h]
    | some mapped => simp [canonical, h]

def defaultBurst : UInt32 := 240
def defaultRefillPerSecond : UInt32 := 1
def maxTrackedSources : ℕ := 4096

/-- One second, in nanoseconds. -/
def second : ℕ := 10 ^ 9

/-- What the limiter decided; the time to wait is in nanoseconds. -/
inductive Admission where
  | allowed (remaining : UInt32)
  | limited (retryAfter : ℕ)
deriving DecidableEq

structure Bucket where
  address : IpAddr
  application : Guid
  tokens : UInt32
  lastRefill : Instant
  lastSeen : Instant
deriving DecidableEq

structure RateLimiter where
  buckets : List Bucket
  burst : UInt32
  refillPerSecond : UInt32
deriving DecidableEq

/-- The source and the application a bucket is for. -/
def Bucket.key (bucket : Bucket) : IpAddr × Guid := (bucket.address, bucket.application)

namespace RateLimiter

def new : RateLimiter := ⟨[], defaultBurst, defaultRefillPerSecond⟩

def withBounds (burst refillPerSecond : UInt32) : RateLimiter := ⟨[], burst, refillPerSecond⟩

/-- A source seen for the first time starts full. -/
def fresh (limiter : RateLimiter) (address : IpAddr) (application : Guid) (now : Instant) : Bucket where
  address
  application
  tokens := limiter.burst
  lastRefill := now
  lastSeen := now

/-- Find or create a bucket, evicting the stalest if the table is full. -/
def bucketFor (limiter : RateLimiter) (address : IpAddr) (application : Guid) (now : Instant) :
    ℕ × RateLimiter :=
  let found := Slots.slotFor Bucket.key (fun bucket => bucket.lastSeen.toNat) maxTrackedSources
    (limiter.fresh address application now) limiter.buckets
  (found.1, { limiter with buckets := found.2 })

/-- Refill for the whole seconds that have passed. -/
def refill (limiter : RateLimiter) (bucket : Bucket) (now : Instant) : Bucket :=
  let elapsed := now.saturatingDurationSince bucket.lastRefill
  let earned := min (elapsed / second * limiter.refillPerSecond.toNat) (2 ^ 64 - 1)
  if 0 < earned then
    { bucket with
      tokens := min (saturateU32 (min (bucket.tokens.toNat + earned) (2 ^ 64 - 1))) limiter.burst
      lastRefill := now }
  else bucket

/-- Take a token for a request, or say how long to wait. -/
def admitFor (limiter : RateLimiter) (address : IpAddr) (application : Guid) (now : Instant) :
    Admission × RateLimiter :=
  let address := canonical address
  let (index, limiter) := limiter.bucketFor address application now
  match limiter.buckets[index]? with
  | none => (.allowed limiter.burst, limiter)
  | some bucket =>
    let bucket := { limiter.refill bucket now with lastSeen := now }
    if bucket.tokens = 0 then
      let perSecond := max limiter.refillPerSecond.toNat 1
      (.limited (max (1 / perSecond) 1 * second), { limiter with buckets := limiter.buckets.set index bucket })
    else
      let bucket := { bucket with tokens := bucket.tokens - 1 }
      (.allowed bucket.tokens, { limiter with buckets := limiter.buckets.set index bucket })

end RateLimiter

/-! ### One bucket is a token bucket -/

/-- What the bucket of a key amounts to. -/
def Bucket.level (bucket : Bucket) : TokenBucket.Level := ⟨bucket.tokens.toNat, bucket.lastRefill.toNat⟩

def Admission.isAllowed : Admission → Bool
  | .allowed _ => true
  | .limited _ => false

namespace RateLimiter

def meter (limiter : RateLimiter) : TokenBucket.Meter :=
  ⟨limiter.burst.toNat, limiter.refillPerSecond.toNat, second, by decide⟩

/-- Neither the product nor the sum saturates short of a full bucket. -/
theorem level_refill (limiter : RateLimiter) (bucket : Bucket) (now : Instant) :
    (limiter.refill bucket now).level = TokenBucket.refill limiter.meter bucket.level now.toNat := by
  have hburst := limiter.burst.toNat_lt
  obtain ⟨earned, hearned⟩ : ∃ earned, earned =
      (now.toNat - bucket.lastRefill.toNat) / second * limiter.refillPerSecond.toNat := ⟨_, rfl⟩
  rw [refill, Instant.saturatingDurationSince, ← hearned]
  by_cases h : 0 < earned
  · rw [TokenBucket.refill_of_pos (hearned ▸ h), if_pos (by omega)]
    simp only [Bucket.level, meter, ← hearned, TokenBucket.Level.mk.injEq, and_true]
    rw [toNat_min, toNat_saturateU32]
    omega
  · rw [TokenBucket.refill_of_zero (hearned.symm.trans (by omega)), if_neg (by omega)]

/-- The bucket of a key, or a new one. -/
def bucketOf (limiter : RateLimiter) (address : IpAddr) (application : Guid) (now : Instant) : Bucket :=
  (Slots.lookup Bucket.key (canonical address, application) limiter.buckets).getD
    (limiter.fresh (canonical address) application now)

/-- That bucket once a call has been settled. -/
def settled (limiter : RateLimiter) (address : IpAddr) (application : Guid) (now : Instant) : Bucket :=
  let bucket := { limiter.refill (limiter.bucketOf address application now) now with lastSeen := now }
  if bucket.tokens = 0 then bucket else { bucket with tokens := bucket.tokens - 1 }

def retryAfter (limiter : RateLimiter) : ℕ := max (1 / max limiter.refillPerSecond.toNat 1) 1 * second

variable (limiter : RateLimiter) (address : IpAddr) (application : Guid) (now : Instant)

theorem admit_eq :
    limiter.admitFor address application now =
      (if (limiter.refill (limiter.bucketOf address application now) now).tokens = 0 then
        .limited limiter.retryAfter
      else .allowed ((limiter.refill (limiter.bucketOf address application now) now).tokens - 1),
      { limiter with
        buckets := Slots.store Bucket.key (fun bucket => bucket.lastSeen.toNat) maxTrackedSources
          (limiter.fresh (canonical address) application now) limiter.buckets
          (limiter.settled address application now) }) := by
  have hslot := Slots.getElem?_slotFor Bucket.key (fun bucket => bucket.lastSeen.toNat) maxTrackedSources
    (by decide) (limiter.fresh (canonical address) application now) limiter.buckets
  have hbucket : (Slots.lookup Bucket.key (limiter.fresh (canonical address) application now).key
      limiter.buckets).getD (limiter.fresh (canonical address) application now) =
      limiter.bucketOf address application now := rfl
  have hrefill : ∀ buckets bucket, ({ limiter with buckets } : RateLimiter).refill bucket now =
      limiter.refill bucket now := fun _ _ => rfl
  simp only [admitFor, bucketFor, hslot, hbucket, hrefill, settled]
  split_ifs <;> rfl

theorem settled_key : (limiter.settled address application now).key = (canonical address, application) := by
  have hbucket : (limiter.bucketOf address application now).key = (canonical address, application) := by
    rw [bucketOf]
    cases h : Slots.lookup Bucket.key (canonical address, application) limiter.buckets with
    | none => rfl
    | some bucket => exact (Slots.mem_of_lookup h).2
  rw [settled, refill]
  split_ifs <;> exact hbucket

/-- A call on the limiter is a call on the key's own bucket. -/
theorem admit_call :
    (limiter.admitFor address application now).1.isAllowed =
        (TokenBucket.call limiter.meter
          ((Slots.lookup Bucket.key (canonical address, application) limiter.buckets).map Bucket.level)
          now.toNat).1 ∧
      (limiter.settled address application now).level =
        (TokenBucket.call limiter.meter
          ((Slots.lookup Bucket.key (canonical address, application) limiter.buckets).map Bucket.level)
          now.toNat).2 := by
  have hlevel : ((Slots.lookup Bucket.key (canonical address, application) limiter.buckets).map
      Bucket.level).getD ⟨limiter.meter.capacity, now.toNat⟩ =
      (limiter.bucketOf address application now).level := by
    rw [bucketOf]
    cases Slots.lookup Bucket.key (canonical address, application) limiter.buckets <;> rfl
  rw [admit_eq, settled, TokenBucket.call_getD, hlevel, TokenBucket.call_some, ← level_refill]
  generalize limiter.refill (limiter.bucketOf address application now) now = bucket
  have hzero : bucket.level.tokens = 0 ↔ bucket.tokens = 0 := by
    rw [← UInt32.toNat_inj]
    rfl
  by_cases hempty : bucket.tokens = 0
  · simp [hempty, Admission.isAllowed, Bucket.level]
  · have hpos : 0 < bucket.tokens.toNat := Nat.pos_of_ne_zero (mt hzero.mp hempty)
    have hone : (bucket.tokens - 1).toNat = bucket.tokens.toNat - 1 := by
      rw [UInt32.toNat_sub_of_le _ _ (by rw [UInt32.le_iff_toNat_le]; exact hpos)]
      rfl
    simp [hempty, hpos.ne', Admission.isAllowed, Bucket.level, hone]

end RateLimiter

end Kmsrs.Policy.Access
