import Kmsrs.Lib.Recency
import Kmsrs.Lib.Slots
import Kmsrs.Wire.Connection

/-! The client-count world. Every application has a bucket of the client machine
ids it has seen, oldest first; an id leaves after thirty days without renewal, or
when two hundred others have been seen since. A request is counted and answered
from a view over the world, and its own demand is never written back. -/

namespace Kmsrs.Policy

open Kmsrs.Kms Kmsrs.Wire

/-- The nearest value of a `u32`. -/
def saturateU32 (n : ℕ) : UInt32 := if n < 2 ^ 32 then .ofNat n else 0xFFFFFFFF

theorem toNat_saturateU32 (n : ℕ) : (saturateU32 n).toNat = min n (2 ^ 32 - 1) := by
  rw [saturateU32]
  split_ifs with h
  · rw [UInt32.toNat_ofNat_of_lt' h]
    omega
  · have : (0xFFFFFFFF : UInt32).toNat = 2 ^ 32 - 1 := rfl
    omega

theorem toNat_min (a b : UInt32) : (min a b).toNat = min a.toNat b.toNat := by
  change (if a ≤ b then a else b).toNat = _
  split_ifs with h <;> rw [UInt32.le_iff_toNat_le] at h <;> omega

theorem toNat_max (a b : UInt32) : (max a b).toNat = max a.toNat b.toNat := by
  change (if a ≤ b then b else a).toNat = _
  split_ifs with h <;> rw [UInt32.le_iff_toNat_le] at h <;> omega

namespace Counting

/-- 43200 minutes, in nanoseconds. -/
def cmidExpiry : ℕ := 43200 * 60 * 10 ^ 9

def maxTrackedRequiredClients : UInt32 := 100
def maxCachedPerApplication : ℕ := 200
def maxApplications : ℕ := 8

structure Cached where
  cmid : Guid
  seen : Instant
deriving DecidableEq

/-- The cache of one application, oldest entry first. -/
structure Bucket where
  application : Option Guid
  entries : List Cached
deriving DecidableEq

inductive CountOutcome where
  | inserted
  | renewed
  | insertedWithEviction
deriving DecidableEq

/-- What a request is told, and what the model learned from it. -/
structure CountView where
  reported : UInt32
  cached : UInt32
  outcome : CountOutcome
  expired : UInt32
  anomalousDemand : Bool
deriving DecidableEq

structure ClientCounts where
  buckets : List Bucket
deriving DecidableEq

namespace Bucket

/-- The loop of `expire`: pop the front until it is live. -/
def expireEntries (now : Instant) : UInt32 → List Cached → UInt32 × List Cached
  | removed, [] => (removed, [])
  | removed, oldest :: rest =>
    if now.saturatingDurationSince oldest.seen < cmidExpiry then (removed, oldest :: rest)
    else expireEntries now (saturateU32 (removed.toNat + 1)) rest

def expire (bucket : Bucket) (now : Instant) : UInt32 × Bucket :=
  let (removed, entries) := expireEntries now 0 bucket.entries
  (removed, { bucket with entries })

/-- Insert a machine id, or delete its entry and insert it again at the back. -/
def record (bucket : Bucket) (cmid : Guid) (now : Instant) : CountOutcome × Bucket :=
  match bucket.entries.findIdx? fun entry => entry.cmid = cmid with
  | some position =>
    (.renewed, { bucket with entries := bucket.entries.eraseIdx position ++ [⟨cmid, now⟩] })
  | none =>
    if maxCachedPerApplication ≤ bucket.entries.length then
      (.insertedWithEviction, { bucket with entries := bucket.entries.tail ++ [⟨cmid, now⟩] })
    else (.inserted, { bucket with entries := bucket.entries ++ [⟨cmid, now⟩] })

/-- The reading of the newest entry; an empty bucket counts as seen now. -/
def newest (now : Instant) (bucket : Bucket) : ℕ :=
  ((bucket.entries.getLast?.map Cached.seen).getD now).toNat

end Bucket

/-- The answer to a request from the machines held. The count saturates at twice
the demand tracked; it is floored at the demand only up to what is tracked. -/
def reported (cached demand : UInt32) : UInt32 :=
  let anomalousDemand := demand > maxTrackedRequiredClients
  let tracked := max 1 (min demand maxTrackedRequiredClients)
  let saturation := saturateU32 (tracked.toNat * 2)
  let world := min cached saturation
  if anomalousDemand then world else max world demand

namespace ClientCounts

def new : ClientCounts := ⟨[]⟩

/-- The index of an application's bucket. Without one it takes a free place, or
the bucket whose newest entry is oldest is cleared for it. -/
def bucketFor (world : ClientCounts) (application : Guid) (now : Instant) : ℕ × ClientCounts :=
  let found := Slots.slotFor Bucket.application (Bucket.newest now) maxApplications
    ⟨some application, []⟩ world.buckets
  (found.1, ⟨found.2⟩)

def observe (world : ClientCounts) (application cmid : Guid) (required : UInt32) (now : Instant) :
    CountView × ClientCounts :=
  let (index, world) := world.bucketFor application now
  match world.buckets[index]? with
  | none =>
    ({ reported := max required 1
       cached := 0
       outcome := .inserted
       expired := 0
       anomalousDemand := required > maxTrackedRequiredClients }, world)
  | some bucket =>
    let (expired, bucket) := bucket.expire now
    let (outcome, bucket) := bucket.record cmid now
    let cached := saturateU32 bucket.entries.length
    ({ reported := reported cached required
       cached
       outcome
       expired
       anomalousDemand := required > maxTrackedRequiredClients },
      ⟨world.buckets.set index bucket⟩)

end ClientCounts

/-! ### What each operation does -/

/-- Not yet thirty days old. -/
def Cached.live (now : Instant) : Cached → Bool :=
  Recency.fresh (fun entry => entry.seen.toNat) cmidExpiry now.toNat

theorem Cached.live_iff (now : Instant) (entry : Cached) :
    entry.live now ↔ now.saturatingDurationSince entry.seen < cmidExpiry := by
  simp [live, Recency.fresh, Instant.saturatingDurationSince]

theorem reported_toNat (cached demand : UInt32) :
    (reported cached demand).toNat =
      if demand.toNat ≤ 100 then max (min cached.toNat (2 * max demand.toNat 1)) demand.toNat
      else min cached.toNat 200 := by
  have htracked : maxTrackedRequiredClients.toNat = 100 := rfl
  simp only [reported, gt_iff_lt, UInt32.lt_iff_toNat_lt, htracked]
  split_ifs with hanomalous hsmall hsmall
  · omega
  · rw [toNat_min, toNat_saturateU32, toNat_max, toNat_min, htracked]
    have : (1 : UInt32).toNat = 1 := rfl
    omega
  · rw [toNat_max, toNat_min, toNat_saturateU32, toNat_max, toNat_min, htracked]
    have : (1 : UInt32).toNat = 1 := rfl
    omega
  · omega

namespace Bucket

theorem expireEntries_eq (now : Instant) (removed : UInt32) (entries : List Cached) :
    (expireEntries now removed entries).1.toNat =
        min (removed.toNat + (entries.takeWhile fun e => !e.live now).length) (2 ^ 32 - 1) ∧
      (expireEntries now removed entries).2 = entries.dropWhile fun e => !e.live now := by
  induction entries generalizing removed with
  | nil =>
    have := removed.toNat_lt
    simp only [expireEntries, List.takeWhile_nil, List.length_nil, List.dropWhile_nil, and_true]
    omega
  | cons oldest rest ih =>
    by_cases hlive : oldest.live now
    · have := removed.toNat_lt
      have hfront : ¬(!oldest.live now) = true := by simp [hlive]
      rw [expireEntries, if_pos ((oldest.live_iff now).mp hlive),
        List.takeWhile_cons_of_neg (p := fun e : Cached => !e.live now) hfront,
        List.dropWhile_cons_of_neg (p := fun e : Cached => !e.live now) hfront]
      refine ⟨?_, rfl⟩
      change removed.toNat = min (removed.toNat + 0) _
      omega
    · have hfront : (!oldest.live now) = true := by simpa using hlive
      obtain ⟨hcount, hleft⟩ := ih (saturateU32 (removed.toNat + 1))
      rw [expireEntries, if_neg fun h => hlive ((oldest.live_iff now).mpr h),
        List.takeWhile_cons_of_pos (p := fun e : Cached => !e.live now) hfront,
        List.dropWhile_cons_of_pos (p := fun e : Cached => !e.live now) hfront]
      refine ⟨?_, hleft⟩
      rw [hcount, toNat_saturateU32, List.length_cons]
      omega

@[simp] theorem expire_application (bucket : Bucket) (now : Instant) :
    (bucket.expire now).2.application = bucket.application := rfl

theorem expire_entries (bucket : Bucket) (now : Instant) :
    (bucket.expire now).2.entries = bucket.entries.dropWhile fun e => !e.live now :=
  (expireEntries_eq now 0 bucket.entries).2

theorem expire_count (bucket : Bucket) (now : Instant) :
    (bucket.expire now).1.toNat =
      min ((bucket.entries.takeWhile fun e => !e.live now).length) (2 ^ 32 - 1) := by
  have := (expireEntries_eq now 0 bucket.entries).1
  simpa [expire] using this

@[simp] theorem record_application (bucket : Bucket) (cmid : Guid) (now : Instant) :
    (bucket.record cmid now).2.application = bucket.application := by
  rw [record]
  split
  · rfl
  · split_ifs <;> rfl

/-- A machine id goes to the back of a part of the cache. -/
theorem record_keeps (bucket : Bucket) (cmid : Guid) (now : Instant) :
    ∃ kept : List Cached, kept.Sublist bucket.entries ∧
      (bucket.record cmid now).2.entries = kept ++ [⟨cmid, now⟩] := by
  rw [record]
  split
  · exact ⟨_, List.eraseIdx_sublist _ _, rfl⟩
  · split_ifs
    · exact ⟨_, List.tail_sublist _, rfl⟩
    · exact ⟨_, List.Sublist.refl _, rfl⟩

/-- A machine id is renewed, appended, or appended in place of the oldest. -/
theorem record_cases (bucket : Bucket) (cmid : Guid) (now : Instant)
    (hnodup : (bucket.entries.map Cached.cmid).Nodup) :
    (cmid ∈ bucket.entries.map Cached.cmid ∧ (bucket.record cmid now).1 = .renewed ∧
      (bucket.record cmid now).2.entries = Recency.renew Cached.cmid bucket.entries ⟨cmid, now⟩) ∨
    (cmid ∉ bucket.entries.map Cached.cmid ∧ bucket.entries.length < maxCachedPerApplication ∧
      (bucket.record cmid now).1 = .inserted ∧
      (bucket.record cmid now).2.entries = bucket.entries ++ [⟨cmid, now⟩]) ∨
    (cmid ∉ bucket.entries.map Cached.cmid ∧ maxCachedPerApplication ≤ bucket.entries.length ∧
      (bucket.record cmid now).1 = .insertedWithEviction ∧
      (bucket.record cmid now).2.entries = bucket.entries.tail ++ [⟨cmid, now⟩]) := by
  cases hfind : bucket.entries.findIdx? fun entry => entry.cmid = cmid with
  | some position =>
    left
    have hmem : cmid ∈ bucket.entries.map Cached.cmid := by
      by_contra hnot
      have : bucket.entries.findIdx? (fun entry => entry.cmid = cmid) = none := by
        rw [List.findIdx?_eq_none_iff]
        simpa using hnot
      rw [hfind] at this
      cases this
    have herase := Recency.eraseIdx_of_findIdx? Cached.cmid hnodup hfind
    exact ⟨hmem, by simp [record, hfind], by simp [record, hfind, herase, Recency.renew]⟩
  | none =>
    right
    have hnew : cmid ∉ bucket.entries.map Cached.cmid := by
      simpa using List.findIdx?_eq_none_iff.mp hfind
    by_cases hfull : maxCachedPerApplication ≤ bucket.entries.length
    · exact .inr ⟨hnew, hfull, by simp [record, hfind, hfull], by simp [record, hfind, hfull]⟩
    · exact .inl ⟨hnew, by omega, by simp [record, hfind, hfull], by simp [record, hfind, hfull]⟩

end Bucket

namespace ClientCounts

/-- The application's bucket, or a new one. -/
def bucketOf (world : ClientCounts) (application : Guid) : Bucket :=
  (Slots.lookup Bucket.application (some application) world.buckets).getD ⟨some application, []⟩

theorem bucketOf_application (world : ClientCounts) (application : Guid) :
    (world.bucketOf application).application = some application := by
  rw [bucketOf]
  cases h : Slots.lookup Bucket.application (some application) world.buckets with
  | none => rfl
  | some bucket => exact (Slots.mem_of_lookup h).2

/-- The application's bucket after an observation. -/
def counted (world : ClientCounts) (application cmid : Guid) (now : Instant) : Bucket :=
  (((world.bucketOf application).expire now).2.record cmid now).2

theorem counted_application (world : ClientCounts) (application cmid : Guid) (now : Instant) :
    (world.counted application cmid now).application = some application := by
  rw [counted, Bucket.record_application, Bucket.expire_application, bucketOf_application]

theorem observe_eq (world : ClientCounts) (application cmid : Guid) (required : UInt32) (now : Instant) :
    world.observe application cmid required now =
      ({ reported := reported (saturateU32 (world.counted application cmid now).entries.length) required
         cached := saturateU32 (world.counted application cmid now).entries.length
         outcome := (((world.bucketOf application).expire now).2.record cmid now).1
         expired := ((world.bucketOf application).expire now).1
         anomalousDemand := required > maxTrackedRequiredClients },
        ⟨Slots.store Bucket.application (Bucket.newest now) maxApplications ⟨some application, []⟩
          world.buckets (world.counted application cmid now)⟩) := by
  have hslot := Slots.getElem?_slotFor Bucket.application (Bucket.newest now) maxApplications (by decide)
    ⟨some application, []⟩ world.buckets
  simp only [observe, bucketFor, hslot]
  rfl

end ClientCounts

end Counting

end Kmsrs.Policy
