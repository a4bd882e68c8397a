import Kmsrs.Policy.Isolation
import Kmsrs.Policy.Journal

/-! Complete expiry. Both loops that expire stop at the first entry that is still
live, so they drop everything stale only where entries stand in the order of their
readings. Records made at readings that never decrease keep them in that order. -/

namespace Kmsrs.Policy

open Kmsrs.Kms Kmsrs.Wire

namespace Events

/-- The reading an event was recorded at. -/
def Event.time (event : Event) : ℕ := event.atTime.toNat

namespace EventLog

variable {log : EventLog} {earlier : ℕ}

/-- The events stand in the order of their readings. -/
def Timely (log : EventLog) (now : ℕ) : Prop := Recency.Timely Event.time now log.events

theorem timely_new (capacity retention now : ℕ) : (new capacity retention).Timely now := .nil

theorem Timely.later (h : log.Timely earlier) {now : ℕ} (hle : earlier ≤ now) : log.Timely now :=
  Recency.Timely.later h hle

theorem timely_record (h : log.Timely earlier) (record : Record) (hle : earlier ≤ record.now.toNat) :
    (log.record record).2.Timely record.now.toNat := by
  obtain ⟨kept, hkept, hafter⟩ := log.record_appends record
  rw [Timely, hafter]
  exact (Recency.Timely.sublist (h.later hle) hkept.sublist).concat rfl

/-- After a record nothing is too old. -/
theorem live_of_record (h : log.Timely earlier) (hretention : 0 < log.retention) (record : Record) :
    ∀ event ∈ (log.record record).2.events,
      record.now.saturatingDurationSince event.atTime < log.retention := by
  obtain ⟨kept, hkept, hafter⟩ := log.record_keeps record
  have hlive := h.fresh_of_dropWhile log.retention record.now.toNat
  intro event hevent
  rw [hafter, List.mem_append, List.mem_singleton] at hevent
  rcases hevent with hold | rfl
  · have hmem := hkept.subset hold
    rw [expire_events] at hmem
    exact Recency.fresh_iff Event.time log.retention |>.mp (hlive event hmem)
  · simpa [Record.event, Instant.saturatingDurationSince] using hretention

/-- A log that is within its capacity stays within it. -/
theorem length_record_le (hcapacity : 0 < log.capacity) (hroom : log.events.length ≤ log.capacity) (record : Record) :
    (log.record record).2.events.length ≤ log.capacity := by
  obtain ⟨stale, evicted, kept, hsplit⟩ := log.record_split hcapacity hroom record
  have := hsplit.room
  rw [hsplit.after, List.length_append, List.length_singleton]
  omega

end EventLog

end Events

namespace Counting

/-- The reading a machine was seen at. -/
def Cached.time (entry : Cached) : ℕ := entry.seen.toNat

namespace ClientCounts

variable {world : ClientCounts} {earlier : ℕ}

/-- Each application has one bucket, whose entries stand in the order of their
readings. -/
structure Timely (world : ClientCounts) (now : ℕ) : Prop where
  distinct : (world.buckets.map Bucket.application).Nodup
  entries : ∀ bucket ∈ world.buckets, Recency.Timely Cached.time now bucket.entries

theorem timely_new (now : ℕ) : new.Timely now := ⟨List.nodup_nil, by simp [new]⟩

theorem Timely.later (h : world.Timely earlier) {now : ℕ} (hle : earlier ≤ now) : world.Timely now :=
  ⟨h.distinct, fun bucket hbucket => (h.entries bucket hbucket).later hle⟩

theorem Timely.bucketOf (h : world.Timely earlier) (application : Guid) :
    Recency.Timely Cached.time earlier (world.bucketOf application).entries := by
  rw [ClientCounts.bucketOf]
  cases hlookup : Slots.lookup Bucket.application (some application) world.buckets with
  | none => exact .nil
  | some bucket => exact h.entries bucket (Slots.mem_of_lookup hlookup).1

variable (application cmid : Guid) (required : UInt32) {now : Instant}

/-- The bucket of an observation: a part of what had not expired, and the machine. -/
theorem counted_keeps (world : ClientCounts) (now : Instant) :
    ∃ kept : List Cached, kept.Sublist ((world.bucketOf application).expire now).2.entries ∧
      (world.counted application cmid now).entries = kept ++ [⟨cmid, now⟩] :=
  ((world.bucketOf application).expire now).2.record_keeps cmid now

theorem Timely.counted (h : world.Timely earlier) (hle : earlier ≤ now.toNat) :
    Recency.Timely Cached.time now.toNat (world.counted application cmid now).entries := by
  obtain ⟨kept, hkept, hafter⟩ := counted_keeps application cmid world now
  have hexpired : ((world.bucketOf application).expire now).2.entries.Sublist (world.bucketOf application).entries := by
    rw [Bucket.expire_entries]
    exact List.dropWhile_sublist _
  rw [hafter]
  exact (((h.bucketOf application).later hle).sublist (hkept.trans hexpired)).concat rfl

theorem live_of_counted (h : world.Timely earlier) :
    ∀ entry ∈ (world.counted application cmid now).entries, now.saturatingDurationSince entry.seen < cmidExpiry := by
  obtain ⟨kept, hkept, hafter⟩ := counted_keeps application cmid world now
  have hlive := (h.bucketOf application).fresh_of_dropWhile cmidExpiry now.toNat
  intro entry hentry
  rw [hafter, List.mem_append, List.mem_singleton] at hentry
  rcases hentry with hold | rfl
  · have hmem := hkept.subset hold
    rw [Bucket.expire_entries] at hmem
    exact Recency.fresh_iff Cached.time cmidExpiry |>.mp (hlive entry hmem)
  · have hpositive : 0 < cmidExpiry := by decide
    simpa [Instant.saturatingDurationSince] using hpositive

theorem buckets_observe (world : ClientCounts) (now : Instant) :
    (world.observe application cmid required now).2.buckets =
      Slots.store Bucket.application (Bucket.newest now) maxApplications ⟨some application, []⟩ world.buckets
        (world.counted application cmid now) := by
  rw [observe_eq]

/-- A bucket after an observation is the one observed, or an old one of another
application. -/
theorem Timely.mem_observe (h : world.Timely earlier) {bucket : Bucket}
    (hbucket : bucket ∈ (world.observe application cmid required now).2.buckets) :
    bucket = world.counted application cmid now ∨
      (bucket ∈ world.buckets ∧ bucket.application ≠ some application) := by
  rw [buckets_observe, Slots.mem_store_iff (by decide) h.distinct] at hbucket
  exact hbucket.imp_right fun hold => ⟨hold.1, hold.2.1⟩

theorem timely_observe (h : world.Timely earlier) (hle : earlier ≤ now.toNat) :
    (world.observe application cmid required now).2.Timely now.toNat := by
  refine ⟨?_, fun bucket hbucket => ?_⟩
  · rw [buckets_observe]
    exact Slots.nodup_store (by decide) h.distinct (world.counted_application application cmid now)
  · rcases h.mem_observe application cmid required hbucket with rfl | ⟨hold, -⟩
    · exact h.counted application cmid hle
    · exact (h.entries bucket hold).later hle

/-- After an observation nothing in its bucket is too old. -/
theorem live_of_observe (h : world.Timely earlier) :
    ∀ bucket ∈ (world.observe application cmid required now).2.buckets, bucket.application = some application →
      ∀ entry ∈ bucket.entries, now.saturatingDurationSince entry.seen < cmidExpiry := by
  intro bucket hbucket hown
  rcases h.mem_observe application cmid required hbucket with rfl | ⟨-, hother⟩
  · exact live_of_counted application cmid h
  · exact absurd hown hother

end ClientCounts

end Counting

end Kmsrs.Policy
