import Kmsrs.Lib.Run
import Kmsrs.Policy.Access
import Kmsrs.Policy.Gate

/-! The event log: one record for each request, never changed. It is bounded twice:
an event leaves when it is older than the retention period, and the oldest leaves
when there is no room for another. What left is counted, by cause. -/

namespace Kmsrs.Policy

/-- The nearest value of a `u64`. -/
def saturateU64 (n : ℕ) : UInt64 := if n < 2 ^ 64 then .ofNat n else 0xFFFFFFFFFFFFFFFF

theorem toNat_saturateU64 (n : ℕ) : (saturateU64 n).toNat = min n (2 ^ 64 - 1) := by
  rw [saturateU64]
  split_ifs with h
  · rw [UInt64.toNat_ofNat_of_lt' h]
    omega
  · have : (0xFFFFFFFFFFFFFFFF : UInt64).toNat = 2 ^ 64 - 1 := rfl
    omega

namespace Events

open Kmsrs.Kms Kmsrs.Wire Kmsrs.Policy.Counting Kmsrs.Policy.Gate

def defaultCapacity : ℕ := 4096

/-- As long as a machine id is counted. -/
def defaultRetention : ℕ := cmidExpiry

structure Peer where
  address : Access.IpAddr
  port : UInt16
deriving DecidableEq

structure Activation where
  selection : CsvlkSelection
  reportedCount : UInt32
  cachedCount : UInt32
  outcome : CountOutcome
  expired : UInt32
  anomalousDemand : Bool
deriving DecidableEq

inductive Outcome where
  | activated (activation : Activation)
  | refused (refusal : Refusal)
deriving DecidableEq

structure Event where
  sequence : UInt64
  atTime : Instant
  peer : Option Peer
  version : ProtocolVersion
  application : Guid
  counted : Guid
  sku : Guid
  clientMachineId : Guid
  licenseStatus : LicenseStatus
  clientKind : ClientKind
  workstationName : WorkstationName
  clockSkew : Option ℕ
  knownProduct : Bool
  outcome : Outcome
deriving DecidableEq

/-- How many events left, by cause. -/
structure Dropped where
  byCapacity : UInt64
  byRetention : UInt64
deriving DecidableEq

structure EventLog where
  events : List Event
  capacity : ℕ
  retention : ℕ
  nextSequence : UInt64
  dropped : Dropped
deriving DecidableEq

/-- What is recorded of a request. -/
structure Record where
  request : Request
  peer : Option Peer
  now : Instant
  outcome : Outcome
  observations : Observations

def Record.event (record : Record) (sequence : UInt64) : Event where
  sequence
  atTime := record.now
  peer := record.peer
  version := record.request.version
  application := record.request.application
  counted := record.request.counted
  sku := record.request.sku
  clientMachineId := record.request.clientMachineId
  licenseStatus := record.request.licenseStatus
  clientKind := record.request.clientKind
  workstationName := record.request.workstationName
  clockSkew := record.observations.clockSkew
  knownProduct := record.observations.knownProduct
  outcome := record.outcome

/-- Whether the request was activated. -/
def Event.activated (event : Event) : Bool :=
  match event.outcome with
  | .activated _ => true
  | .refused _ => false

/-- Still inside the retention period. -/
def Event.live (retention : ℕ) (now : Instant) : Event → Bool :=
  Recency.fresh (fun event => event.atTime.toNat) retention now.toNat

namespace EventLog

/-- A log with the given bounds. One that can hold nothing is given room for one. -/
def new (capacity retention : ℕ) : EventLog where
  events := []
  capacity := max capacity 1
  retention
  nextSequence := 0
  dropped := ⟨0, 0⟩

def default : EventLog := new defaultCapacity defaultRetention

/-- Drop what is outside the retention period, up to the first event inside it. -/
def expire (log : EventLog) (now : Instant) : UInt64 × EventLog :=
  let (removed, events) := Recency.popStale (Event.live log.retention now)
    (fun removed => saturateU64 (removed.toNat + 1)) 0 log.events
  (removed,
    { log with
      events
      dropped.byRetention := saturateU64 (log.dropped.byRetention.toNat + removed.toNat) })

/-- Drop the oldest event of a log that is full. -/
def makeRoom (log : EventLog) : EventLog :=
  if log.capacity ≤ log.events.length then
    { log with
      events := log.events.tail
      dropped.byCapacity := saturateU64 (log.dropped.byCapacity.toNat + 1) }
  else log

/-- Record a request; the number it is given is returned. -/
def record (log : EventLog) (record : Record) : UInt64 × EventLog :=
  let log := (log.expire record.now).2
  let sequence := log.nextSequence
  let log := makeRoom { log with nextSequence := saturateU64 (log.nextSequence.toNat + 1) }
  (sequence, { log with events := log.events ++ [record.event sequence] })

/-- Record a granted request, with what was counted for it. -/
def recordGrant (log : EventLog) (request : Request) (peer : Option Peer) (now : Instant) (grant : Gate.Grant)
    (observations : Observations) : UInt64 × EventLog :=
  let outcome := Outcome.activated
    { selection := grant.selection
      reportedCount := grant.counts.reported
      cachedCount := grant.counts.cached
      outcome := grant.counts.outcome
      expired := grant.counts.expired
      anomalousDemand := grant.counts.anomalousDemand }
  log.record { request, peer, now, outcome, observations }

/-- How many events were ever recorded. -/
def recorded (log : EventLog) : UInt64 := log.nextSequence

/-! ### What each operation drops -/

variable (log : EventLog) (now : Instant)

theorem toNat_iterate_saturateU64 (n : ℕ) (start : UInt64) :
    ((fun removed => saturateU64 (removed.toNat + 1))^[n] start).toNat = min (start.toNat + n) (2 ^ 64 - 1) := by
  induction n with
  | zero =>
    have := start.toNat_lt
    simp only [Function.iterate_zero, id_eq, Nat.add_zero]
    omega
  | succ n ih =>
    rw [Function.iterate_succ_apply', toNat_saturateU64, ih]
    omega

@[simp] theorem expire_capacity : (log.expire now).2.capacity = log.capacity := rfl

@[simp] theorem expire_retention : (log.expire now).2.retention = log.retention := rfl

@[simp] theorem expire_nextSequence : (log.expire now).2.nextSequence = log.nextSequence := rfl

@[simp] theorem expire_byCapacity : (log.expire now).2.dropped.byCapacity = log.dropped.byCapacity := rfl

theorem expire_events :
    (log.expire now).2.events = log.events.dropWhile fun event => !event.live log.retention now := by
  simp only [expire, Recency.popStale_eq]

/-- What expires is a front of the log that is too old, and is counted. -/
theorem expire_split : ∃ gone, log.events = gone ++ (log.expire now).2.events ∧
    (∀ event ∈ gone, event.live log.retention now = false) ∧
    (log.expire now).2.dropped.byRetention.toNat =
      min (log.dropped.byRetention.toNat + gone.length) (2 ^ 64 - 1) := by
  refine ⟨log.events.takeWhile fun event => !event.live log.retention now, ?_, ?_, ?_⟩
  · rw [expire_events, List.takeWhile_append_dropWhile]
  · intro event hevent
    simpa using List.mem_takeWhile_imp hevent
  · simp only [expire, Recency.popStale_eq, toNat_saturateU64, toNat_iterate_saturateU64]
    have : (0 : UInt64).toNat = 0 := rfl
    omega

@[simp] theorem makeRoom_capacity : log.makeRoom.capacity = log.capacity := by
  rw [makeRoom]
  split_ifs <;> rfl

@[simp] theorem makeRoom_retention : log.makeRoom.retention = log.retention := by
  rw [makeRoom]
  split_ifs <;> rfl

@[simp] theorem makeRoom_nextSequence : log.makeRoom.nextSequence = log.nextSequence := by
  rw [makeRoom]
  split_ifs <;> rfl

@[simp] theorem makeRoom_byRetention : log.makeRoom.dropped.byRetention = log.dropped.byRetention := by
  rw [makeRoom]
  split_ifs <;> rfl

/-- What makes room is the oldest event of a full log, and is counted. -/
theorem makeRoom_split (hcapacity : 0 < log.capacity) (hroom : log.events.length ≤ log.capacity) :
    ∃ gone, log.events = gone ++ log.makeRoom.events ∧
      (∀ event ∈ gone, log.events.head? = some event ∧ log.capacity ≤ log.events.length) ∧
      log.makeRoom.events.length < log.capacity ∧
      log.makeRoom.dropped.byCapacity.toNat =
        min (log.dropped.byCapacity.toNat + gone.length) (2 ^ 64 - 1) := by
  by_cases hfull : log.capacity ≤ log.events.length
  · obtain ⟨oldest, rest, hevents⟩ : ∃ oldest rest, log.events = oldest :: rest :=
      List.exists_cons_of_length_pos (by omega)
    have hlen : log.events.length = rest.length + 1 := by rw [hevents, List.length_cons]
    refine ⟨[oldest], ?_, ?_, ?_, ?_⟩
    · rw [makeRoom, if_pos hfull, hevents]
      rfl
    · intro event hevent
      obtain rfl := List.mem_singleton.mp hevent
      exact ⟨by rw [hevents]; rfl, hfull⟩
    · simp only [makeRoom, if_pos hfull, List.length_tail]
      omega
    · simp [makeRoom, hfull, toNat_saturateU64]
  · refine ⟨[], ?_, ?_, ?_, ?_⟩
    · simp [makeRoom, hfull]
    · simp
    · rw [makeRoom, if_neg hfull]
      omega
    · have := log.dropped.byCapacity.toNat_lt
      simp only [makeRoom, if_neg hfull, List.length_nil]
      omega

/-- The events a record finds, in the order in which they leave: those too old, the
oldest of the others if the log is full of them, and those that stay. -/
structure RecordSplit (log : EventLog) (record : Record) (stale evicted kept : List Event) : Prop where
  before : log.events = stale ++ (evicted ++ kept)
  expired : (log.expire record.now).2.events = evicted ++ kept
  tooOld : ∀ event ∈ stale, event.live log.retention record.now = false
  oldest : ∀ event ∈ evicted, (log.expire record.now).2.events.head? = some event ∧
    log.capacity ≤ (log.expire record.now).2.events.length
  room : kept.length < log.capacity
  after : (log.record record).2.events = kept ++ [record.event log.nextSequence]
  byCapacity : (log.record record).2.dropped.byCapacity.toNat =
    min (log.dropped.byCapacity.toNat + evicted.length) (2 ^ 64 - 1)
  byRetention : (log.record record).2.dropped.byRetention.toNat =
    min (log.dropped.byRetention.toNat + stale.length) (2 ^ 64 - 1)

@[simp] theorem record_capacity (record : Record) : (log.record record).2.capacity = log.capacity := by
  simp [EventLog.record]

@[simp] theorem record_retention (record : Record) : (log.record record).2.retention = log.retention := by
  simp [EventLog.record]

@[simp] theorem record_nextSequence (record : Record) :
    (log.record record).2.nextSequence = saturateU64 (log.nextSequence.toNat + 1) := by
  simp [EventLog.record]

/-- A record is the last event of the log, after an end of what had not expired. -/
theorem record_keeps (record : Record) :
    ∃ kept, kept <:+ (log.expire record.now).2.events ∧
      (log.record record).2.events = kept ++ [record.event log.nextSequence] := by
  refine ⟨_, ?_, rfl⟩
  rw [makeRoom]
  split_ifs
  · exact List.tail_suffix _
  · exact List.suffix_rfl

theorem expire_suffix : (log.expire now).2.events <:+ log.events := by
  rw [expire_events]
  exact List.dropWhile_suffix _

/-- A record is the last event of the log, after an end of what it held. -/
theorem record_appends (record : Record) :
    ∃ kept, kept <:+ log.events ∧ (log.record record).2.events = kept ++ [record.event log.nextSequence] := by
  obtain ⟨kept, hkept, hafter⟩ := log.record_keeps record
  exact ⟨kept, hkept.trans (log.expire_suffix record.now), hafter⟩

theorem record_split (hcapacity : 0 < log.capacity) (hroom : log.events.length ≤ log.capacity) (record : Record) :
    ∃ stale evicted kept, RecordSplit log record stale evicted kept := by
  obtain ⟨stale, hbefore, hstale, hretention⟩ := log.expire_split record.now
  have hshorter : (log.expire record.now).2.events.length ≤ log.capacity := by
    have := congrArg List.length hbefore
    rw [List.length_append] at this
    omega
  obtain ⟨evicted, hexpired, hevicted, hkept, hcount⟩ := makeRoom_split
    { (log.expire record.now).2 with nextSequence := saturateU64 ((log.expire record.now).2.nextSequence.toNat + 1) }
    hcapacity hshorter
  refine ⟨stale, evicted, _, ?_, hexpired, hstale, hevicted, hkept, rfl, hcount, ?_⟩
  · rw [← hexpired]
    exact hbefore
  · simp only [EventLog.record, makeRoom_byRetention]
    exact hretention

end EventLog

end Events

end Kmsrs.Policy
