import Kmsrs.Policy.Expiry
import Kmsrs.Server.Audit

/-! Tasks that share a host. A task reads the clock first and takes the lock
afterwards, so that turns at the host may come in another order than the readings.
Where they come in the order of the readings, as on one event loop, expiry is
complete; where they do not, an entry with an old reading stands behind a newer one
and is not reached. -/

namespace Kmsrs.Server

open Kmsrs.Kms Kmsrs.Wire Kmsrs.Db Kmsrs.Policy Kmsrs.Policy.Counting Kmsrs.Policy.Gate Kmsrs.Policy.Events

namespace Host

variable {catalogue : Catalogue} {features : Features}

/-- The events and the machines seen stand in the order of their readings. -/
structure Timely (host : Host catalogue) (now : ℕ) : Prop where
  events : host.events.Timely now
  counts : host.counts.Timely now

/-- Once an ask is dealt with, nothing in the log is too old, and, if the ask was
counted, nothing in the bucket it was counted in. -/
structure Current (features : Features) (host : Host catalogue) (ask : Ask) : Prop where
  events : ∀ event ∈ (host.next features ask).events.events,
    ask.context.now.saturatingDurationSince event.atTime < host.events.retention
  counts : isGrant (host.decision features ask) = true →
    ∀ bucket ∈ (host.next features ask).counts.buckets, bucket.application = some ask.request.application →
      ∀ entry ∈ bucket.entries, ask.context.now.saturatingDurationSince entry.seen < cmidExpiry

section
variable {host : Host catalogue} {earlier : ℕ}

theorem Timely.later (h : host.Timely earlier) {now : ℕ} (hle : earlier ≤ now) : host.Timely now :=
  ⟨h.events.later hle, h.counts.later hle⟩

theorem timely_next (h : host.Timely earlier) {ask : Ask} (hle : earlier ≤ ask.context.now.toNat) :
    (host.next features ask).Timely ask.context.now.toNat := by
  refine ⟨?_, ?_⟩
  · rw [next_events]
    exact EventLog.timely_record h.events (host.entry features ask.request ask.context) hle
  · rw [next_counts, tally]
    split_ifs
    · exact ClientCounts.timely_observe ask.request.application ask.request.clientMachineId
        ask.request.requiredClients h.counts hle
    · exact h.counts.later hle

theorem current_of_timely (h : host.Timely earlier) (hretention : 0 < host.events.retention) (ask : Ask) :
    Current features host ask := by
  refine ⟨?_, ?_⟩
  · rw [next_events]
    exact EventLog.live_of_record h.events hretention (host.entry features ask.request ask.context)
  · intro hgrant
    rw [isGrant_decision] at hgrant
    rw [next_counts, tally, if_pos hgrant]
    exact ClientCounts.live_of_observe ask.request.application ask.request.clientMachineId
      ask.request.requiredClients h.counts

@[simp] theorem next_retention (host : Host catalogue) (ask : Ask) :
    (host.next features ask).events.retention = host.events.retention := by
  rw [next_events, EventLog.record_retention]

@[simp] theorem next_capacity (host : Host catalogue) (ask : Ask) :
    (host.next features ask).events.capacity = host.events.capacity := by
  rw [next_events, EventLog.record_capacity]

/-- Readings that never decrease, and start no earlier than the given one. -/
def InOrder (asks : List Ask) : Prop := asks.Pairwise fun a b => a.context.now.toNat ≤ b.context.now.toNat

theorem current_of_inOrder {asks : List Ask} (hordered : InOrder asks) {host : Host catalogue}
    (h : host.Timely earlier) (hstart : ∀ ask ∈ asks, earlier ≤ ask.context.now.toNat)
    (hretention : 0 < host.events.retention) :
    ∀ turn ∈ path (next features) host asks, Current features turn.1 turn.2 := by
  induction asks generalizing host earlier with
  | nil => simp [path]
  | cons ask asks ih =>
    obtain ⟨hfirst, hrest⟩ := List.pairwise_cons.mp hordered
    intro turn hturn
    rcases List.mem_cons.mp hturn with rfl | hlater
    · exact current_of_timely h hretention ask
    · have hnext : (host.next features ask).Timely ask.context.now.toNat :=
        timely_next h (hstart ask (List.mem_cons_self ..))
      exact ih hrest hnext hfirst (by rwa [next_retention]) turn hlater

end

/-- An empty world keeps everything in order. -/
theorem timely_new (identity : HostIdentity catalogue) (intervals : Intervals) (now : ℕ) :
    ((new identity).withIntervals intervals).Timely now :=
  ⟨EventLog.timely_new _ _ _, ClientCounts.timely_new _⟩

end Host

/-- The driver's clock, the readings its tasks hold, and the host they share. -/
structure Race (catalogue : Catalogue) where
  elapsed : ℕ
  readings : ℕ → Option Instant
  host : Host catalogue

/-- Time passes, in nanoseconds; a task reads the clock; or it takes the lock and
puts the requests of its read to the host. -/
inductive Move where
  | tick (nanos : ℕ)
  | read (task : ℕ)
  | locked (task : ℕ) (peer : Option Peer) (hostTime : Option UInt64) (requests : List Request)

namespace Race

variable {catalogue : Catalogue} (features : Features)

def start (identity : HostIdentity catalogue) (intervals : Intervals) : Race catalogue :=
  ⟨0, fun _ => none, (Host.new identity).withIntervals intervals⟩

/-- The clock's reading, in nanoseconds since the driver started. -/
def now (race : Race catalogue) : Instant := saturateU64 race.elapsed

/-- What is put to the host, at the reading that the task holds. -/
def asks (race : Race catalogue) : Move → List Ask
  | .tick _ | .read _ => []
  | .locked task peer hostTime requests =>
    (race.readings task).toList.flatMap fun now => requests.map fun request => ⟨request, peer, now, hostTime⟩

def next (race : Race catalogue) (move : Move) : Race catalogue where
  elapsed :=
    match move with
    | .tick nanos => race.elapsed + nanos
    | .read _ | .locked .. => race.elapsed
  readings :=
    match move with
    | .tick _ => race.readings
    | .read task => Function.update race.readings task (some race.now)
    | .locked task .. => Function.update race.readings task none
  host := (race.asks move).foldl (Host.next features) race.host

/-- What is put to the host in a run, in the order of the turns. -/
def activations (race : Race catalogue) (moves : List Move) : List Ask :=
  (path (next features) race moves).flatMap fun turn => turn.1.asks turn.2

@[simp] theorem activations_nil (race : Race catalogue) : activations features race [] = [] := rfl

@[simp] theorem activations_cons (race : Race catalogue) (move : Move) (moves : List Move) :
    activations features race (move :: moves) =
      race.asks move ++ activations features (next features race move) moves := rfl

/-! ### One event loop -/

/-- What one event loop does for a read: some time passes, the clock is read, and the
lock is taken before anything else runs. -/
structure Visit where
  nanos : ℕ
  task : ℕ
  peer : Option Peer
  hostTime : Option UInt64
  requests : List Request

def Visit.moves (visit : Visit) : List Move :=
  [.tick visit.nanos, .read visit.task, .locked visit.task visit.peer visit.hostTime visit.requests]

/-- The clock once the time before a visit has passed. -/
def reading (race : Race catalogue) (visit : Visit) : Instant := saturateU64 (race.elapsed + visit.nanos)

theorem now_le_reading (race : Race catalogue) (visit : Visit) : race.now.toNat ≤ (race.reading visit).toNat := by
  rw [now, reading, toNat_saturateU64, toNat_saturateU64]
  omega

theorem activations_visit (race : Race catalogue) (visit : Visit) :
    activations features race visit.moves =
      visit.requests.map fun request => ⟨request, visit.peer, race.reading visit, visit.hostTime⟩ := by
  simp [Visit.moves, next, asks, now, reading]

theorem now_visit (race : Race catalogue) (visit : Visit) :
    (visit.moves.foldl (next features) race).now = race.reading visit := rfl

theorem activations_append (race : Race catalogue) (moves later : List Move) :
    activations features race (moves ++ later) =
      activations features race moves ++ activations features (moves.foldl (next features) race) later := by
  rw [activations, path_append, List.flatMap_append, ← activations, ← activations]

/-- On one loop the turns come in the order of the readings. -/
theorem inOrder_visits (race : Race catalogue) (visits : List Visit) :
    (∀ ask ∈ activations features race (visits.flatMap Visit.moves), race.now.toNat ≤ ask.context.now.toNat) ∧
      Host.InOrder (activations features race (visits.flatMap Visit.moves)) := by
  induction visits generalizing race with
  | nil => exact ⟨by simp, .nil⟩
  | cons visit visits ih =>
    obtain ⟨hlater, hordered⟩ := ih (visit.moves.foldl (next features) race)
    rw [now_visit] at hlater
    have hown : ∀ ask ∈ activations features race visit.moves, ask.context.now = race.reading visit := by
      intro ask hask
      rw [activations_visit, List.mem_map] at hask
      obtain ⟨request, -, rfl⟩ := hask
      rfl
    have hafter := race.now_le_reading visit
    rw [List.flatMap_cons, activations_append]
    refine ⟨?_, List.pairwise_append.mpr ⟨?_, hordered, ?_⟩⟩
    · intro ask hask
      rcases List.mem_append.mp hask with hmem | hmem
      · rwa [hown ask hmem]
      · exact hafter.trans (hlater ask hmem)
    · exact List.pairwise_of_forall_mem_list fun a ha b hb => by rw [hown a ha, hown b hb]
    · intro a ha b hb
      rw [hown a ha]
      exact hlater b hb

/-! ### Complete expiry -/

/-- Every activation of an interleaving leaves nothing behind that is too old, as long
as the turns at the host come in the order of the readings; on one loop they do. -/
theorem expiry_complete (features : Features) (identity : HostIdentity catalogue) (intervals : Intervals) :
    (∀ moves, Host.InOrder (activations features (start identity intervals) moves) →
      ∀ turn ∈ path (Host.next features) (start identity intervals).host
          (activations features (start identity intervals) moves),
        Host.Current features turn.1 turn.2) ∧
    ∀ visits : List Visit,
      ∀ turn ∈ path (Host.next features) (start identity intervals).host
          (activations features (start identity intervals) (visits.flatMap Visit.moves)),
        Host.Current features turn.1 turn.2 := by
  have hcomplete : ∀ moves, Host.InOrder (activations features (start identity intervals) moves) →
      ∀ turn ∈ path (Host.next features) (start identity intervals).host
          (activations features (start identity intervals) moves),
        Host.Current features turn.1 turn.2 := by
    intro moves hordered
    have hretention : 0 < (start identity intervals).host.events.retention := by
      change 0 < defaultRetention
      decide
    exact Host.current_of_inOrder hordered (Host.timely_new identity intervals 0) (fun _ _ => Nat.zero_le _) hretention
  exact ⟨hcomplete, fun visits => hcomplete _ (inOrder_visits features _ visits).2⟩

/-- A machine that asks for Server 2025. -/
def machineAsks (machine : UInt8) : Request :=
  { sampleRequest windows server2025 with clientMachineId := Vector.replicate 16 machine }

/-- The first task reads the clock a nanosecond before the second and has its turn
after it; a third has its turn thirty days after the first reading. -/
def overtaken : List Move :=
  [.read 0, .tick 1, .read 1, .locked 1 none none [machineAsks 1], .locked 0 none none [machineAsks 0],
    .tick (cmidExpiry - 1), .read 2, .locked 2 none none [machineAsks 2]]

/-- The third ask is counted, and leaves in its bucket and in the log what is thirty
days old. -/
theorem overtaken_stays :
    ∃ turn ∈ path (Host.next .default) (start twoIdentities .default).host
        (activations .default (start twoIdentities .default) overtaken),
      isGrant (turn.1.decision .default turn.2) = true ∧
      (∃ bucket ∈ (turn.1.next .default turn.2).counts.buckets,
        bucket.application = some turn.2.request.application ∧
          ∃ entry ∈ bucket.entries, cmidExpiry ≤ turn.2.context.now.saturatingDurationSince entry.seen) ∧
      ∃ event ∈ (turn.1.next .default turn.2).events.events,
        turn.1.events.retention ≤ turn.2.context.now.saturatingDurationSince event.atTime := by
  decide +kernel

end Race

end Kmsrs.Server
