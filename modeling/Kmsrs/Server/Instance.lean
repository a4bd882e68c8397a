import Kmsrs.Server.Config
import Kmsrs.Server.Race
import Kmsrs.Server.Serve

/-! A configured server: its settings, its host and its rate limiter. The host it
builds has a log with the default bounds, whatever the settings say, so the settings
hold of the log where they are no narrower than the defaults. -/

namespace Kmsrs.Server

open Kmsrs.Kms Kmsrs.Wire Kmsrs.Db Kmsrs.Policy Kmsrs.Policy.Gate Kmsrs.Policy.Events

structure Server (catalogue : Catalogue) where
  operational : Config.Operational
  host : Host catalogue
  limiter : Access.RateLimiter

/-- A read handed to the server, on one of its connections. -/
structure Handling (ε : Type) where
  connection : Connection
  entropy : ε
  delivery : Delivery

namespace Server

variable {ε : Type} {catalogue : Catalogue} (features : Features) (digests : Crypto.Digests) (rng : EntropySource ε)

/-- A server around an identity, with the intervals of its build. -/
def new (intervals : Intervals) (operational : Config.Operational) (identity : HostIdentity catalogue) :
    Server catalogue where
  operational
  host := (Host.new identity).withIntervals intervals
  limiter := .new

def withLimiter (server : Server catalogue) (limiter : Access.RateLimiter) : Server catalogue :=
  { server with limiter }

/-- Feed a connection some bytes and collect what it wants to send. -/
def handle (server : Server catalogue) (call : Handling ε) : Turn ε (Host catalogue) :=
  Kmsrs.Server.handle ⟨call.connection, call.entropy, server.host⟩ (call.delivery.read features digests rng)

def next (server : Server catalogue) (call : Handling ε) : Server catalogue :=
  { server with host := (server.handle features digests rng call).machine.host }

def asks (server : Server catalogue) (call : Handling ε) : List Ask :=
  Kmsrs.Server.asks features digests rng ⟨call.connection, call.entropy, server.host⟩ call.delivery

variable {features digests rng}

theorem host_next (server : Server catalogue) (call : Handling ε) :
    (server.next features digests rng call).host =
      (server.asks features digests rng call).foldl (Host.next features) server.host := host_delivery _ _

/-! ### The log's bounds -/

/-- The log is within the configured capacity, and nothing in it is as old at a
reading as the configured retention period. -/
structure Enforced (operational : Config.Operational) (log : EventLog) (now : Instant) : Prop where
  capacity : log.events.length ≤ operational.eventLogCapacity
  retention : ∀ event ∈ log.events, now.saturatingDurationSince event.atTime < operational.eventRetention

/-- What every state of the host satisfies: the log is the default one, within its
bounds, and in the order of its readings. -/
structure Kept (host : Host catalogue) (now : ℕ) : Prop where
  timely : host.Timely now
  capacity : host.events.capacity = defaultCapacity
  retention : host.events.retention = defaultRetention
  room : host.events.events.length ≤ host.events.capacity

section
variable {host : Host catalogue} {earlier : ℕ}

theorem Kept.later (h : Kept host earlier) {now : ℕ} (hle : earlier ≤ now) : Kept host now :=
  ⟨h.timely.later hle, h.capacity, h.retention, h.room⟩

theorem kept_next (h : Kept host earlier) {ask : Ask} (hle : earlier ≤ ask.context.now.toNat) :
    Kept (host.next features ask) ask.context.now.toNat := by
  have hcapacity : 0 < host.events.capacity := by
    rw [h.capacity]
    decide
  refine ⟨Host.timely_next h.timely hle, ?_, ?_, ?_⟩
  · rw [Host.next_capacity, h.capacity]
  · rw [Host.next_retention, h.retention]
  · rw [Host.next_capacity, Host.next_events]
    exact EventLog.length_record_le hcapacity h.room (host.entry features ask.request ask.context)

variable (features) in
/-- The asks of one read, at its reading. -/
theorem kept_run (h : Kept host earlier) {now : Instant} (hle : earlier ≤ now.toNat) {asks : List Ask}
    (hasks : ∀ ask ∈ asks, ask.context.now = now) :
    (∀ turn ∈ path (Host.next features) host asks, Kept turn.1 now.toNat ∧ turn.2.context.now = now) ∧
      Kept (asks.foldl (Host.next features) host) now.toNat := by
  have hnow : Kept host now.toNat := h.later hle
  clear h hle
  induction asks generalizing host with
  | nil => exact ⟨by simp [path], hnow⟩
  | cons ask asks ih =>
    have hask : ask.context.now = now := hasks ask (List.mem_cons_self ..)
    have hnext : Kept (host.next features ask) now.toNat := by
      have hkept : Kept (host.next features ask) ask.context.now.toNat := kept_next hnow (by rw [hask])
      rwa [hask] at hkept
    obtain ⟨hpath, hend⟩ := ih (fun later hlater => hasks later (List.mem_cons_of_mem _ hlater)) hnext
    refine ⟨?_, hend⟩
    intro turn hturn
    rcases List.mem_cons.mp hturn with rfl | hlater
    · exact ⟨hnow, hask⟩
    · exact hpath turn hlater

theorem enforced_next {operational : Config.Operational} (hcapacity : defaultCapacity ≤ operational.eventLogCapacity)
    (hretention : defaultRetention ≤ operational.eventRetention) (h : Kept host earlier) {ask : Ask}
    (hle : earlier ≤ ask.context.now.toNat) :
    Enforced operational (host.next features ask).events ask.context.now := by
  have hnext : Kept (host.next features ask) ask.context.now.toNat := kept_next h hle
  have hpositive : 0 < host.events.retention := by
    rw [h.retention]
    decide
  refine ⟨hnext.room.trans (hnext.capacity ▸ hcapacity), fun event hevent => ?_⟩
  have hlive := (Host.current_of_timely h.timely hpositive ask).events event hevent
  rw [h.retention] at hlive
  exact hlive.trans_le hretention

theorem kept_new (intervals : Intervals) (operational : Config.Operational) (identity : HostIdentity catalogue) :
    Kept (new intervals operational identity).host 0 :=
  ⟨Host.timely_new identity intervals 0, rfl, rfl, Nat.zero_le _⟩

theorem enforced_of_kept {operational : Config.Operational} (hcapacity : defaultCapacity ≤ operational.eventLogCapacity)
    (hretention : defaultRetention ≤ operational.eventRetention) {server : Server catalogue}
    (h : Kept server.host earlier) {calls : List (Handling ε)}
    (hstart : ∀ call ∈ calls, earlier ≤ call.delivery.context.now.toNat)
    (hordered : calls.Pairwise fun a b => a.delivery.context.now ≤ b.delivery.context.now) :
    ∀ turn ∈ path (next features digests rng) server calls,
      turn.1.host.events.events.length ≤ operational.eventLogCapacity ∧
        ∀ within ∈ path (Host.next features) turn.1.host (turn.1.asks features digests rng turn.2),
          Enforced operational (within.1.next features within.2).events within.2.context.now := by
  induction calls generalizing server earlier with
  | nil => simp [path]
  | cons call calls ih =>
    obtain ⟨hfirst, hrest⟩ := List.pairwise_cons.mp hordered
    have hle := hstart call (List.mem_cons_self ..)
    have hnow : ∀ ask ∈ server.asks features digests rng call, ask.context.now = call.delivery.context.now :=
      fun ask hask => congrArg RequestContext.now (context_of_mem_asks hask)
    obtain ⟨hwithin, hafter⟩ := kept_run features h hle hnow
    intro turn hturn
    rcases List.mem_cons.mp hturn with rfl | hlater
    · refine ⟨h.room.trans (h.capacity ▸ hcapacity), fun within hmem => ?_⟩
      obtain ⟨hkept, hreading⟩ := hwithin within hmem
      exact enforced_next hcapacity hretention hkept (by rw [hreading])
    · have hlogged : Kept (server.next features digests rng call).host call.delivery.context.now.toNat := by
        rw [host_next]
        exact hafter
      exact ih hlogged (fun later hmem => UInt64.le_iff_toNat_le.mp (hfirst later hmem)) hrest turn hlater

end

/-- Where the document asks for no narrower bounds than the defaults, every run of the
server it configures, at readings that never decrease, keeps the log within them. -/
theorem configured_bounds_enforced {fromStr : String → Except String Config.Document} {document : String}
    {operational : Config.Operational} (hparse : Config.Operational.parse fromStr document = .ok operational)
    (hroomy : ∀ parsed, fromStr document = .ok parsed → parsed.Roomy) (features : Features)
    (digests : Crypto.Digests) (rng : EntropySource ε) (intervals : Intervals) (identity : HostIdentity catalogue)
    (calls : List (Handling ε))
    (hordered : calls.Pairwise fun a b => a.delivery.context.now ≤ b.delivery.context.now) :
    ∀ turn ∈ path (next features digests rng) (new intervals operational identity) calls,
      turn.1.host.events.events.length ≤ operational.eventLogCapacity ∧
        ∀ within ∈ path (Host.next features) turn.1.host (turn.1.asks features digests rng turn.2),
          Enforced operational (within.1.next features within.2).events within.2.context.now := by
  obtain ⟨hcapacity, hretention⟩ := Config.Operational.bounds_of_roomy hparse hroomy
  exact enforced_of_kept hcapacity hretention (kept_new intervals operational identity) (fun _ _ => Nat.zero_le _)
    hordered

/-- What the document syntax makes of two sample documents. -/
def sampleSyntax (document : String) : Except String Config.Document :=
  if document = "event-log-capacity = 1" then .ok { eventLogCapacity := some 1 }
  else if document = "event-log-capacity = 5000" then .ok { eventLogCapacity := some 5000 }
  else .error "unknown field"

/-- Two calls on one connection, at one reading. -/
def twoCalls : List (Handling Unit) :=
  List.replicate 2 ⟨boundConnection, (), ⟨callBytes office, none, 0, none⟩⟩

theorem roomy_bounds_enforced :
    twoCalls.length = 2 ∧
      ∀ turn ∈ path (next .default Connection.denying.digests Connection.denying.rng)
          (new .default { Config.Operational.default with eventLogCapacity := 5000 } twoIdentities) twoCalls,
        turn.1.host.events.events.length ≤ 5000 ∧
          ∀ within ∈ path (Host.next .default) turn.1.host
              (turn.1.asks .default Connection.denying.digests Connection.denying.rng turn.2),
            Enforced { Config.Operational.default with eventLogCapacity := 5000 }
              (within.1.next .default within.2).events within.2.context.now := by
  have hread : sampleSyntax "event-log-capacity = 5000" = .ok { eventLogCapacity := some 5000 } := by decide
  have hparse : Config.Operational.parse sampleSyntax "event-log-capacity = 5000" =
      .ok { Config.Operational.default with eventLogCapacity := 5000 } := by decide +kernel
  refine ⟨rfl, configured_bounds_enforced hparse ?_ .default Connection.denying.digests Connection.denying.rng .default
    twoIdentities twoCalls (by decide)⟩
  intro parsed hparsed
  rw [hread] at hparsed
  cases hparsed
  exact ⟨by simp [defaultCapacity], by simp⟩

/-- With a capacity of one configured, two requests leave two events. -/
theorem configured_capacity_exceeded :
    ∃ operational, Config.Operational.parse sampleSyntax "event-log-capacity = 1" = .ok operational ∧
      operational.eventLogCapacity = 1 ∧
      (twoCalls.foldl (next .default Connection.denying.digests Connection.denying.rng)
        (new .default operational twoIdentities)).host.events.events.length = 2 := by
  refine ⟨{ Config.Operational.default with eventLogCapacity := 1 }, by decide +kernel, rfl, ?_⟩
  decide +kernel

end Server

end Kmsrs.Server
