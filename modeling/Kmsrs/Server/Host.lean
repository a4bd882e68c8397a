import Kmsrs.Policy.Journal
import Kmsrs.Wire.Connection

/-! The host: the identities it draws, the client counts and the event log. A request
is decided, counted if it is granted, and logged in either case. -/

namespace Kmsrs.Server

open Kmsrs.Kms Kmsrs.Wire Kmsrs.Db Kmsrs.Policy Kmsrs.Policy.Counting Kmsrs.Policy.Gate Kmsrs.Policy.Events

/-- Where and when a request came in; the wall clock is only for its skew. -/
structure RequestContext where
  peer : Option Peer
  now : Instant
  hostTime : Option UInt64

structure Host (catalogue : Catalogue) where
  identity : HostIdentity catalogue
  counts : ClientCounts
  events : EventLog
  intervals : Intervals

namespace Host

variable {catalogue : Catalogue}

/-- An empty world around an identity. -/
def new (identity : HostIdentity catalogue) : Host catalogue where
  identity
  counts := .new
  events := .default
  intervals := .default

def withIntervals (host : Host catalogue) (intervals : Intervals) : Host catalogue := { host with intervals }

/-- Decide a request, count it, and log it. -/
def activate (features : Features) (host : Host catalogue) (request : Request) (context : RequestContext) :
    Wire.Decision × Host catalogue :=
  match evaluate features request host.identity host.counts context.now context.hostTime with
  | (.grant grant, observations, counts) =>
    (.grant
      { epid := grant.identity.epid
        count := grant.counts.reported
        intervals := host.intervals
        hardwareId := grant.identity.hardwareId },
      { host with
        counts
        events := (host.events.recordGrant request context.peer context.now grant observations).2 })
  | (.refuse refusal, observations, counts) =>
    let entry := { request, peer := context.peer, now := context.now, outcome := .refused refusal, observations }
    (.refuse refusal.hresult, { host with counts, events := (host.events.record entry).2 })

/-! ### What an activation does -/

section
variable (features : Features) (host : Host catalogue) (request : Request) (context : RequestContext)

/-- What is counted of a request if it is granted. -/
def observed : CountView × ClientCounts :=
  host.counts.observe request.application request.clientMachineId request.requiredClients context.now

/-- The outcome that is logged. -/
def outcome : Events.Outcome :=
  match refusal features catalogue request context.hostTime with
  | some refused => .refused refused
  | none => .activated
    { selection := (host.identity.select request.application request.counted).1
      reportedCount := (host.observed request context).1.reported
      cachedCount := (host.observed request context).1.cached
      outcome := (host.observed request context).1.outcome
      expired := (host.observed request context).1.expired
      anomalousDemand := (host.observed request context).1.anomalousDemand }

/-- What is logged. -/
def entry : Record where
  request
  peer := context.peer
  now := context.now
  outcome := host.outcome features request context
  observations := observations catalogue request context.hostTime

/-- A request that a gate stops is refused and leaves the counts alone; any other is
granted and counted. Both are logged. -/
theorem activate_cases :
    (∃ refused, refusal features catalogue request context.hostTime = some refused ∧
      host.activate features request context = (.refuse refused.hresult,
        { host with events := (host.events.record (host.entry features request context)).2 })) ∨
    (refusal features catalogue request context.hostTime = none ∧
      host.activate features request context =
        (.grant
          { epid := (host.identity.select request.application request.counted).2.epid
            count := (host.observed request context).1.reported
            intervals := host.intervals
            hardwareId := (host.identity.select request.application request.counted).2.hardwareId },
          { host with
            counts := (host.observed request context).2
            events := (host.events.record (host.entry features request context)).2 })) := by
  rcases evaluate_cases features request host.identity host.counts context.now context.hostTime with
    ⟨refused, hrefused, h⟩ | ⟨hopen, h⟩
  · left
    refine ⟨refused, hrefused, ?_⟩
    simp only [activate, h, entry, outcome, hrefused]
  · right
    refine ⟨hopen, ?_⟩
    simp only [activate, h, entry, outcome, hopen, EventLog.recordGrant, observed]

end

end Host

end Kmsrs.Server
