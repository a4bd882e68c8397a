import Kmsrs.Server.Host

/-! What a run of activations leaves behind. A refused request leaves no trace in the
counts; every call leaves one event, in the order of the calls, that says what was
decided; and what a client says about itself beyond its product, machine and demand
decides nothing. -/

namespace Kmsrs.Server

open Kmsrs.Kms Kmsrs.Wire Kmsrs.Db Kmsrs.Policy Kmsrs.Policy.Counting Kmsrs.Policy.Gate Kmsrs.Policy.Events

/-- A request, and where it came from. -/
structure Ask where
  request : Request
  context : RequestContext

def isGrant : Wire.Decision → Bool
  | .grant _ => true
  | .refuse _ => false

namespace Host

variable {catalogue : Catalogue} (features : Features)

def decision (host : Host catalogue) (ask : Ask) : Wire.Decision := (host.activate features ask.request ask.context).1

def next (host : Host catalogue) (ask : Ask) : Host catalogue := (host.activate features ask.request ask.context).2

/-- The requests of a run that were granted. -/
def granted (host : Host catalogue) (asks : List Ask) : List Ask :=
  ((path (next features) host asks).filter fun transition =>
    isGrant (transition.1.decision features transition.2)).map Prod.snd

/-- The gates let the request through. -/
def open? (catalogue : Catalogue) (ask : Ask) : Bool :=
  (refusal features catalogue ask.request ask.context.hostTime).isNone

variable {features}

theorem isGrant_decision (host : Host catalogue) (ask : Ask) :
    isGrant (host.decision features ask) = open? features catalogue ask := by
  rw [decision, open?]
  rcases host.activate_cases features ask.request ask.context with ⟨refused, hrefused, h⟩ | ⟨hopen, h⟩
  · rw [h, hrefused]
    rfl
  · rw [h, hopen]
    rfl

@[simp] theorem next_identity (host : Host catalogue) (ask : Ask) :
    (host.next features ask).identity = host.identity := by
  rw [next]
  rcases host.activate_cases features ask.request ask.context with ⟨refused, -, h⟩ | ⟨-, h⟩ <;> rw [h]

@[simp] theorem next_intervals (host : Host catalogue) (ask : Ask) :
    (host.next features ask).intervals = host.intervals := by
  rw [next]
  rcases host.activate_cases features ask.request ask.context with ⟨refused, -, h⟩ | ⟨-, h⟩ <;> rw [h]

@[simp] theorem next_events (host : Host catalogue) (ask : Ask) :
    (host.next features ask).events = (host.events.record (host.entry features ask.request ask.context)).2 := by
  rw [next]
  rcases host.activate_cases features ask.request ask.context with ⟨refused, -, h⟩ | ⟨-, h⟩ <;> rw [h]

/-! ### The counts -/

/-- A request that is granted is counted; any other is not. -/
def tally (features : Features) (catalogue : Catalogue) (counts : ClientCounts) (ask : Ask) : ClientCounts :=
  if open? features catalogue ask then
    (counts.observe ask.request.application ask.request.clientMachineId ask.request.requiredClients
      ask.context.now).2
  else counts

@[simp] theorem next_counts (host : Host catalogue) (ask : Ask) :
    (host.next features ask).counts = tally features catalogue host.counts ask := by
  rw [next, tally, open?]
  rcases host.activate_cases features ask.request ask.context with ⟨refused, hrefused, h⟩ | ⟨hopen, h⟩
  · rw [h, hrefused]
    rfl
  · rw [h, hopen]
    rfl

theorem counts_foldl (host : Host catalogue) (asks : List Ask) :
    (asks.foldl (next features) host).counts = asks.foldl (tally features catalogue) host.counts := by
  induction asks generalizing host with
  | nil => rfl
  | cons ask asks ih => rw [List.foldl_cons, ih, next_counts, List.foldl_cons]

theorem granted_eq (host : Host catalogue) (asks : List Ask) :
    host.granted features asks = asks.filter (open? features catalogue) := by
  induction asks generalizing host with
  | nil => rfl
  | cons ask asks ih =>
    have hrest := ih (host.next features ask)
    rw [granted] at hrest ⊢
    rw [path, List.filter_cons, isGrant_decision, List.filter_cons]
    split_ifs
    · rw [List.map_cons, hrest]
    · exact hrest

/-- Only the granted requests count. -/
theorem counts_granted (host : Host catalogue) (asks : List Ask) :
    (asks.foldl (next features) host).counts = ((host.granted features asks).foldl (next features) host).counts := by
  rw [counts_foldl, counts_foldl, granted_eq, List.foldl_filter]
  congr 1
  funext counts ask
  rw [tally]
  split_ifs <;> rfl

/-! ### The log -/

/-- An event that says what was asked, and what was decided about it. -/
structure Mirrors (features : Features) (host : Host catalogue) (ask : Ask) (event : Event) : Prop where
  appended : ∃ kept, kept <:+ host.events.events ∧ (host.next features ask).events.events = kept ++ [event]
  sequence : event.sequence = host.events.recorded
  outcome : (∃ activation, event.outcome = .activated activation) ↔ ∃ grant, host.decision features ask = .grant grant
  reported : ∀ grant, host.decision features ask = .grant grant →
    ∃ activation, event.outcome = .activated activation ∧ activation.reportedCount = grant.count
  refused : ∀ result, host.decision features ask = .refuse result →
    ∃ refusal, event.outcome = .refused refusal ∧ result = refusal.hresult
  context : event.atTime = ask.context.now ∧ event.peer = ask.context.peer
  client : event.version = ask.request.version ∧ event.application = ask.request.application ∧
    event.counted = ask.request.counted ∧ event.sku = ask.request.sku ∧
    event.clientMachineId = ask.request.clientMachineId ∧ event.licenseStatus = ask.request.licenseStatus ∧
    event.clientKind = ask.request.clientKind ∧ event.workstationName = ask.request.workstationName

/-- A call appends the event of its entry. -/
theorem mirrors_entry (host : Host catalogue) (ask : Ask) :
    Mirrors features host ask ((host.entry features ask.request ask.context).event host.events.nextSequence) := by
  have happended := host.events.record_appends (host.entry features ask.request ask.context)
  rw [← next_events] at happended
  rcases host.activate_cases features ask.request ask.context with ⟨refused, hrefused, h⟩ | ⟨hopen, h⟩
  · have houtcome : host.outcome features ask.request ask.context = .refused refused := by
      rw [outcome, hrefused]
    have hdecision : host.decision features ask = .refuse refused.hresult := by
      rw [decision, h]
    refine ⟨happended, rfl, ?_, ?_, ?_, ⟨rfl, rfl⟩, rfl, rfl, rfl, rfl, rfl, rfl, rfl, rfl⟩
    · rw [hdecision]
      change (∃ activation, host.outcome features ask.request ask.context = _) ↔ _
      simp [houtcome]
    · intro grant hgrant
      rw [hdecision] at hgrant
      cases hgrant
    · intro result hresult
      rw [hdecision] at hresult
      cases hresult
      exact ⟨refused, houtcome, rfl⟩
  · have hdecision := congrArg Prod.fst h
    change host.decision features ask = _ at hdecision
    have houtcome : ∃ activation, host.outcome features ask.request ask.context = .activated activation ∧
        activation.reportedCount = (host.observed ask.request ask.context).1.reported := by
      refine ⟨_, by rw [outcome, hopen], rfl⟩
    obtain ⟨activation, houtcome, hreported⟩ := houtcome
    refine ⟨happended, rfl, ?_, ?_, ?_, ⟨rfl, rfl⟩, rfl, rfl, rfl, rfl, rfl, rfl, rfl, rfl⟩
    · exact ⟨fun _ => ⟨_, hdecision⟩, fun _ => ⟨activation, houtcome⟩⟩
    · intro grant hgrant
      rw [hdecision] at hgrant
      cases hgrant
      exact ⟨activation, houtcome, hreported⟩
    · intro result hresult
      rw [hdecision] at hresult
      cases hresult

/-- The events of a run: one for each call, and an end of them is held. -/
theorem events_of_run (host : Host catalogue) (asks : List Ask) :
    ∃ logged : List Event,
      List.Forall₂ (fun transition event => Mirrors features transition.1 transition.2 event)
        (path (next features) host asks) logged ∧
      (asks.foldl (next features) host).events.events <:+ host.events.events ++ logged := by
  induction asks generalizing host with
  | nil => exact ⟨[], .nil, by simp [List.foldl_nil]⟩
  | cons ask asks ih =>
    have hmirrors : Mirrors features host ask _ := mirrors_entry host ask
    obtain ⟨kept, hkept, hafter⟩ := hmirrors.appended
    obtain ⟨logged, hlogged, hheld⟩ := ih (host.next features ask)
    refine ⟨_ :: logged, .cons hmirrors hlogged, hheld.trans ?_⟩
    obtain ⟨older, holder⟩ := hkept
    refine ⟨older, ?_⟩
    rw [hafter, List.append_assoc, List.singleton_append, ← List.append_assoc, holder]

/-! ### What decides nothing -/

/-- Requests that differ only in the product key, the workstation's name, the kind and
the licence of the client, its grace time and the machine it was before; and in the
client's clock, where the build does not look at it. -/
structure Alike (features : Features) (a b : Ask) : Prop where
  context : a.context = b.context
  version : a.request.version = b.request.version
  application : a.request.application = b.request.application
  counted : a.request.counted = b.request.counted
  clientMachineId : a.request.clientMachineId = b.request.clientMachineId
  requiredClients : a.request.requiredClients = b.request.requiredClients
  clientTime : features.strictClockSkew = true → a.request.clientTime = b.request.clientTime

section
variable {a b : Ask}

theorem Alike.refusal_eq (h : Alike features a b) :
    refusal features catalogue a.request a.context.hostTime =
      refusal features catalogue b.request b.context.hostTime := by
  unfold refusal
  rw [h.counted, h.application]
  cases hstrict : features.strictClockSkew with
  | true =>
    have hobserved : observations catalogue a.request a.context.hostTime =
        observations catalogue b.request b.context.hostTime := by
      rw [observations, observations, h.counted, h.context, h.clientTime hstrict]
    rw [hobserved]
  | false => simp [Features.refuseClockSkew, hstrict]

theorem Alike.tally_eq (h : Alike features a b) (counts : ClientCounts) :
    tally features catalogue counts a = tally features catalogue counts b := by
  rw [tally, tally, open?, open?, h.refusal_eq, h.application, h.clientMachineId, h.requiredClients, h.context]

/-- A decision rests on the identities, the intervals and the counts. -/
theorem Alike.decision_eq (h : Alike features a b) {host host' : Host catalogue} (hidentity : host.identity = host'.identity)
    (hintervals : host.intervals = host'.intervals) (hcounts : host.counts = host'.counts) :
    host.decision features a = host'.decision features b := by
  have hrefusal : refusal features catalogue a.request a.context.hostTime = _ := h.refusal_eq
  rcases host.activate_cases features a.request a.context with ⟨refused, hrefused, ha⟩ | ⟨hopen, ha⟩
  · rcases host'.activate_cases features b.request b.context with ⟨refused', hrefused', hb⟩ | ⟨hopen', -⟩
    · rw [hrefusal, hrefused'] at hrefused
      cases hrefused
      rw [decision, decision, ha, hb]
    · rw [hrefusal, hopen'] at hrefused
      cases hrefused
  · rcases host'.activate_cases features b.request b.context with ⟨refused', hrefused', -⟩ | ⟨-, hb⟩
    · rw [hrefusal, hrefused'] at hopen
      cases hopen
    · rw [decision, decision, ha, hb]
      simp only [observed, h.application, h.counted, h.clientMachineId, h.requiredClients, h.context, hidentity,
        hintervals, hcounts]

end

/-- The decisions of a run, and the counts each of them leaves. -/
def answers (features : Features) (host : Host catalogue) (asks : List Ask) : List (Wire.Decision × ClientCounts) :=
  (path (next features) host asks).map fun transition =>
    (transition.1.decision features transition.2, (transition.1.next features transition.2).counts)

theorem answers_alike {asks asks' : List Ask} (h : List.Forall₂ (Alike features) asks asks') {host host' : Host catalogue}
    (hidentity : host.identity = host'.identity) (hintervals : host.intervals = host'.intervals)
    (hcounts : host.counts = host'.counts) : host.answers features asks = host'.answers features asks' := by
  induction h generalizing host host' with
  | nil => rfl
  | @cons a b asks asks' hab _ ih =>
    have hnext : (host.next features a).counts = (host'.next features b).counts := by
      rw [next_counts, next_counts, hcounts, hab.tally_eq]
    have hrest := @ih (host.next features a) (host'.next features b) (by simpa using hidentity)
      (by simpa using hintervals) hnext
    simp only [answers, path, List.map_cons, hab.decision_eq hidentity hintervals hcounts, hnext] at hrest ⊢
    rw [hrest]

/-- Refusals are invisible to the counts, every call is mirrored by one event, and
runs of requests that are alike are answered alike. -/
theorem activation_audited (features : Features) (host : Host catalogue) (asks : List Ask) :
    (asks.foldl (next features) host).counts = ((host.granted features asks).foldl (next features) host).counts ∧
    (∃ logged : List Event,
      List.Forall₂ (fun transition event => Mirrors features transition.1 transition.2 event)
        (path (next features) host asks) logged ∧
      (asks.foldl (next features) host).events.events <:+ host.events.events ++ logged) ∧
    ∀ asks', List.Forall₂ (Alike features) asks asks' → host.answers features asks = host.answers features asks' :=
  ⟨counts_granted host asks, events_of_run host asks, fun _ h => answers_alike h rfl rfl rfl⟩

def sampleAsk (request : Request) : Ask := ⟨request, none, 0, none⟩

/-- A virtual machine, late in its grace time, is answered like any other. -/
theorem virtual_client_answered_alike :
    (new twoIdentities).answers .default [sampleAsk (sampleRequest windows server2025)] =
      (new twoIdentities).answers .default
        [sampleAsk { sampleRequest windows server2025 with clientKind := .virtualMachine, grace := 43200 }] :=
  (activation_audited .default (new twoIdentities) [sampleAsk (sampleRequest windows server2025)]).2.2 _
    (.cons ⟨rfl, rfl, rfl, rfl, rfl, rfl, fun _ => rfl⟩ .nil)

end Host

end Kmsrs.Server
