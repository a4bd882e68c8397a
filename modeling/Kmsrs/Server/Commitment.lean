import Kmsrs.Server.Room
import Kmsrs.Server.Serve
import Kmsrs.Wire.Client

/-! Whether an activation is sent. The host decides, counts and logs before the answer
is encrypted and framed, and nothing is taken back: a source without the draws, or a
buffer without room, closes the connection over a count that was raised and an event
that says so. -/

namespace Kmsrs.Server

open Kmsrs.Bytes Kmsrs.Kms Kmsrs.Wire Kmsrs.Db Kmsrs.Policy.Gate Kmsrs.Policy.Events

/-! ### Answering a request that is granted -/

section
variable {ε σ : Type} (env : Env ε σ) {connection : Connection} {payload : List UInt8} {decoded : DecodedRequest}
  {host host' : σ} {grant : Wire.Grant} (callId : UInt32) (contextId : UInt16) (transfer : TransferSyntax)
  (entropy : ε) (out : List UInt8)

/-- What it takes to send an answer: the draws of its version, and room for its PDU. -/
def Deliverable (rng : EntropySource ε) (version : Version) (epid : EPid) : Prop :=
  (∃ freshIv salt entropy', Draws rng entropy (responseDraws version freshIv salt) entropy') ∧
    headerLen + Stub.responseStubLen transfer (answerLen version epid) ≤ out.length

variable {transfer entropy out} in
/-- Only version 4 is answered without a draw. -/
theorem not_deliverable_of_none {rng : EntropySource ε} {version : Version} {epid : EPid} {entropy' : ε}
    (hversion : version ≠ .v4) (hnone : rng.fill entropy 16 = (none, entropy')) :
    ¬ Deliverable transfer entropy out rng version epid := by
  rintro ⟨⟨freshIv, salt, last, hdraws⟩, -⟩
  cases version with
  | v4 => exact hversion rfl
  | v5 | v6 =>
    obtain ⟨next, hdrawn, -⟩ := hdraws
    rw [hnone] at hdrawn
    cases hdrawn

variable (hdecode : Kms.decode payload connection.ciphers = .ok decoded)
  (hgrant : env.activate host decoded.request = (.grant grant, host'))
include hdecode hgrant

theorem answer_of_deliverable (h : Deliverable transfer entropy out env.rng decoded.version grant.epid) :
    ∃ response, Sends out (responsePdu callId contextId transfer .ok response)
        (connection.answer env callId contextId transfer payload entropy host out).toReply ∧
      ∀ scratch : List UInt8, response.length ≤ scratch.length → ∃ fields,
        decodeResponse decoded.version response (connection.ciphers.schedule decoded.version) scratch = .ok fields ∧
          fields.count = grant.count := by
  obtain ⟨⟨freshIv, salt, entropy', hdraws⟩, hroom⟩ := h
  obtain ⟨response, hlen, hencode, hread⟩ := encode_of_draws env.digests (planOf grant decoded.request) hdecode hdraws
    (List.length_replicate (n := maxResponseLen) (a := (0 : UInt8))).ge
  have hsmall : response.length ≤ 296 := hlen ▸ answerLen_le _ _
  obtain ⟨hdeclared, -, hhint⟩ := responsePdu_fits transfer .ok hsmall
  have hfits : responsePduLen transfer .ok response ≤ out.length := by
    show headerLen + Stub.responseStubLen transfer response.length ≤ out.length
    rw [hlen]
    exact hroom
  refine ⟨response, ?_, hread⟩
  rw [Connection.answer_of_grant env entropy out callId contextId transfer hdecode hgrant, hencode]
  dsimp only
  rw [List.take_left, writeResponsePdu_eq, if_pos ⟨hdeclared, hfits, hhint⟩, ← length_responsePdu callId contextId]
  exact ⟨rfl, rfl⟩

theorem answer_of_not_deliverable (h : ¬ Deliverable transfer entropy out env.rng decoded.version grant.epid) :
    (connection.answer env callId contextId transfer payload entropy host out).step = .close .refused := by
  rw [Connection.answer_of_grant env entropy out callId contextId transfer hdecode hgrant]
  by_cases hdraws : ∃ freshIv salt entropy', Draws env.rng entropy (responseDraws decoded.version freshIv salt) entropy'
  · obtain ⟨freshIv, salt, entropy', hdraws⟩ := hdraws
    obtain ⟨response, hlen, hencode, -⟩ := encode_of_draws env.digests (planOf grant decoded.request) hdecode hdraws
      (List.length_replicate (n := maxResponseLen) (a := (0 : UInt8))).ge
    have hroom : ¬ responsePduLen transfer .ok response ≤ out.length := by
      intro hroom
      change headerLen + Stub.responseStubLen transfer response.length ≤ out.length at hroom
      rw [hlen] at hroom
      exact h ⟨⟨freshIv, salt, entropy', hdraws⟩, hroom⟩
    rw [hencode]
    dsimp only
    rw [List.take_left, writeResponsePdu_eq, if_neg (fun hfits => hroom hfits.2.1)]
  · split
    next error entropy' hencode => rfl
    next written response entropy' hencode =>
      obtain ⟨freshIv, salt, hdrawn⟩ := draws_of_encode _ _ hencode
      exact absurd ⟨freshIv, salt, entropy', hdrawn⟩ hdraws

end

/-! ### The host and the answer -/

variable {ε : Type} {catalogue : Catalogue}

/-- A step hands over this call, and its payload decodes to this request. -/
structure Puts (connection : Connection) (handed : Handed) (decoded : DecodedRequest) : Prop where
  handed : connection.handed? = some handed
  decodes : ∃ payload, connection.payload? = some payload ∧ Kms.decode payload connection.ciphers = .ok decoded

section
variable (features : Features) (context : RequestContext) (host : Host catalogue)

/-- A step put a request to the host, which granted it and logged the activation. -/
def Activates (outcome : Outcome ε (Host catalogue)) (activation : Activation) : Prop :=
  ∃ request, outcome.asked = some request ∧ host.outcome features request context = .activated activation ∧
    outcome.host.events = (host.events.record (host.entry features request context)).2

/-- A step activated a request, or there is an event of an activation in the log that was
not in it, or the counts changed. -/
def Commits (outcome : Outcome ε (Host catalogue)) : Prop :=
  (∃ activation, Activates features context host outcome activation) ∨
    (∃ event ∈ outcome.host.events.events, event ∉ host.events.events ∧
      ∃ activation, event.outcome = .activated activation) ∨
    outcome.host.counts ≠ host.counts

end

/-- The call is sent a response of success, and its payload gives the client the count
that the activation recorded. -/
def Delivers (connection : Connection) (out : List UInt8) (outcome : Outcome ε (Host catalogue))
    (activation : Activation) : Prop :=
  ∃ handed decoded response, Puts connection handed decoded ∧
    Sends out (responsePdu handed.callId handed.contextId handed.transfer .ok response) outcome.toReply ∧
    ∀ scratch : List UInt8, response.length ≤ scratch.length → ∃ fields,
      decodeResponse decoded.version response (connection.ciphers.schedule decoded.version) scratch = .ok fields ∧
        fields.count = activation.reportedCount

/-- The ePID that a request is granted under. -/
def Host.epidFor (host : Host catalogue) (request : Request) : EPid :=
  (host.identity.select request.application request.counted).2.epid

section
variable (features : Features) (digests : Crypto.Digests) (rng : EntropySource ε) (machine : Machine ε (Host catalogue))
  (context : RequestContext) (now : Instant) (out : List UInt8) {handed : Handed} {decoded : DecodedRequest}

/-- A step that puts a request to the host is the answer to it. -/
theorem stepped_of_puts (h : Puts machine.connection handed decoded) :
    ∃ (connection : Connection) (payload : List UInt8), connection.ciphers = machine.connection.ciphers ∧
      Kms.decode payload connection.ciphers = .ok decoded ∧
      machine.stepped (hostEnv features digests rng context) now out =
        connection.answer (hostEnv features digests rng context) handed.callId handed.contextId handed.transfer payload
          machine.entropy machine.host out := by
  obtain ⟨payload, hpayload, hdecode⟩ := h.decodes
  obtain ⟨handed', inbound, hhanded, hstep⟩ :=
    Connection.step_of_payload (hostEnv features digests rng context) machine.entropy machine.host out hpayload now
  rw [h.handed] at hhanded
  cases hhanded
  refine ⟨_, payload, ?_, ?_, hstep⟩
  · rfl
  · exact hdecode

/-- A request that no gate refuses is activated, and is answered if that is possible. -/
theorem stepped_of_open (h : Puts machine.connection handed decoded)
    (hopen : refusal features catalogue decoded.request context.hostTime = none) :
    ∃ activation,
      Activates features context machine.host (machine.stepped (hostEnv features digests rng context) now out)
          activation ∧
        (Deliverable handed.transfer machine.entropy out rng decoded.version (machine.host.epidFor decoded.request) →
          Delivers machine.connection out (machine.stepped (hostEnv features digests rng context) now out)
            activation) ∧
        (¬ Deliverable handed.transfer machine.entropy out rng decoded.version
            (machine.host.epidFor decoded.request) →
          (machine.stepped (hostEnv features digests rng context) now out).step = .close .refused) := by
  obtain ⟨connection, payload, hciphers, hdecode, hstep⟩ :=
    stepped_of_puts features digests rng machine context now out h
  rcases machine.host.activate_cases features decoded.request context with ⟨refused, hrefused, -⟩ | ⟨-, hgrant⟩
  · rw [hopen] at hrefused
    cases hrefused
  · obtain ⟨hasked, hhost⟩ := Connection.answer_asks (hostEnv features digests rng context) machine.entropy machine.host
      out connection handed.callId handed.contextId handed.transfer hdecode
    rw [hstep]
    refine ⟨_, ⟨decoded.request, hasked, by rw [Host.outcome, hopen], ?_⟩, fun hdeliverable => ?_, fun hnot => ?_⟩
    · rw [hhost]
      exact Host.next_events machine.host ⟨decoded.request, context⟩
    · obtain ⟨response, hsends, hread⟩ := answer_of_deliverable (hostEnv features digests rng context) handed.callId
        handed.contextId handed.transfer machine.entropy out hdecode hgrant hdeliverable
      rw [hciphers] at hread
      exact ⟨handed, decoded, response, h, hsends, hread⟩
    · exact answer_of_not_deliverable (hostEnv features digests rng context) handed.callId handed.contextId
        handed.transfer machine.entropy out hdecode hgrant hnot

/-- What a step commits, it commits to a request that no gate refused. -/
theorem puts_of_commits (hsound : machine.connection.Sound)
    (h : Commits features context machine.host (machine.stepped (hostEnv features digests rng context) now out)) :
    ∃ handed decoded, Puts machine.connection handed decoded ∧
      refusal features catalogue decoded.request context.hostTime = none := by
  have hhost : (machine.stepped (hostEnv features digests rng context) now out).host =
      (hostEnv features digests rng context).asked machine.host
        (machine.stepped (hostEnv features digests rng context) now out).asked :=
    Connection.host_step (hostEnv features digests rng context) machine.entropy machine.host out machine.connection now
  cases hasked : (machine.stepped (hostEnv features digests rng context) now out).asked with
  | none =>
    rw [hasked] at hhost
    rcases h with ⟨activation, request, hsome, -⟩ | ⟨event, hnew, hold, -⟩ | hcounts
    · rw [hasked] at hsome
      cases hsome
    · rw [hhost] at hnew
      exact absurd hnew hold
    · rw [hhost] at hcounts
      exact absurd rfl hcounts
  | some request =>
    obtain ⟨handed, parsed, decoded, hhanded, hparse, hdecode, rfl⟩ :=
      Connection.handed_of_asked (hostEnv features digests rng context) machine.entropy machine.host out hsound now hasked
    have hpayload : machine.connection.payload? = some parsed.data := by
      rw [Connection.payload?, hhanded, Option.bind_some, hparse]
      rfl
    refine ⟨handed, decoded, ⟨hhanded, parsed.data, hpayload, hdecode⟩, ?_⟩
    rcases machine.host.activate_cases features decoded.request context with ⟨refused, hrefused, hrefuse⟩ | ⟨hopen, -⟩
    · exfalso
      have hafter : (machine.stepped (hostEnv features digests rng context) now out).host =
          { machine.host with
            events := (machine.host.events.record (machine.host.entry features decoded.request context)).2 } := by
        rw [hhost, hasked]
        exact congrArg Prod.snd hrefuse
      have houtcome : machine.host.outcome features decoded.request context = .refused refused := by
        rw [Host.outcome, hrefused]
      rcases h with ⟨activation, request, hsome, hactivated, -⟩ | ⟨event, hnew, hold, activation, hactivated⟩ | hcounts
      · rw [hasked] at hsome
        cases hsome
        rw [houtcome] at hactivated
        cases hactivated
      · obtain ⟨kept, hkept, hevents⟩ :=
          machine.host.events.record_appends (machine.host.entry features decoded.request context)
        rw [hafter] at hnew
        dsimp only at hnew
        rw [hevents, List.mem_append, List.mem_singleton] at hnew
        rcases hnew with hkeeps | rfl
        · exact hold (hkept.subset hkeeps)
        · cases houtcome.symm.trans hactivated
      · rw [hafter] at hcounts
        exact hcounts rfl
    · exact hopen

end

/-- In every state of every run, whatever the step is given: what the step commits is
delivered by that same step, exactly when the answer to a request that no gate refuses
can be drawn and fits. -/
theorem commitment_delivered_iff (features : Features) (digests : Crypto.Digests) (rng : EntropySource ε)
    (assocGroup : UInt32) (ndr64Enabled : Bool) (entropy : ε) (host : Host catalogue)
    (calls : List (Call ε (Host catalogue))) (context : RequestContext) (now : Instant) (out : List UInt8) :
    let machine := calls.foldl Machine.next (.start assocGroup ndr64Enabled entropy host)
    let outcome := machine.stepped (hostEnv features digests rng context) now out
    (Commits features context machine.host outcome →
        ∃ activation, Activates features context machine.host outcome activation ∧
          Delivers machine.connection out outcome activation) ↔
      ∀ handed decoded, Puts machine.connection handed decoded →
        refusal features catalogue decoded.request context.hostTime = none →
        Deliverable handed.transfer machine.entropy out rng decoded.version (machine.host.epidFor decoded.request) := by
  intro machine outcome
  have hsound : machine.connection.Sound := Machine.sound_run (Runs.of_path calls)
  constructor
  · intro hatomic handed decoded hputs hopen
    by_contra hnot
    obtain ⟨activation, hactivates, -, hcloses⟩ :=
      stepped_of_open features digests rng machine context now out hputs hopen
    obtain ⟨delivered, -, hdelivers⟩ := hatomic (.inl ⟨activation, hactivates⟩)
    obtain ⟨handed', decoded', response, -, ⟨hsend, -⟩, -⟩ := hdelivers
    exact absurd (hsend.symm.trans (hcloses hnot)) (by simp)
  · intro hdeliverable hcommits
    obtain ⟨handed, decoded, hputs, hopen⟩ :=
      puts_of_commits features digests rng machine context now out hsound hcommits
    obtain ⟨activation, hactivates, hdelivers, -⟩ :=
      stepped_of_open features digests rng machine context now out hputs hopen
    exact ⟨activation, hactivates, hdelivers (hdeliverable handed decoded hputs hopen)⟩

/-! ### A salt that is not drawn -/

/-- An encrypted request that is granted when there is nothing to draw is activated
and not answered. -/
theorem unsent_of_none (features : Features) (digests : Crypto.Digests) (rng : EntropySource ε)
    (machine : Machine ε (Host catalogue)) (context : RequestContext) (now : Instant) (out : List UInt8)
    {handed : Handed} {decoded : DecodedRequest} (hputs : Puts machine.connection handed decoded)
    (hopen : refusal features catalogue decoded.request context.hostTime = none) (hversion : decoded.version ≠ .v4)
    {entropy' : ε} (hnone : rng.fill machine.entropy 16 = (none, entropy')) :
    let outcome := machine.stepped (hostEnv features digests rng context) now out
    (∃ activation, Activates features context machine.host outcome activation) ∧ outcome.step = .close .refused ∧
      ¬ (Commits features context machine.host outcome → ∃ activation,
        Activates features context machine.host outcome activation ∧
          Delivers machine.connection out outcome activation) := by
  intro outcome
  obtain ⟨activation, hactivates, -, hcloses⟩ :=
    stepped_of_open features digests rng machine context now out hputs hopen
  have hclose : outcome.step = .close .refused := hcloses (not_deliverable_of_none hversion hnone)
  refine ⟨⟨activation, hactivates⟩, hclose, fun hatomic => ?_⟩
  obtain ⟨activation', -, handed', decoded', response, -, ⟨hsend, -⟩, -⟩ := hatomic (.inl ⟨activation, hactivates⟩)
  exact absurd (hsend.symm.trans hclose) (by simp)

open Kmsrs.Wire.Client

/-- A request that a client frames on a context held first under its ID is put. -/
theorem puts_request {σ : Type} {machine : Machine ε σ} (hempty : machine.connection.inbound.items = [])
    {contextId : UInt16} {transfer : TransferSyntax} {payload : List UInt8} {decoded : DecodedRequest}
    (hheld : (machine.connection.phase.contexts.find? fun held => held.contextId = contextId) =
      some ⟨contextId, transfer⟩)
    (hfits : headerLen + (requestStub contextId transfer payload).length ≤ maxPduLen)
    (hdecode : Kms.decode payload machine.connection.ciphers = .ok decoded) (callId : UInt32) :
    ∃ handed, Puts (machine.next (.receive (requestFragment callId contextId transfer payload).bytes)).connection
      handed decoded := by
  have hroom : machine.connection.inbound.items.length +
      (requestFragment callId contextId transfer payload).bytes.length ≤ maxPduLen := by
    rw [hempty, List.length_nil, Nat.zero_add, Fragment.length_bytes]
    exact hfits
  have htaken := ArrayVec.tryExtendFromSlice_eq_some hroom
  generalize (⟨machine.connection.inbound.items ++ _, _⟩ : ArrayVec UInt8 maxPduLen) = inbound at htaken
  have hinbound : inbound.items = (requestFragment callId contextId transfer payload).bytes ++ [] := by
    rw [ArrayVec.items_of_tryExtendFromSlice htaken, hempty, List.nil_append, List.append_nil]
  have hreceived : (machine.next (.receive (requestFragment callId contextId transfer payload).bytes)).connection =
      { machine.connection with inbound } := by
    rw [Machine.next, Connection.receive, htaken]
    rfl
  have hshort : payload.length < 2 ^ 32 := by
    rw [length_requestStub] at hfits
    simp only [maxPduLen] at hfits
    omega
  have hpayload : { machine.connection with inbound }.payload? = some payload := by
    rw [payload?_request hfits hinbound, hheld, Option.bind_some, parseRequest_requestStub contextId transfer hshort]
    rfl
  obtain ⟨handed, hhanded, -⟩ := Option.bind_eq_some_iff.mp hpayload
  rw [hreceived]
  exact ⟨handed, hhanded, payload, hpayload, hdecode⟩

/-- A source that yields as many draws as are left. -/
def fewDraws : EntropySource ℕ := ⟨fun left n => if left = 0 then (none, 0) else (some (.replicate n 0x5a), left - 1)⟩

/-- A read from nowhere, when the host has just started. -/
def nowhere : RequestContext := ⟨none, 0, none⟩

/-- A Windows client of Server 2025, under version 5. -/
def encryptedBody : RequestBody :=
  { hostKeyBody windows with
    version := Version.v5.toProtocolVersion.toWire
    kmsCountedId := .fromGuid server2025 }

/-- Bound in NDR32 on context 0; the acknowledgement took the only draw. -/
def boundAndDrained : Machine ℕ (Host twoKeys) :=
  [Call.receive bindBytes, .step (hostEnv .default Connection.denying.digests fewDraws nowhere) 0
    (List.replicate maxResponseLen 0)].foldl Machine.next (.start 0 false 1 freshHost)

def encryptedPayload : List UInt8 :=
  encryptedRequestBytes Version.v5.toProtocolVersion encryptedBody boundAndDrained.connection.ciphers.v5 (.replicate 16 0)

theorem boundAndDrained_eq :
    boundAndDrained.entropy = 0 ∧ boundAndDrained.connection.inbound.items = [] ∧
      (boundAndDrained.connection.phase.contexts.find? fun held => held.contextId = 0) = some ⟨0, .ndr32⟩ := by
  decide +kernel

/-- The request is received behind the bind. -/
def saltless : Machine ℕ (Host twoKeys) :=
  boundAndDrained.next (.receive (requestFragment 2 0 .ndr32 encryptedPayload).bytes)

theorem open_encryptedBody : refusal .default twoKeys (Request.fromBody encryptedBody) none = none := by
  have hproduct := twoKeys_server2025.1
  rw [Option.isNone_iff_eq_none] at hproduct
  simp [refusal, Request.fromBody, encryptedBody, WireGuid.toGuid_fromGuid, hproduct, Features.refuseClockSkew,
    Features.default]

/-- There is no draw left for the salt, so the connection is closed without an answer,
and the host has logged an activation. -/
theorem salt_not_drawn :
    let outcome := saltless.stepped (hostEnv .default Connection.denying.digests fewDraws nowhere) 0
      (List.replicate maxResponseLen 0)
    (∃ activation, Activates .default nowhere saltless.host outcome activation) ∧ outcome.step = .close .refused ∧
      ¬ (Commits .default nowhere saltless.host outcome → ∃ activation,
        Activates .default nowhere saltless.host outcome activation ∧
          Delivers saltless.connection (List.replicate maxResponseLen 0) outcome activation) := by
  obtain ⟨hentropy, hempty, hheld⟩ := boundAndDrained_eq
  have hpayload : encryptedPayload.length = requestV5Len := length_encryptedRequestBytes ..
  have hfits : headerLen + (requestStub 0 .ndr32 encryptedPayload).length ≤ maxPduLen := by
    rw [length_requestStub, hpayload]
    decide
  have hschedule : boundAndDrained.connection.ciphers.schedule .v5 = some boundAndDrained.connection.ciphers.v5 := rfl
  have hdecode := decode_encryptedRequestBytes encryptedBody (.replicate 16 0) hschedule
  rw [← encryptedPayload] at hdecode
  obtain ⟨handed, hputs⟩ := puts_request hempty hheld hfits hdecode 2
  rw [← saltless] at hputs
  have hnone : fewDraws.fill saltless.entropy 16 = (none, 0) := by
    rw [saltless, Machine.next, hentropy]
    rfl
  exact unsent_of_none .default Connection.denying.digests fewDraws saltless nowhere 0 (List.replicate maxResponseLen 0)
    hputs open_encryptedBody (by simp [decodedEncrypted]) hnone

end Kmsrs.Server
