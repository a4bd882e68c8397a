import Kmsrs.Kms.Exchange
import Kmsrs.Server.Handle
import Kmsrs.Wire.Asked
import Kmsrs.Wire.Segmentation

/-! Whether the scratch buffer holds every reply. It was sized for a payload, but
takes whole PDUs: a response fits with either syntax and any ePID, and an
acknowledgement grows with the contexts that are answered, past the buffer from
the fifteenth on. -/

namespace Kmsrs.Server

open Kmsrs.Bytes Kmsrs.Kms Kmsrs.Wire Kmsrs.Wire.Bind

variable {ε σ : Type} {connection : Connection} {out : List UInt8} {env : Env ε σ} {entropy : ε} {host : σ}

/-! ### Acknowledgements -/

theorem drawNoise_of_works {rng : EntropySource ε} (hworks : rng.Works) (entropy : ε) (padding : ℕ) :
    ∃ noise entropy', drawNoise rng entropy padding = (some noise, entropy') := by
  unfold drawNoise
  split_ifs
  · obtain ⟨bytes, next, h⟩ := hworks entropy padding
    rw [h]
    exact ⟨bytes.toList, next, rfl⟩
  · exact ⟨[], entropy, rfl⟩

theorem le_ackLen (parameters : AckParameters) (count : ℕ) : 32 + count * resultLen ≤ parameters.ackLen count := by
  simp only [AckParameters.ackLen, AckParameters.padding, alignPadding, AckParameters.beforePadding, headerLen,
    ackPrefixLen]
  omega

/-- With or without an address, there is room for fourteen results. -/
theorem ackLen_fits_iff {parameters : AckParameters} (h : parameters.addressLen ≤ maxSecondaryAddressLen)
    {body : List UInt8} {request : BindRequest} (hparse : Bind.parse body = .ok request) (ndr64Enabled : Bool) :
    parameters.ackLen (Bind.decide request ndr64Enabled).results.length ≤ maxResponseLen ↔
      request.declaredItems ≤ 14 := by
  obtain ⟨-, hitems⟩ := parse_eq_ok hparse
  have hresults := length_results_decide request ndr64Enabled
  have hle := ackLen_le h (Bind.decide request ndr64Enabled)
  have hge := le_ackLen parameters (Bind.decide request ndr64Enabled).results.length
  simp only [resultLen, maxContextItems, maxResponseLen] at *
  omega

/-- The reply is to send these bytes, written over the buffer, and carry on. -/
def Sends (out sent : List UInt8) (reply : Reply) : Prop :=
  reply.step = .send sent.length ∧ reply.out = sent ++ out.drop sent.length

variable (connection entropy) in
/-- An acknowledgement that fits is sent. -/
theorem acknowledge_sends {rng : EntropySource ε} (hworks : rng.Works) {parameters : AckParameters}
    {decision : BindDecision} (hroom : parameters.ackLen decision.results.length ≤ out.length) :
    ∃ noise, Sends out (ackBytes parameters noise decision)
      (connection.acknowledge out entropy rng parameters decision).1 := by
  obtain ⟨noise, entropy', hnoise⟩ := drawNoise_of_works hworks entropy parameters.padding
  have hlen := length_ackBytes decision (length_drawNoise hnoise)
  unfold Connection.acknowledge
  simp only [if_pos hroom, hnoise]
  exact ⟨noise, by rw [hlen], by rw [hlen]⟩

/-! ### Responses -/

/-- A response to any payload a host encodes fits. -/
theorem responsePdu_fits (transfer : TransferSyntax) (result : HResult) {payload : List UInt8}
    (h : payload.length ≤ 296) :
    declaredResponseLen transfer result payload < 2 ^ 16 ∧
      responsePduLen transfer result payload ≤ maxResponseLen ∧
      Stub.stubLen transfer result.toWire payload - Stub.responsePrefixLen < 2 ^ 32 := by
  have hok : Stub.responseStubLen transfer payload.length ≤ 335 := by
    simp only [Stub.responseStubLen, Stub.responseDataOffset, Stub.responsePrefixLen, alignPadding]
    rcases Stub.lengthFieldWidth_eq transfer with hwidth | hwidth <;> omega
  have herror : Stub.errorStubLen transfer ≤ 31 := by
    simp only [Stub.errorStubLen, Stub.responsePrefixLen, alignPadding]
    rcases Stub.lengthFieldWidth_eq transfer with hwidth | hwidth <;> omega
  have hdeclared : declaredResponseLen transfer result payload ≤ 351 := by
    unfold declaredResponseLen
    simp only [headerLen]
    split_ifs <;> omega
  have hstub : Stub.stubLen transfer result.toWire payload ≤ 335 := by
    unfold Stub.stubLen
    split_ifs <;> omega
  simp only [responsePduLen, headerLen, maxResponseLen]
  omega

variable (callId : UInt32) (contextId : UInt16)

theorem writeResponsePdu_fits (hout : out.length = maxResponseLen) (transfer : TransferSyntax) (result : HResult)
    {payload : List UInt8} (h : payload.length ≤ 296) :
    writeResponsePdu out callId contextId transfer result payload =
      some ((responsePdu callId contextId transfer result payload).length,
        responsePdu callId contextId transfer result payload ++
          out.drop (responsePdu callId contextId transfer result payload).length) := by
  rw [writeResponsePdu_eq, if_pos (hout ▸ responsePdu_fits transfer result h), length_responsePdu]

theorem fault_sends (hout : out.length = maxResponseLen) (status : NcaStatus) :
    Sends out (Fault.bytes callId contextId status) (connection.fault out callId contextId status) := by
  rw [Connection.fault_eq, if_pos (by rw [hout]; decide)]
  exact ⟨by rw [Fault.length_bytes], by rw [Fault.length_bytes]⟩

theorem refuse_sends (hout : out.length = maxResponseLen) (transfer : TransferSyntax) (result : HResult) :
    Sends out (responsePdu callId contextId transfer result [])
      (connection.refuse callId contextId transfer result out) := by
  unfold Connection.refuse
  rw [writeResponsePdu_fits callId contextId hout transfer result (by simp)]
  exact ⟨rfl, rfl⟩

/-- A call is always answered: by a fault, or by a response if the host was asked. -/
theorem answer_sends (hout : out.length = maxResponseLen) (hworks : env.rng.Works) (transfer : TransferSyntax)
    (payload : List UInt8) :
    ∃ sent, Sends out sent (connection.answer env callId contextId transfer payload entropy host out).toReply ∧
      ((connection.answer env callId contextId transfer payload entropy host out).asked ≠ none →
        ∃ result payload, sent = responsePdu callId contextId transfer result payload) := by
  unfold Connection.answer
  split
  · exact ⟨_, refuse_sends callId contextId hout transfer .invalidData, fun _ => ⟨_, _, rfl⟩⟩
  · exact ⟨_, refuse_sends callId contextId hout transfer .invalidData, fun _ => ⟨_, _, rfl⟩⟩
  · exact ⟨_, fault_sends callId contextId hout .protocolError, fun hasked => absurd rfl hasked⟩
  next decoded hdecode =>
    split
    next result host' hrefuse =>
      exact ⟨_, refuse_sends callId contextId hout transfer result, fun _ => ⟨_, _, rfl⟩⟩
    next grant host' hgrant =>
      dsimp only
      obtain ⟨response, rest, entropy', hsmall, hencode⟩ :=
        encode_of_works env.digests (planOf grant decoded.request) entropy hdecode hworks
      rw [planOf] at hencode
      rw [hencode]
      dsimp only
      rw [List.take_left, writeResponsePdu_fits callId contextId hout transfer .ok hsmall]
      exact ⟨_, ⟨rfl, rfl⟩, fun _ => ⟨_, _, rfl⟩⟩

variable (connection) in
theorem handleStub_sends (hout : out.length = maxResponseLen) (hworks : env.rng.Works) (transfer : TransferSyntax)
    (assembled : List UInt8) :
    ∃ sent,
      Sends out sent (connection.handleStub env callId contextId transfer assembled entropy host out).toReply ∧
      ((connection.handleStub env callId contextId transfer assembled entropy host out).asked ≠ none →
        ∃ result payload, sent = responsePdu callId contextId transfer result payload) := by
  unfold Connection.handleStub
  split
  · exact ⟨_, fault_sends callId contextId hout .unknownInterface, fun hasked => absurd rfl hasked⟩
  · exact ⟨_, fault_sends callId contextId hout .protocolError, fun hasked => absurd rfl hasked⟩
  · exact answer_sends callId contextId hout hworks transfer _

/-- A request only waits for its next fragment, or is answered. -/
theorem handleRequest_sends (hout : out.length = maxResponseLen) (hworks : env.rng.Works) (header : RpcHeader)
    (body : List UInt8) :
    ((connection.handleRequest env header body entropy host out).step = .needMore ∧
        (connection.handleRequest env header body entropy host out).asked = none) ∨
      ∃ sent, Sends out sent (connection.handleRequest env header body entropy host out).toReply ∧
        ((connection.handleRequest env header body entropy host out).asked ≠ none →
          ∃ contextId transfer result payload,
            sent = responsePdu header.callId contextId transfer result payload) := by
  rcases Connection.handleRequest_cases connection out env entropy host header body with
    ⟨contextId, status, -, h⟩ | ⟨contextId, transfer, -, ⟨-, h⟩ | ⟨reassembly, -, -, h⟩ | ⟨-, -, h⟩⟩
  · rw [h]
    exact .inr ⟨_, fault_sends header.callId contextId hout status, fun hasked => absurd rfl hasked⟩
  · rw [h]
    exact .inr ⟨_, fault_sends header.callId contextId hout .protocolError, fun hasked => absurd rfl hasked⟩
  · rw [h]
    exact .inl ⟨rfl, rfl⟩
  · rw [h]
    obtain ⟨sent, hsends, hresponse⟩ := handleStub_sends connection.stopReassembly header.callId
      contextId hout hworks transfer (connection.assembled header body)
    refine .inr ⟨sent, hsends, fun hasked => ?_⟩
    obtain ⟨result, payload, heq⟩ := hresponse hasked
    exact ⟨contextId, transfer, result, payload, heq⟩

/-! ### Handling a read -/

/-- At this point of the loop the bytes are appended to the response and the
connection is not closed over them. -/
def Appends (read : Read ε σ) (visited : Machine ε σ) (out sent : List UInt8) : Prop :=
  (visited.stepped read.env read.now out).step = .send sent.length ∧
    ∃ scratch, answerAll read.env read.now visited out =
      ((answerAll read.env read.now (.after (visited.stepped read.env read.now out)) scratch).1,
        ⟨sent ++ (answerAll read.env read.now (.after (visited.stepped read.env read.now out)) scratch).2.response,
          (answerAll read.env read.now (.after (visited.stepped read.env read.now out)) scratch).2.close⟩)

theorem appends_of_sends {read : Read ε σ} {visited : Machine ε σ} {sent : List UInt8}
    (h : Sends out sent (visited.stepped read.env read.now out).toReply) : Appends read visited out sent := by
  obtain ⟨hstep, hout⟩ := h
  refine ⟨hstep, (visited.stepped read.env read.now out).out, ?_⟩
  have hrange : (range (visited.stepped read.env read.now out).out 0 sent.length).getD [] = sent := by
    rw [hout, range_eq_some (Nat.zero_le _) (by simp)]
    simp
  rw [answerAll_of_send hstep, hrange]

/-- A proposal is acknowledged, and a request waits for its next fragment or is
answered, with a response if the host was asked. -/
def Answered (read : Read ε σ) (visited : Machine ε σ) (out : List UInt8) : Prop :=
  ∀ header body rest, Frame.next visited.connection.inbound.items = some (.pdu header body, rest) →
    (∀ request, Connection.proposal? header body = some request →
      ∃ parameters noise,
        parameters.packetType =
          (if header.packetType? = some .alterContext then .alterContextResponse else .bindAck) ∧
        parameters.callId = header.callId ∧
        Appends read visited out
          (ackBytes parameters noise (Bind.decide request visited.connection.ndr64Enabled))) ∧
    (Connection.Requests header →
      (visited.stepped read.env read.now out).step = .needMore ∨
        ∃ sent, Appends read visited out sent ∧
          ((visited.stepped read.env read.now out).asked ≠ none →
            ∃ contextId transfer result payload,
              sent = responsePdu header.callId contextId transfer result payload))

/-- The PDU at the front, if it is a proposal, declares at most fourteen contexts. -/
def ProposesFew (visited : Machine ε σ) : Prop :=
  ∀ header body rest request, Frame.next visited.connection.inbound.items = some (.pdu header body, rest) →
    Connection.proposal? header body = some request → request.declaredItems ≤ 14

theorem parse_of_proposal {header : RpcHeader} {body : List UInt8} {request : BindRequest}
    (h : Connection.proposal? header body = some request) : Bind.parse body = .ok request := by
  unfold Connection.proposal? at h
  split_ifs at h
  cases hparse : Bind.parse body with
  | error error =>
    rw [hparse] at h
    cases h
  | ok found =>
    rw [hparse] at h
    cases h
    rfl

theorem not_proposes_of_requests {header : RpcHeader} {body : List UInt8} {request : BindRequest}
    (h : Connection.Requests header) : Connection.proposal? header body ≠ some request := by
  rw [h.proposal? body]
  simp

section
variable (hout : out.length = maxResponseLen) (header : RpcHeader) {body : List UInt8} {request : BindRequest}
  (hparse : Bind.parse body = .ok request) (assocGroup : UInt32) (ndr64Enabled : Bool)
include hout hparse

/-- An acknowledgement of too many contexts is not sent. -/
theorem few_of_acknowledged {len : ℕ}
    (h : (connection.acknowledged env entropy host out header request assocGroup
      (Bind.decide request ndr64Enabled)).step = .send len) : request.declaredItems ≤ 14 := by
  have haddress := Connection.addressLen_ackParameters connection header request assocGroup
    (header.packetType? = some .alterContext)
  rw [← ackLen_fits_iff haddress hparse ndr64Enabled, ← hout]
  by_contra hroom
  unfold Connection.acknowledged Connection.acknowledge at h
  rw [if_neg hroom] at h
  cases h

theorem acknowledged_sends (hworks : env.rng.Works) (hfew : request.declaredItems ≤ 14) :
    ∃ parameters noise,
      parameters.packetType =
        (if header.packetType? = some .alterContext then .alterContextResponse else .bindAck) ∧
      parameters.callId = header.callId ∧
      Sends out (ackBytes parameters noise (Bind.decide request ndr64Enabled))
        (connection.acknowledged env entropy host out header request assocGroup
          (Bind.decide request ndr64Enabled)).toReply := by
  have haddress := Connection.addressLen_ackParameters connection header request assocGroup
    (header.packetType? = some .alterContext)
  rw [← ackLen_fits_iff haddress hparse ndr64Enabled, ← hout] at hfew
  obtain ⟨noise, hsends⟩ := acknowledge_sends connection entropy hworks hfew
  exact ⟨_, noise, by simp [Connection.ackParameters], rfl, hsends⟩

end

/-- At a step into a whole scratch buffer, only a proposal of more than fourteen
contexts is not answered. -/
theorem answered_iff {read : Read ε σ} {visited : Machine ε σ} (hworks : read.env.rng.Works)
    (hsound : visited.connection.Sound) (hout : out.length = maxResponseLen) :
    Answered read visited out ↔ ProposesFew visited := by
  have hstepped {header : RpcHeader} {body rest : List UInt8}
      (hframe : Frame.next visited.connection.inbound.items = some (.pdu header body, rest)) :
      visited.stepped read.env read.now out =
        (visited.connection.consumed read.now header).dispatch read.env header body visited.entropy visited.host
          out := Connection.step_of_pdu read.env read.now visited.entropy visited.host out hframe
  constructor
  · intro hanswered header body rest request hframe hproposal
    obtain ⟨parameters, noise, -, -, hsend, -⟩ := (hanswered header body rest hframe).1 request hproposal
    rw [hstepped hframe] at hsend
    rcases Connection.dispatch_cases read.env visited.entropy visited.host out header body
      (hsound.consumed read.now header).settled with
      ⟨hnone, -⟩ | ⟨request', connection', assocGroup, hsome, -, heq⟩ | ⟨hrequests, -⟩
    · rw [hnone] at hproposal
      cases hproposal
    · rw [hproposal] at hsome
      cases hsome
      rw [heq] at hsend
      exact few_of_acknowledged hout header (parse_of_proposal hproposal) assocGroup _ hsend
    · exact absurd hproposal (not_proposes_of_requests hrequests)
  · intro hfew header body rest hframe
    rcases Connection.dispatch_cases read.env visited.entropy visited.host out header body
      (hsound.consumed read.now header).settled with
      ⟨hnone, hnot, -⟩ | ⟨request, connection', assocGroup, hsome, -, heq⟩ | ⟨hrequests, heq⟩
    · refine ⟨fun request hsome => ?_, fun hrequests => absurd hrequests hnot⟩
      rw [hnone] at hsome
      cases hsome
    · refine ⟨fun request' hsome' => ?_, fun hrequests => absurd hsome (not_proposes_of_requests hrequests)⟩
      rw [hsome] at hsome'
      cases hsome'
      obtain ⟨parameters, noise, htype, hcall, hsends⟩ := acknowledged_sends hout header (parse_of_proposal hsome)
        assocGroup (visited.connection.consumed read.now header).ndr64Enabled hworks
        (hfew header body rest request hframe hsome)
      exact ⟨parameters, noise, htype, hcall, appends_of_sends (by rw [hstepped hframe, heq]; exact hsends)⟩
    · refine ⟨fun request hsome => absurd hsome (not_proposes_of_requests hrequests), fun _ => ?_⟩
      rw [hstepped hframe, heq]
      refine (handleRequest_sends hout hworks header body).imp And.left ?_
      rintro ⟨sent, hsends, hresponse⟩
      exact ⟨sent, appends_of_sends (by rw [hstepped hframe, heq]; exact hsends), hresponse⟩

/-! ### Runs of reads -/

theorem length_out_stepped (env : Env ε σ) (now : Instant) (machine : Machine ε σ) (out : List UInt8) :
    (machine.stepped env now out).out.length = out.length := by
  cases hframe : Frame.next machine.connection.inbound.items with
  | none =>
    have hwait := Connection.step_of_none env now machine.entropy machine.host out hframe
    unfold Machine.stepped
    rw [hwait]
    rfl
  | some found => exact (Machine.stepped_of_frame env now machine rfl hframe).2.1

theorem visits_invariant {env : Env ε σ} {now : Instant} {machine visited : Machine ε σ}
    {scratch out : List UInt8} (h : Visits env now machine scratch visited out)
    (hsound : machine.connection.Sound) :
    visited.connection.Sound ∧ out.length = scratch.length := by
  induction h with
  | here machine scratch => exact ⟨hsound, rfl⟩
  | later hsend _ ih =>
    obtain ⟨hsound', hlength⟩ := ih (sound_after hsound)
    exact ⟨hsound', hlength.trans (length_out_stepped _ _ _ _)⟩

/-- In every run of reads on a connection of the server, with entropy that works,
every proposal is acknowledged and every request answered without closing the
connection, exactly when no proposal declares more than fourteen contexts. -/
theorem replies_fit_iff (assocGroup : UInt32) (advertisesNdr64 : Bool) (acceptingPort : UInt16) (entropy : ε)
    (host : σ) (reads : List (Read ε σ)) :
    (∀ turn ∈ path next (accept assocGroup advertisesNdr64 acceptingPort entropy host) reads,
        turn.2.env.rng.Works → ∀ visited out, Steps turn.1 turn.2 visited out → Answered turn.2 visited out) ↔
      ∀ turn ∈ path next (accept assocGroup advertisesNdr64 acceptingPort entropy host) reads,
        turn.2.env.rng.Works → ∀ visited out, Steps turn.1 turn.2 visited out → ProposesFew visited := by
  have hsound : ∀ turn ∈ path next (accept assocGroup advertisesNdr64 acceptingPort entropy host) reads,
      turn.1.connection.Sound :=
    Runs.invariant_path (fun machine : Machine ε σ => machine.connection.Sound)
      (sound_connection assocGroup advertisesNdr64 acceptingPort) (fun _ read h => sound_handle h read) reads
  refine forall₂_congr fun turn hturn => forall_congr' fun hworks => forall₃_congr fun visited out hsteps => ?_
  obtain ⟨connection, hreceive, hvisits⟩ := hsteps
  obtain ⟨hvisited, hlength⟩ := visits_invariant hvisits (sound_of_receive (hsound turn hturn) hreceive)
  exact answered_iff hworks hvisited (by rw [hlength, List.length_replicate])

/-- A bind of fifteen contexts, which is one more than the buffer answers. -/
def fifteenContexts : Read Unit Unit :=
  ⟨Machine.framed .bind .complete 1 (Bind.proposal (List.replicate 15 0) Wire.ndr32), 0, Connection.denying⟩

/-- It is parsed, and closes the connection without an answer. -/
theorem fifteen_contexts_not_answered :
    (Bind.parse (Bind.proposal (List.replicate 15 0) Wire.ndr32)).isOk = true ∧
      (handle (accept 0 false 1688 () ()) fifteenContexts).handled = ⟨[], true⟩ := by
  constructor <;> decide +kernel

end Kmsrs.Server
