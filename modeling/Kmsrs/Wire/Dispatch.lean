import Kmsrs.Wire.Conservation

/-! Everything a dispatched PDU can do: be turned away with a note, propose
contexts that are negotiated and acknowledged, or be a fragment of a call. Only a
fragment that does not end its call is taken without an answer. -/

namespace Kmsrs.Wire.Connection

open Kmsrs.Layout Kmsrs.Bytes Kmsrs.Kms Kmsrs.Wire.Bind

variable {connection : Connection}

/-- The proposal of a PDU, if it is one that is considered. -/
def proposal? (header : RpcHeader) (body : List UInt8) : Option BindRequest :=
  if header.versionIsSupported = true ∧ header.authLength = 0 ∧
      (header.packetType? = some .bind ∨ header.packetType? = some .alterContext) then
    (Bind.parse body).toOption
  else none

/-- A PDU that is handled as a fragment of a call. -/
def Requests (header : RpcHeader) : Prop :=
  header.versionIsSupported = true ∧ header.authLength = 0 ∧ header.packetType? = some .request

theorem Requests.proposal? {header : RpcHeader} (h : Requests header) (body : List UInt8) :
    proposal? header body = none := by
  unfold Connection.proposal?
  rw [if_neg (by simp [h.2.2])]

section
variable {ε σ : Type} (env : Env ε σ) (entropy : ε) (host : σ) (out : List UInt8)

variable (connection) in
/-- The outcome of a bind or an alter context that is acknowledged. -/
def acknowledged (header : RpcHeader) (request : BindRequest) (assocGroup : UInt32) (decision : BindDecision) :
    Outcome ε σ :=
  let (reply, entropy) := connection.acknowledge out entropy env.rng
    (connection.ackParameters header request assocGroup (header.packetType? = some .alterContext)) decision
  reply.unasked entropy host

theorem connection_acknowledged (header : RpcHeader) (request : BindRequest) (assocGroup : UInt32)
    (decision : BindDecision) :
    (connection.acknowledged env entropy host out header request assocGroup decision).connection = connection :=
  connection_acknowledge connection entropy out env.rng _ decision

/-- A PDU that neither proposes contexts nor is a fragment leaves a note, and
perhaps an empty buffer. -/
def TurnedAway (connection : Connection) (env : Env ε σ) (entropy : ε) (host : σ) (out : List UInt8)
    (header : RpcHeader) (body : List UInt8) : Prop :=
  proposal? header body = none ∧ ¬ Requests header ∧
    ∃ (reply : Reply) (inbound : ArrayVec UInt8 maxPduLen), reply.step ≠ .needMore ∧
      Logged { connection with inbound } reply.connection ∧
      connection.dispatch env header body entropy host out = reply.unasked entropy host

/-- A proposal moves the phase by its decision, and is acknowledged. -/
def Negotiated (connection : Connection) (env : Env ε σ) (entropy : ε) (host : σ) (out : List UInt8)
    (header : RpcHeader) (body : List UInt8) : Prop :=
  ∃ request connection' assocGroup, proposal? header body = some request ∧
    Logged { connection with
      phase := connection.phase.accept (Bind.decide request connection.ndr64Enabled).acceptedContext }
      connection' ∧
    connection.dispatch env header body entropy host out =
      connection'.acknowledged env entropy host out header request assocGroup
        (Bind.decide request connection.ndr64Enabled)

theorem dispatch_of_bind {header : RpcHeader} (body : List UInt8) (isAlter : Bool)
    (hversion : header.versionIsSupported = true) (hauth : header.authLength = 0)
    (htype : header.packetType? = some (if isAlter then .alterContext else .bind))
    (h : connection.phase ≠ .transitioning) :
    connection.TurnedAway env entropy host out header body ∨
      connection.Negotiated env entropy host out header body := by
  have hdispatch : connection.dispatch env header body entropy host out =
      (connection.handleBind env.rng header body entropy out isAlter).1.unasked
        (connection.handleBind env.rng header body entropy out isAlter).2 host := by
    unfold dispatch
    rw [if_neg (by simp [hversion]), if_neg (by simp [hauth]), htype]
    cases isAlter <;> rfl
  have halter : (header.packetType? = some .alterContext : Bool) = isAlter := by
    rw [htype]
    cases isAlter <;> rfl
  rcases handleBind_cases connection out entropy env.rng header body isAlter h with
    ⟨⟨error, hparse⟩, hbind⟩ | ⟨request, connection', assocGroup, hparse, hlogged, hbind⟩
  · refine .inl ⟨?_, ?_, connection.reject .unexpectedPacketType out, .empty,
      by simp [reject], ⟨_, _, rfl⟩, ?_⟩
    · simp [proposal?, hparse, Except.toOption]
    · rintro ⟨-, -, hrequest⟩
      rw [htype] at hrequest
      cases isAlter <;> cases hrequest
    · rw [hdispatch, hbind]
  · refine .inr ⟨request, connection', assocGroup, ?_, hlogged, ?_⟩
    · unfold proposal?
      rw [if_pos ⟨hversion, hauth, by rw [htype]; cases isAlter <;> simp⟩, hparse]
      rfl
    · rw [hdispatch, hbind]
      unfold acknowledged
      rw [halter]

/-- Everything a dispatched PDU can do. -/
theorem dispatch_cases (header : RpcHeader) (body : List UInt8) (h : connection.phase ≠ .transitioning) :
    connection.TurnedAway env entropy host out header body ∨
      connection.Negotiated env entropy host out header body ∨
      (Requests header ∧
        connection.dispatch env header body entropy host out =
          connection.handleRequest env header body entropy host out) := by
  by_cases hversion : header.versionIsSupported = true
  · by_cases hauth : header.authLength = 0
    · match htype : header.packetType? with
      | some .bind => exact (dispatch_of_bind env entropy host out body false hversion hauth htype h).imp_right .inl
      | some .alterContext =>
        exact (dispatch_of_bind env entropy host out body true hversion hauth htype h).imp_right .inl
      | some .request =>
        refine .inr (.inr ⟨⟨hversion, hauth, htype⟩, ?_⟩)
        unfold dispatch
        rw [if_neg (by simp [hversion]), if_neg (by simp [hauth]), htype]
      | none | some .response | some .fault | some .bindAck | some .bindNak | some .alterContextResponse =>
        refine .inl ⟨?_, ?_, connection.reject .unexpectedPacketType out, .empty,
      by simp [reject], ⟨_, _, rfl⟩, ?_⟩
        · simp [proposal?, htype]
        · rintro ⟨-, -, hrequest⟩
          simp [htype] at hrequest
        · unfold dispatch
          rw [if_neg (by simp [hversion]), if_neg (by simp [hauth]), htype]
    · refine .inl ⟨by simp [proposal?, hauth], fun hr => hauth hr.2.1,
        (connection.record (.rejected .authenticationAttempted)).fault out header.callId 0 .protocolError,
        connection.inbound, step_fault_ne _ out header.callId 0 .protocolError, ?_, ?_⟩
      · exact (logged_record connection _).trans (logged_fault _ out _ 0 _)
      · unfold dispatch
        rw [if_neg (by simp [hversion]), if_pos hauth]
  · refine .inl ⟨by simp [proposal?, hversion], fun hr => hversion hr.1,
      connection.nak out header.callId .protocolVersionNotSupported, .empty,
      step_nak_ne connection out header.callId .protocolVersionNotSupported, ?_, ?_⟩
    · rw [nak_eq]
      split_ifs <;> exact ⟨_, _, rfl⟩
    · unfold dispatch
      rw [if_pos (by simp [hversion])]

/-- An acknowledgement is sent whole, or the connection is closed for want of it. -/
theorem step_acknowledge (rng : EntropySource ε) (parameters : AckParameters) (decision : BindDecision) :
    (∃ noise, (connection.acknowledge out entropy rng parameters decision).1.step =
          .send (ackBytes parameters noise decision).length ∧
        (connection.acknowledge out entropy rng parameters decision).1.out.take
          (ackBytes parameters noise decision).length = ackBytes parameters noise decision) ∨
      (connection.acknowledge out entropy rng parameters decision).1.step = .close .refused := by
  unfold acknowledge
  split_ifs
  · split
    · exact .inr rfl
    next noise entropy' hnoise =>
      have hlen := length_ackBytes decision (length_drawNoise hnoise)
      refine .inl ⟨noise, ?_, ?_⟩
      · rw [hlen]
      · exact List.take_left
  · exact .inr rfl

/-! ### Waiting for the rest of a call -/

variable (connection) in
/-- A fragment that is taken and does not end its call. -/
def Continues (header : RpcHeader) (body : List UInt8) : Prop :=
  Requests header ∧ header.flags.contains .lastFrag = false ∧
    (∃ contextId transfer, connection.Serves header body contextId transfer) ∧
    (connection.assembled header body).length ≤ maxStubLen

theorem handleRequest_waits_iff (header : RpcHeader) (body : List UInt8) :
    (connection.handleRequest env header body entropy host out).step = .needMore ↔
      header.flags.contains .lastFrag = false ∧
        (∃ contextId transfer, connection.Serves header body contextId transfer) ∧
        (connection.assembled header body).length ≤ maxStubLen := by
  rcases handleRequest_cases connection out env entropy host header body with
    ⟨contextId, status, hnot, h⟩ |
    ⟨contextId, transfer, hserves, ⟨hlong, h⟩ | ⟨reassembly, hitems, hlast, h⟩ | ⟨-, hlast, h⟩⟩
  · rw [h]
    refine ⟨fun hstep => absurd hstep (step_fault_ne _ out _ contextId status), ?_⟩
    rintro ⟨-, ⟨contextId, transfer, hserves⟩, -⟩
    exact absurd hserves (hnot contextId transfer)
  · rw [h]
    refine ⟨fun hstep => absurd hstep (step_fault_ne _ out _ contextId .protocolError), ?_⟩
    rintro ⟨-, -, hfits⟩
    exact absurd hfits (Nat.not_le.mpr hlong)
  · rw [h]
    exact ⟨fun _ => ⟨hlast, ⟨contextId, transfer, hserves⟩, hitems ▸ reassembly.le_cap⟩, fun _ => rfl⟩
  · rw [h]
    refine ⟨fun hstep => absurd hstep (step_handleStub_ne _ out _ contextId env entropy host transfer _), ?_⟩
    rintro ⟨hopen, -, -⟩
    rw [hlast] at hopen
    cases hopen

theorem step_acknowledged_ne (header : RpcHeader) (request : BindRequest) (assocGroup : UInt32)
    (decision : BindDecision) :
    (connection.acknowledged env entropy host out header request assocGroup decision).step ≠ .needMore := by
  show (connection.acknowledge out entropy env.rng _ decision).1.step ≠ .needMore
  rcases step_acknowledge entropy out env.rng _ decision with ⟨noise, h, -⟩ | h <;>
  · rw [h]
    simp

/-- A PDU is taken without an answer exactly when it continues a call. -/
theorem dispatch_waits_iff (header : RpcHeader) (body : List UInt8) (h : connection.phase ≠ .transitioning) :
    (connection.dispatch env header body entropy host out).step = .needMore ↔
      connection.Continues header body := by
  rcases dispatch_cases env entropy host out header body h with
    ⟨-, hnot, reply, inbound, hstep, -, heq⟩ | ⟨request, connection', assocGroup, hsome, -, heq⟩ |
    ⟨hrequests, heq⟩
  · rw [heq]
    exact ⟨fun hwaits => absurd hwaits hstep, fun hcontinues => absurd hcontinues.1 hnot⟩
  · rw [heq]
    refine ⟨fun hwaits => absurd hwaits (step_acknowledged_ne env entropy host out header request assocGroup _), ?_⟩
    rintro ⟨hrequests, -⟩
    rw [hrequests.proposal? body] at hsome
    cases hsome
  · rw [heq, handleRequest_waits_iff]
    exact ⟨fun hwaits => ⟨hrequests, hwaits⟩, fun hcontinues => hcontinues.2⟩

end

end Kmsrs.Wire.Connection
