import Kmsrs.Wire.Machine

/-! The one question of a step. A step puts at most one request to the host, and is
then the answer to a payload that decodes to it; a step that asks nothing leaves the
host as it was. -/

namespace Kmsrs.Wire

open Kmsrs.Kms Kmsrs.Wire.Bind

variable {ε σ : Type}

/-- The host once a step has put its question. -/
def Env.asked (env : Env ε σ) (host : σ) : Option Request → σ
  | none => host
  | some request => (env.activate host request).2

/-- The plan that a grant is answered by. -/
def planOf (grant : Wire.Grant) (request : Request) : ResponsePlan where
  epid := grant.epid
  clientMachineId := request.clientMachineId
  clientTime := request.clientTime
  count := grant.count
  intervals := grant.intervals
  hardwareId := grant.hardwareId

namespace Connection

variable (env : Env ε σ) (entropy : ε) (host : σ) (out : List UInt8) (connection : Connection)

/-- Either nothing is asked, or the outcome is that of answering a payload. -/
def AsksOnce (outcome : Outcome ε σ) : Prop :=
  (outcome.asked = none ∧ outcome.host = host) ∨
    ∃ (connection' : Connection) (callId : UInt32) (contextId : UInt16) (transfer : TransferSyntax)
      (payload : List UInt8) (decoded : DecodedRequest),
      connection'.ciphers = connection.ciphers ∧ Kms.decode payload connection'.ciphers = .ok decoded ∧
      outcome = connection'.answer env callId contextId transfer payload entropy host out

theorem asksOnce_unasked (reply : Reply) (entropy' : ε) :
    AsksOnce env entropy host out connection (reply.unasked entropy' host) := .inl ⟨rfl, rfl⟩

theorem asksOnce_answer (connection' : Connection) (hciphers : connection'.ciphers = connection.ciphers)
    (callId : UInt32) (contextId : UInt16) (transfer : TransferSyntax) (payload : List UInt8) :
    AsksOnce env entropy host out connection
      (connection'.answer env callId contextId transfer payload entropy host out) := by
  cases hdecode : Kms.decode payload connection'.ciphers with
  | ok decoded => exact .inr ⟨connection', callId, contextId, transfer, payload, decoded, hciphers, hdecode, rfl⟩
  | error error =>
    unfold answer
    rw [hdecode]
    split
    · exact asksOnce_unasked ..
    · exact asksOnce_unasked ..
    · exact asksOnce_unasked ..
    next h => cases h

theorem asksOnce_handleStub (connection' : Connection) (hciphers : connection'.ciphers = connection.ciphers)
    (callId : UInt32) (contextId : UInt16) (transfer : TransferSyntax) (assembled : List UInt8) :
    AsksOnce env entropy host out connection
      (connection'.handleStub env callId contextId transfer assembled entropy host out) := by
  unfold handleStub
  split
  · exact asksOnce_unasked ..
  · exact asksOnce_unasked ..
  · exact asksOnce_answer env entropy host out connection connection' hciphers ..

theorem asksOnce_handleRequest (connection' : Connection) (hciphers : connection'.ciphers = connection.ciphers)
    (header : RpcHeader) (body : List UInt8) :
    AsksOnce env entropy host out connection (connection'.handleRequest env header body entropy host out) := by
  rcases handleRequest_cases connection' out env entropy host header body with
    ⟨contextId, status, -, h⟩ | ⟨contextId, transfer, -, ⟨-, h⟩ | ⟨reassembly, -, -, h⟩ | ⟨-, -, h⟩⟩
  · rw [h]
    exact asksOnce_unasked ..
  · rw [h]
    exact asksOnce_unasked ..
  · rw [h]
    exact asksOnce_unasked ..
  · rw [h]
    exact asksOnce_handleStub env entropy host out connection connection'.stopReassembly hciphers ..

theorem asksOnce_dispatch (connection' : Connection) (hciphers : connection'.ciphers = connection.ciphers)
    (header : RpcHeader) (body : List UInt8) :
    AsksOnce env entropy host out connection (connection'.dispatch env header body entropy host out) := by
  unfold dispatch
  split_ifs
  · exact asksOnce_unasked ..
  · exact asksOnce_unasked ..
  · split
    · exact asksOnce_unasked ..
    · exact asksOnce_unasked ..
    · exact asksOnce_handleRequest env entropy host out connection connection' hciphers header body
    · exact asksOnce_unasked ..

theorem asksOnce_step (now : Instant) :
    AsksOnce env entropy host out connection (connection.step env now entropy host out) := by
  cases hframe : Frame.next connection.inbound.items with
  | none =>
    rw [step_of_none env now entropy host out hframe]
    exact asksOnce_unasked ..
  | some found =>
    obtain ⟨frame, rest⟩ := found
    cases frame with
    | malformed reason =>
      rw [step_of_malformed env now entropy host out hframe]
      exact asksOnce_unasked ..
    | pdu header body =>
      rw [step_of_pdu env now entropy host out hframe]
      exact asksOnce_dispatch env entropy host out connection (connection.consumed now header) rfl header body

/-- Answering a payload that decodes asks the host about it. -/
theorem answer_asks (callId : UInt32) (contextId : UInt16) (transfer : TransferSyntax) {payload : List UInt8}
    {decoded : DecodedRequest} (hdecode : Kms.decode payload connection.ciphers = .ok decoded) :
    (connection.answer env callId contextId transfer payload entropy host out).asked = some decoded.request ∧
      (connection.answer env callId contextId transfer payload entropy host out).host =
        (env.activate host decoded.request).2 := by
  unfold answer
  rw [hdecode]
  dsimp only
  split
  next result host' hrefuse => exact ⟨rfl, by rw [hrefuse]⟩
  next grant host' hgrant =>
    split
    · exact ⟨rfl, by rw [hgrant]⟩
    · split <;> exact ⟨rfl, by rw [hgrant]⟩

/-- A grant is answered by encoding its plan, with the host already as the grant left it. -/
theorem answer_of_grant {connection : Connection} {host host' : σ} (callId : UInt32) (contextId : UInt16)
    (transfer : TransferSyntax) {payload : List UInt8} {decoded : DecodedRequest} {grant : Wire.Grant}
    (hdecode : Kms.decode payload connection.ciphers = .ok decoded)
    (hgrant : env.activate host decoded.request = (.grant grant, host')) :
    connection.answer env callId contextId transfer payload entropy host out =
      match Kms.encode env.digests decoded (planOf grant decoded.request) connection.ciphers env.rng entropy
          (List.replicate maxResponseLen 0) with
      | (.error _, entropy) =>
        { step := .close .refused, connection, out, entropy, host := host', asked := some decoded.request }
      | (.ok (payloadLen, response), entropy) =>
        match writeResponsePdu out callId contextId transfer .ok (response.take payloadLen) with
        | none => { step := .close .refused, connection, out, entropy, host := host', asked := some decoded.request }
        | some (len, out) =>
          { step := .send len
            connection := connection.record (.activated decoded.version decoded.macVerified)
            out, entropy, host := host', asked := some decoded.request } := by
  unfold answer
  rw [hdecode]
  dsimp only
  rw [hgrant]
  rfl

/-- The host after a step is the host once it was asked. -/
theorem host_step (now : Instant) :
    (connection.step env now entropy host out).host =
      env.asked host (connection.step env now entropy host out).asked := by
  rcases asksOnce_step env entropy host out connection now with
    ⟨hasked, hhost⟩ | ⟨connection', callId, contextId, transfer, payload, decoded, -, hdecode, h⟩
  · rw [hasked, hhost]
    rfl
  · obtain ⟨hasked, hhost⟩ := answer_asks env entropy host out connection' callId contextId transfer hdecode
    rw [h, hasked, hhost]
    rfl

end Connection

end Kmsrs.Wire
