import Kmsrs.Wire.Acknowledgement
import Kmsrs.Wire.Frame

/-! What each handler sends. A reply is one whole PDU: its header declares the
length that was written, echoes the call ID and carries no trailer. -/

namespace Kmsrs.Wire

open Kmsrs.Layout Kmsrs.Bytes Kmsrs.Kms Kmsrs.Wire.Bind

/-! ### Response PDUs -/

section Response

variable (callId : UInt32) (contextId : UInt16) (transfer : TransferSyntax) (result : HResult)
  (payload : List UInt8)

/-- The length that the header declares. -/
def declaredResponseLen : ℕ :=
  headerLen +
    if result.isOk then Stub.responseStubLen transfer payload.length else Stub.errorStubLen transfer

/-- The length that is written. -/
def responsePduLen : ℕ := headerLen + Stub.stubLen transfer result.toWire payload

def responsePdu : List UInt8 :=
  RpcHeader.layout.encode (.forReply .response .complete callId
      (UInt16.ofNat (declaredResponseLen transfer result payload))) ++
    Stub.stubBytes transfer contextId result.toWire payload

theorem length_responsePdu :
    (responsePdu callId contextId transfer result payload).length = responsePduLen transfer result payload := by
  rw [responsePdu, List.length_append, length_encode, RpcHeader.size_layout, Stub.length_stubBytes,
    responsePduLen]

/-- The two lengths agree unless a refusal is written with the code of success. -/
theorem declaredResponseLen_eq (h : result ≠ .other 0) :
    declaredResponseLen transfer result payload = responsePduLen transfer result payload := by
  have hcode : result.isOk = true ↔ result.toWire = 0 := by
    rw [HResult.toWire_eq_zero]
    cases result <;> simp_all [HResult.isOk]
  unfold declaredResponseLen responsePduLen Stub.stubLen
  by_cases hok : result.isOk = true
  · rw [if_pos hok, if_neg (not_not_intro (hcode.mp hok))]
  · rw [if_neg hok, if_pos (fun hzero => hok (hcode.mpr hzero))]

theorem writeResponsePdu_eq (out : List UInt8) :
    writeResponsePdu out callId contextId transfer result payload =
      if declaredResponseLen transfer result payload < 2 ^ 16 ∧
          responsePduLen transfer result payload ≤ out.length ∧
          Stub.stubLen transfer result.toWire payload - Stub.responsePrefixLen < 2 ^ 32 then
        some (responsePduLen transfer result payload, responsePdu callId contextId transfer result payload ++
          out.drop (responsePduLen transfer result payload))
      else none := by
  unfold writeResponsePdu
  by_cases hdeclared : declaredResponseLen transfer result payload < 2 ^ 16
  · have hfrag := u16TryFrom_eq_some hdeclared
    unfold declaredResponseLen at hfrag
    simp only [hfrag, Option.bind_some]
    rw [← declaredResponseLen]
    by_cases hheader : headerLen ≤ out.length
    · rw [put_zero out _ (by simpa using hheader), Option.bind_some, range_suffix _ _ (by simp), Option.bind_some,
        Stub.writeResponse_eq, length_encode, RpcHeader.size_layout, List.length_drop]
      by_cases hfits : responsePduLen transfer result payload ≤ out.length ∧
          Stub.stubLen transfer result.toWire payload - Stub.responsePrefixLen < 2 ^ 32
      · obtain ⟨hroom, hhint⟩ := hfits
        unfold responsePduLen at hroom ⊢
        rw [if_pos ⟨by omega, hhint⟩, if_pos ⟨hdeclared, hroom, hhint⟩, Option.map_some]
        simp [responsePdu, List.take_left']
      · unfold responsePduLen at hfits ⊢
        rw [if_neg (by omega), if_neg (by omega), Option.map_none]
    · rw [put_eq_none (by simp; omega), Option.bind_none, if_neg]
      rintro ⟨-, hroom, -⟩
      unfold responsePduLen at hroom
      omega
  · have hfrag : u16TryFrom (headerLen + if result.isOk then Stub.responseStubLen transfer payload.length
        else Stub.errorStubLen transfer) = none := if_neg hdeclared
    simp only [hfrag, Option.bind_none]
    rw [if_neg (fun h => hdeclared h.1)]

end Response

/-! ### Well-formed replies -/

/-- Multiplexing is echoed on the acknowledgement of a bind, a fault says that
the call did not execute, and nothing else is set beside the two fragment
flags. -/
def replyFlags (request : RpcHeader) : PacketType → PacketFlags
  | .bindAck => PacketFlags.complete.union (request.flags.intersection .concMpx)
  | .fault => PacketFlags.complete.union .didNotExecute
  | _ => .complete

/-- One whole PDU in answer to a request. -/
def Answers (request : RpcHeader) (sent : List UInt8) : Prop :=
  ∃ reply body, RpcHeader.layout.readFromPrefix sent = some (reply, body) ∧
    reply.versionMajor = rpcVersionMajor ∧ reply.versionMinor = rpcVersionMinor ∧
    reply.fragLength.toNat = sent.length ∧ reply.authLength = 0 ∧ reply.callId = request.callId ∧
    ∃ type ∈ PacketType.emitted, reply.packetType? = some type ∧ reply.flags = replyFlags request type ∧
      (type = .bindAck → request.packetType? = some .bind)

theorem answers_of_header {request : RpcHeader} {type : PacketType} {body : List UInt8} {len : ℕ}
    (hlen : headerLen + body.length = len) (hlt : len < 2 ^ 16) (htype : type ∈ PacketType.emitted)
    (hbind : type = .bindAck → request.packetType? = some .bind) :
    Answers request (RpcHeader.layout.encode (.forReply type (replyFlags request type) request.callId
      (UInt16.ofNat len)) ++ body) := by
  refine ⟨_, body, readFromPrefix_append _ _ body, rfl, rfl, ?_, rfl, rfl, type, htype,
    RpcHeader.packetType?_forReply _ _ _ _, rfl, hbind⟩
  rw [List.length_append, length_encode, RpcHeader.size_layout, hlen]
  exact UInt16.toNat_ofNat_of_lt' hlt

theorem Fault.answers (request : RpcHeader) (contextId : UInt16) (status : NcaStatus) :
    Answers request (Fault.bytes request.callId contextId status) :=
  answers_of_header (by simp [faultLen, headerLen]) (by decide) (by decide) (by simp)

theorem answers_nakBytes (request : RpcHeader) (reason : NakReason) :
    Answers request (nakBytes request.callId reason) :=
  answers_of_header (by simp [nakLen, headerLen, supportedVersions]) (by decide) (by decide) (by simp)

theorem answers_responsePdu (request : RpcHeader) (contextId : UInt16) (transfer : TransferSyntax)
    {result : HResult} {payload : List UInt8} (hresult : result ≠ .other 0)
    (hlt : declaredResponseLen transfer result payload < 2 ^ 16) :
    Answers request (responsePdu request.callId contextId transfer result payload) := by
  refine answers_of_header ?_ hlt (by decide) (by simp)
  rw [Stub.length_stubBytes, declaredResponseLen_eq transfer result payload hresult, responsePduLen]

theorem answers_ackBytes {request : RpcHeader} {parameters : AckParameters} {noise : List UInt8}
    (decision : BindDecision) (haddress : parameters.addressLen ≤ maxSecondaryAddressLen)
    (hnoise : noise.length = parameters.padding) (hcall : parameters.callId = request.callId)
    (hflags : parameters.replyFlags = replyFlags request parameters.packetType)
    (htype : parameters.packetType ∈ PacketType.emitted)
    (hbind : parameters.packetType = .bindAck → request.packetType? = some .bind) :
    Answers request (ackBytes parameters noise decision) := by
  have hlen := length_ackBytes decision hnoise
  unfold ackBytes AckParameters.headFields at hlen ⊢
  rw [hflags, hcall] at hlen ⊢
  simp only [List.cons_append, List.flatten_cons, List.append_assoc] at hlen ⊢
  refine answers_of_header ?_ (ackLen_lt haddress decision) htype hbind
  simpa using hlen

end Kmsrs.Wire
