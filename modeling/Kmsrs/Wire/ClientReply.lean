import Kmsrs.Wire.ClientBind
import Kmsrs.Wire.Reply

/-! The rest of the client's half: the bind that it opens with, and any reply that it
may get. A reply is read by its own header, and what it says beside its contents is
raised and not held against it. -/

namespace Kmsrs.Wire.Client

open Kmsrs.Layout Kmsrs.Bytes Kmsrs.Kms Kmsrs.Wire.Bind

/-! ### Binds -/

def fragmentSize : UInt16 := 5840

def ndr32Version : UInt32 := 2
def ndr64Version : UInt32 := 1

def kmsInterfaceWire : Vector UInt8 16 := guidToWire kmsInterface

/-- The offers, each with its context ID, its syntax as framed, and its version. -/
def offers : List (UInt16 × List UInt8 × UInt32) :=
  [(0, (guidToWire ndr32).toList, ndr32Version), (1, (guidToWire ndr64).toList, ndr64Version),
    (2, btfnWirePrefix ++ FeatureBits.supported :: List.replicate 7 0, 1)]

def bindFields (offerNdr64 : Bool) : List (List UInt8) :=
  let contexts := if offerNdr64 then 3 else 1
  [u16.encode fragmentSize, u16.encode fragmentSize, u32.encode 0, [UInt8.ofNat contexts, 0, 0, 0]] ++
    (offers.take contexts).flatMap fun (contextId, wire, version) =>
      [u16.encode contextId, [1, 0], kmsInterfaceWire.toList, u32.encode 1, wire, u32.encode version]

def writeBindBody (offerNdr64 : Bool) (out : List UInt8) : Option (ℕ × List UInt8) :=
  putAll (bindFields offerNdr64) out 0

/-- A body behind its header. -/
def frame (out : List UInt8) (packetType : PacketType) (callId : UInt32) (body : List UInt8) :
    Except ClientError (ℕ × List UInt8) :=
  let total := headerLen + body.length
  let framed :=
    if out.length < total then none
    else
      (u16TryFrom total).bind fun fragLength =>
        (put out 0 (RpcHeader.layout.encode (.forReply packetType .complete callId fragLength))).bind fun out =>
          put out headerLen body
  framed.elim (.error (.bufferTooSmall total out.length)) fun out => .ok (total, out)

/-- The bytes written, the call ID and the buffer. -/
def ClientAssociation.bind (association : ClientAssociation) (out : List UInt8) (offerNdr64 : Bool) :
    Except ClientError (ℕ × UInt32 × List UInt8) × ClientAssociation :=
  let (callId, association) := association.takeCallId
  let written := match writeBindBody offerNdr64 (List.replicate 200 0) with
    | none => .error (.bufferTooSmall 200 200)
    | some (bodyLen, body) =>
      (frame out .bind callId ((range body 0 bodyLen).getD [])).map fun (len, out) => (len, callId, out)
  (written, association)

/-! ### Replies -/

/-- Why a reply could not be used. -/
inductive ReplyError where
  | tooShort (available : ℕ)
  | lengthMismatch (declared available : ℕ)
  | unexpectedPacketType (raw : UInt8)
  | bindRejected
  | faulted (status : UInt32)
  | notAKmsResponse (reason : Stub.StubError) (bodyLen : ℕ)

/-- What a reply may raise. -/
inductive ReplyWarning where
  | callIdNotEchoed (sent received : UInt32)
  | bindAck (warning : Warning)
  | nonZeroPadding
  | allocHintMismatch (declared actual : UInt32)

inductive ServerReply where
  | bindAck (body : List UInt8) (accepted : Option Accepted)
  | response (stub : List UInt8) (result : UInt32)

/-- What follows a header of this type. -/
def readBody (packetType : Option PacketType) (raw : UInt8) (body : List UInt8) (transfer : TransferSyntax) :
    Except ReplyError ServerReply × List ReplyWarning :=
  match packetType with
  | some .bindAck =>
    let (accepted, warnings) := readBindAck body
    (.ok (.bindAck body accepted), warnings.map .bindAck)
  | some .bindNak => (.error .bindRejected, [])
  | some .fault => (.error (.faulted ((u32.readAt body 8).getD 0)), [])
  | some .response =>
    match Stub.parseResponse body transfer with
    | .error reason => (.error (.notAKmsResponse reason body.length), [])
    | .ok parsed =>
      -- The hint counts from the length fields on, as the server counts it.
      let measured := (u32TryFrom (body.length - 8)).getD 0xFFFFFFFF
      (.ok (.response parsed.payload parsed.result),
        (if parsed.allocHint ≠ measured then [.allocHintMismatch parsed.allocHint measured] else []) ++
          if parsed.padding.any (· ≠ 0) then [.nonZeroPadding] else [])
  | _ => (.error (.unexpectedPacketType raw), [])

/-- A call ID that is not echoed is raised once for the association. -/
def ClientAssociation.readReply (association : ClientAssociation) (reply : List UInt8) (sentCallId : UInt32)
    (transfer : TransferSyntax) : (Except ReplyError ServerReply × List ReplyWarning) × ClientAssociation :=
  match RpcHeader.layout.readFromPrefix reply with
  | none => ((.error (.tooShort reply.length), []), association)
  | some (header, body) =>
    let declared := header.fragLength.toNat
    if declared ≠ reply.length then ((.error (.lengthMismatch declared reply.length), []), association)
    else
      let raised := header.callId ≠ sentCallId ∧ ¬ association.callIdWarned
      let (read, warnings) := readBody header.packetType? header.packetType body transfer
      ((read, (if raised then [.callIdNotEchoed sentCallId header.callId] else []) ++ warnings),
        if raised then { association with callIdWarned := true } else association)

/-! ### What is written -/

def bindBody (offerNdr64 : Bool) : List UInt8 := (bindFields offerNdr64).flatten

/-- What the server reads of it. -/
def bindRequest (offerNdr64 : Bool) : BindRequest where
  maxXmitFrag := fragmentSize
  maxRecvFrag := fragmentSize
  assocGroup := 0
  declaredItems := if offerNdr64 then 3 else 1
  items :=
    if offerNdr64 then
      ⟨[⟨0, kmsInterface, 1, 0, ⟨[⟨.ndr32, ndr32Version⟩], by decide⟩⟩,
        ⟨1, kmsInterface, 1, 0, ⟨[⟨.ndr64, ndr64Version⟩], by decide⟩⟩,
        ⟨2, kmsInterface, 1, 0, ⟨[⟨.featureNegotiation FeatureBits.supported, 1⟩], by decide⟩⟩], by decide⟩
    else ⟨[⟨0, kmsInterface, 1, 0, ⟨[⟨.ndr32, ndr32Version⟩], by decide⟩⟩], by decide⟩

/-- NDR64 is settled on where it is offered and serviced, and NDR32 elsewhere. -/
def settledOn (offerNdr64 ndr64Enabled : Bool) : Accepted :=
  if offerNdr64 && ndr64Enabled then ⟨1, .ndr64⟩ else ⟨0, .ndr32⟩

theorem parse_bindBody (offerNdr64 : Bool) : Bind.parse (bindBody offerNdr64) = .ok (bindRequest offerNdr64) := by
  cases offerNdr64 <;> decide +kernel

theorem length_bindBody_le (offerNdr64 : Bool) : (bindBody offerNdr64).length ≤ 144 := by
  cases offerNdr64 <;> decide +kernel

theorem acceptedContext_bindRequest (offerNdr64 ndr64Enabled : Bool) :
    (Bind.decide (bindRequest offerNdr64) ndr64Enabled).acceptedContext =
      some ⟨(settledOn offerNdr64 ndr64Enabled).contextId, (settledOn offerNdr64 ndr64Enabled).transfer⟩ := by
  cases offerNdr64 <;> cases ndr64Enabled <;> decide

/-- A PDU is framed whole, or not at all. -/
theorem frame_eq (out : List UInt8) (packetType : PacketType) (callId : UInt32) (body : List UInt8) :
    frame out packetType callId body =
      if headerLen + body.length ≤ out.length ∧ headerLen + body.length < 2 ^ 16 then
        .ok (headerLen + body.length,
          RpcHeader.layout.encode (.forReply packetType .complete callId (UInt16.ofNat (headerLen + body.length))) ++ body ++
            out.drop (headerLen + body.length))
      else .error (.bufferTooSmall (headerLen + body.length) out.length) := by
  unfold frame
  by_cases hroom : headerLen + body.length ≤ out.length
  · by_cases hsmall : headerLen + body.length < 2 ^ 16
    · simp only [if_neg hroom.not_gt, if_pos (And.intro hroom hsmall), u16TryFrom_eq_some hsmall, Option.bind_some]
      generalize RpcHeader.forReply packetType .complete callId (UInt16.ofNat (headerLen + body.length)) = header
      have hheader : (RpcHeader.layout.encode header).length = headerLen := by simp
      rw [put_zero out _ (by omega), Option.bind_some, put_append _ _ body hheader.symm (by
        rw [List.length_drop]
        omega), List.drop_drop, hheader]
      rfl
    · simp only [if_neg hroom.not_gt, if_neg (fun h : _ ∧ _ => hsmall h.2), u16TryFrom, if_neg hsmall, Option.bind_none,
        Option.elim_none]
  · simp only [if_pos (Nat.lt_of_not_le hroom), if_neg (fun h : _ ∧ _ => hroom h.1), Option.elim_none]

/-- The PDU of a bind. -/
def bindPdu (callId : UInt32) (offerNdr64 : Bool) : List UInt8 :=
  RpcHeader.layout.encode (.forReply .bind .complete callId (UInt16.ofNat (headerLen + (bindBody offerNdr64).length))) ++
    bindBody offerNdr64

theorem length_bindPdu (callId : UInt32) (offerNdr64 : Bool) :
    (bindPdu callId offerNdr64).length = headerLen + (bindBody offerNdr64).length := by simp [bindPdu]

theorem bind_eq (association : ClientAssociation) {out : List UInt8} (offerNdr64 : Bool) (h : 160 ≤ out.length) :
    association.bind out offerNdr64 =
      (.ok ((bindPdu association.nextCallId offerNdr64).length, association.nextCallId,
          bindPdu association.nextCallId offerNdr64 ++ out.drop (bindPdu association.nextCallId offerNdr64).length),
        { association with nextCallId := association.nextCallId + 1 }) := by
  have hlen := length_bindBody_le offerNdr64
  have hwritten := (writes_putAll (bindFields offerNdr64)).start (List.replicate 200 0) (by
    rw [List.length_replicate]
    exact hlen.trans (by decide))
  have hbody : writeBindBody offerNdr64 (List.replicate 200 0) =
      some ((bindBody offerNdr64).length, bindBody offerNdr64 ++ (List.replicate 200 0).drop (bindBody offerNdr64).length) :=
    hwritten
  simp only [ClientAssociation.bind, ClientAssociation.takeCallId, hbody, range_prefix _ _ rfl, Option.getD_some, frame_eq]
  rw [if_pos (by simp only [headerLen]; omega), length_bindPdu]
  rfl

/-! ### What is read -/

/-- A reply of the right length with the call ID echoed is what its body says. -/
theorem readReply_framed (association : ClientAssociation) {packetType : PacketType} {flags : PacketFlags}
    {callId : UInt32} {body : List UInt8} (hlen : headerLen + body.length < 2 ^ 16) (transfer : TransferSyntax) :
    association.readReply
        (RpcHeader.layout.encode (.forReply packetType flags callId (UInt16.ofNat (headerLen + body.length))) ++ body) callId
        transfer =
      (readBody (some packetType) packetType.toWire body transfer, association) := by
  obtain ⟨header, hheader⟩ : ∃ header,
      header = RpcHeader.forReply packetType flags callId (UInt16.ofNat (headerLen + body.length)) := ⟨_, rfl⟩
  have hfrag : header.fragLength.toNat = headerLen + body.length := by
    rw [hheader]
    exact UInt16.toNat_ofNat_of_lt' hlen
  have htype : header.packetType? = some packetType := by
    rw [hheader, RpcHeader.packetType?_forReply]
  have hraw : header.packetType = packetType.toWire := by rw [hheader]; rfl
  have hcall : header.callId = callId := by rw [hheader]; rfl
  rw [← hheader, ClientAssociation.readReply, RpcHeader.layout.readFromPrefix_append]
  simp only [List.length_append, length_encode, RpcHeader.size_layout, hfrag, htype, hraw, hcall, ne_eq, not_true_eq_false,
    false_and, if_false, List.nil_append]

/-- A response of success is read without a word. -/
theorem readReply_ok (association : ClientAssociation) {callId : UInt32} {contextId : UInt16} {transfer : TransferSyntax}
    {payload : List UInt8} (h : declaredResponseLen transfer .ok payload < 2 ^ 16) :
    association.readReply (responsePdu callId contextId transfer .ok payload) callId transfer =
      ((.ok (.response payload 0), []), association) := by
  have hlen := Stub.length_stubBytes transfer contextId 0 payload
  have hdeclared : declaredResponseLen transfer .ok payload =
      headerLen + (Stub.stubBytes transfer contextId 0 payload).length := by
    rw [hlen]
    exact declaredResponseLen_eq transfer .ok payload (by simp)
  have hhint : Stub.stubLen transfer 0 payload - Stub.responsePrefixLen < 2 ^ 32 := by omega
  have hzero : (List.replicate (Stub.paddingLen transfer 0 payload) (0 : UInt8)).any (· ≠ 0) = false := by
    simp
  rw [responsePdu, hdeclared]
  refine (readReply_framed association (hdeclared ▸ h) transfer).trans ?_
  simp only [readBody, Stub.parseResponse_ok hhint contextId]
  rw [hlen, hzero, u32TryFrom, if_pos (show Stub.stubLen transfer 0 payload - 8 < 2 ^ 32 from hhint)]
  simp [Stub.responsePrefixLen]

/-- A response of failure is not one to the client: the reader asks for a length field
that such a stub does not have. -/
theorem readReply_failure (association : ClientAssociation) {callId : UInt32} {contextId : UInt16}
    {transfer : TransferSyntax} {result : HResult} {payload : List UInt8} (hresult : result.toWire ≠ 0)
    (h : declaredResponseLen transfer result payload < 2 ^ 16) :
    ∃ reason bodyLen, association.readReply (responsePdu callId contextId transfer result payload) callId transfer =
      ((.error (.notAKmsResponse reason bodyLen), []), association) := by
  have hother : result ≠ .other 0 := by
    rintro rfl
    exact hresult rfl
  have hdeclared : declaredResponseLen transfer result payload =
      headerLen + (Stub.stubBytes transfer contextId result.toWire payload).length := by
    rw [Stub.length_stubBytes]
    exact declaredResponseLen_eq transfer result payload hother
  cases hparse : Stub.parseResponse (Stub.stubBytes transfer contextId result.toWire payload) transfer with
  | ok stub => exact absurd hparse (Stub.parseResponse_error transfer contextId payload hresult stub)
  | error reason =>
    refine ⟨reason, (Stub.stubBytes transfer contextId result.toWire payload).length, ?_⟩
    rw [responsePdu, hdeclared]
    refine (readReply_framed association (hdeclared ▸ h) transfer).trans ?_
    simp only [readBody, hparse]

theorem ackBytes_eq (parameters : AckParameters) (noise : List UInt8) (decision : BindDecision) :
    ackBytes parameters noise decision =
      RpcHeader.layout.encode (.forReply parameters.packetType parameters.replyFlags parameters.callId
          (UInt16.ofNat (parameters.ackLen decision.results.length))) ++
        (ackBytes parameters noise decision).drop headerLen := by
  have hfields : ∀ fragLength, (parameters.headFields fragLength).flatten =
      RpcHeader.layout.encode (.forReply parameters.packetType parameters.replyFlags parameters.callId fragLength) ++
        ackHead parameters := by
    intro fragLength
    unfold AckParameters.headFields ackHead
    split_ifs <;> simp
  rw [ackBytes, hfields, List.append_assoc, List.drop_left' (by simp)]

/-- An acknowledgement is read as its body. -/
theorem readReply_ackBytes (association : ClientAssociation) {parameters : AckParameters}
    (htype : parameters.packetType = .bindAck) (haddress : parameters.addressLen ≤ maxSecondaryAddressLen)
    {noise : List UInt8} (hnoise : noise.length = parameters.padding) (decision : BindDecision) (transfer : TransferSyntax) :
    association.readReply (ackBytes parameters noise decision) parameters.callId transfer =
      ((.ok (.bindAck ((ackBytes parameters noise decision).drop headerLen)
          (readBindAck ((ackBytes parameters noise decision).drop headerLen)).1),
        (readBindAck ((ackBytes parameters noise decision).drop headerLen)).2.map .bindAck), association) := by
  have hlen := length_ackBytes decision hnoise
  have hlt := ackLen_lt haddress decision
  have hsplit := ackBytes_eq parameters noise decision
  obtain ⟨body, hbody⟩ : ∃ body, body = (ackBytes parameters noise decision).drop headerLen := ⟨_, rfl⟩
  rw [← hbody] at hsplit ⊢
  have htotal : parameters.ackLen decision.results.length = headerLen + body.length := by
    rw [← hlen, hsplit, List.length_append, length_encode, RpcHeader.size_layout]
  rw [hsplit, htotal, htype]
  exact (readReply_framed association (htotal ▸ hlt) transfer).trans rfl

/-- What a server decides of a client's own offers is read without a warning: where NDR64
is settled on, negotiation was acknowledged beside it. -/
theorem readBindAck_settled (offerNdr64 ndr64Enabled : Bool) {parameters : AckParameters}
    (haddress : parameters.addressLen ≤ maxSecondaryAddressLen) {noise : List UInt8}
    (hnoise : noise.length = parameters.padding) :
    readBindAck ((ackBytes parameters noise (Bind.decide (bindRequest offerNdr64) ndr64Enabled)).drop headerLen) =
      (some (settledOn offerNdr64 ndr64Enabled), []) := by
  have hscan : scan 0 none false (Bind.decide (bindRequest offerNdr64) ndr64Enabled).results.items =
      (some (settledOn offerNdr64 ndr64Enabled), offerNdr64) := by
    cases offerNdr64 <;> cases ndr64Enabled <;> decide +kernel
  have hraised : ¬ ((settledOn offerNdr64 ndr64Enabled).transfer = .ndr64 ∧ !offerNdr64) := by
    cases offerNdr64 <;> cases ndr64Enabled <;> decide
  rw [readBindAck_ackBytes haddress hnoise, hscan]
  simp only [if_neg hraised]

end Kmsrs.Wire.Client
