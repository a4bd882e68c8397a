import Kmsrs.Kms.Exchange
import Kmsrs.Kms.RequestFields
import Kmsrs.Wire.Asked
import Kmsrs.Wire.ClientReply

/-! One conversation with a host: connect, bind, activate. The socket is a parameter; what
the client raises on the way is collected and holds nothing against the host. -/

namespace Kmsrs.Client

open Kmsrs.Bytes Kmsrs.Layout Kmsrs.Crypto Kmsrs.Kms Kmsrs.Wire Kmsrs.Wire.Client

/-- A socket: a write sends all of the bytes or fails, and a read returns as many as it was
asked for or fails. -/
structure Network (ν : Type) where
  connect : ν → Bool × ν
  writeAll : ν → List UInt8 → Bool × ν
  readExact : ν → ℕ → Option (List UInt8) × ν

/-- Why a conversation could not be completed. -/
inductive ProbeError where
  | request (error : Kms.ClientError)
  | build (error : Wire.Client.ClientError)
  | reply (error : ReplyError)
  | io
  | decode (error : ResponseError)
  | entropyUnavailable

/-- What one activation produced. -/
structure Exchange where
  version : Version
  checks : Checks
  epid : List Char
  count : UInt32
  hardwareId : Option (Vector UInt8 8)
  assocGroup : UInt32

/-- An open conversation, without its socket. -/
structure Session where
  association : ClientAssociation
  accepted : Accepted
  assocGroup : UInt32

/-- How a part of a conversation went: its result, what was raised, and the socket. -/
structure Spoken (ν α : Type) where
  result : Except ProbeError α
  warnings : List ReplyWarning
  stream : ν

def epidText (decoded : DecodedResponse) : List Char :=
  decodeLossy ((u16.chunksExact decoded.pidBytes).takeWhile (· ≠ 0))

/-- The third field of the body of an acknowledgement. -/
def assocGroupOf (reply : List UInt8) : UInt32 :=
  ((range reply (headerLen + 4) (headerLen + 8)).map u32.decode).getD 0

section
variable {ν : Type} (network : Network ν)

/-- Read one whole PDU: the header, and as much more as it declares. -/
def readPdu (stream : ν) : Option (List UInt8) × ν :=
  match network.readExact stream headerLen with
  | (none, stream) => (none, stream)
  | (some header, stream) =>
    let fragLen := ((u16.readAt header 8).getD 0).toNat
    match network.readExact stream (fragLen - headerLen) with
    | (none, stream) => (none, stream)
    | (some rest, stream) => (some (header ++ rest), stream)

/-- Send a PDU and read the one that answers it. -/
def exchangePdus (stream : ν) (bytes : List UInt8) : Option (List UInt8) × ν :=
  match network.writeAll stream bytes with
  | (false, stream) => (none, stream)
  | (true, stream) => readPdu network stream

/-- The room of the client's buffers. -/
def outLen : ℕ := 4096
def stubLen : ℕ := 1024

def Session.open (stream : ν) (offerNdr64 : Bool) : Spoken ν Session :=
  match network.connect stream with
  | (false, stream) => ⟨.error .io, [], stream⟩
  | (true, stream) =>
    match ClientAssociation.new.bind (List.replicate outLen 0) offerNdr64 with
    | (.error error, _) => ⟨.error (.build error), [], stream⟩
    | (.ok (len, callId, out), association) =>
      match exchangePdus network stream ((range out 0 len).getD []) with
      | (none, stream) => ⟨.error .io, [], stream⟩
      | (some reply, stream) =>
        let ((read, warnings), association) := association.readReply reply callId .ndr32
        let result :=
          match read with
          | .error error => .error (.reply error)
          | .ok (.bindAck _ (some accepted)) => .ok ⟨association, accepted, assocGroupOf reply⟩
          | .ok (.bindAck _ none) | .ok (.response _ _) => .error (.reply .bindRejected)
        ⟨result, warnings, stream⟩

/-- What it takes to open a conversation. -/
theorem Session.open_eq {network : Network ν} {stream opened stream' : ν} {offerNdr64 : Bool} {reply body : List UInt8}
    {accepted : Accepted} {warnings : List ReplyWarning} {association : ClientAssociation}
    (hconnect : network.connect stream = (true, opened))
    (hexchange : exchangePdus network opened (bindPdu firstCallId offerNdr64) = (some reply, stream'))
    (hread : (ClientAssociation.mk (firstCallId + 1) false).readReply reply firstCallId .ndr32 =
      ((.ok (.bindAck body (some accepted)), warnings), association)) :
    Session.open network stream offerNdr64 = ⟨.ok ⟨association, accepted, assocGroupOf reply⟩, warnings, stream'⟩ := by
  have hbind := bind_eq .new offerNdr64 (show 160 ≤ (List.replicate outLen (0 : UInt8)).length by
    rw [List.length_replicate]
    decide)
  rw [Session.open, hconnect, hbind]
  dsimp only
  rw [ range_prefix _ _ rfl, Option.getD_some, show ClientAssociation.new.nextCallId = firstCallId from rfl, hexchange]
  dsimp only
  rw [show ({ ClientAssociation.new with nextCallId := firstCallId + 1 } : ClientAssociation) =
    ⟨firstCallId + 1, false⟩ from rfl, hread]

/-- What the client remembers of the stub it sent. -/
def sentOf (fields : RequestFields) (ciphers : Ciphers) (stub : List UInt8) : Sent :=
  let requestIv := if fields.version = .v4 then none else (range stub 4 20).map block.decode
  { version := fields.version
    clientMachineId := fields.clientMachineId
    clientTime := fields.clientTime
    requestIv
    sharedSecret := (ciphers.schedule fields.version).bind fun schedule => requestIv.bind (clientSecret schedule)
    headerVersion := fields.declared.toWire
    responseHeaderVersion := fields.declared.toWire }

/-- What is reported of a response that was decoded. -/
def Session.exchangeOf (D : Digests) (session : Session) (fields : RequestFields) (ciphers : Ciphers) (stub : List UInt8)
    (decoded : DecodedResponse) : Exchange where
  version := fields.version
  checks := check D (sentOf fields ciphers stub) decoded (some Ciphers.new.mac.tag)
  epid := epidText decoded
  count := decoded.count
  hardwareId := decoded.hardwareId
  assocGroup := session.assocGroup

/-- Decode and check the payload of a response. -/
def Session.judge (D : Digests) (session : Session) (fields : RequestFields) (ciphers : Ciphers)
    (stub responseStub : List UInt8) : Except ProbeError Exchange :=
  match decodeResponse fields.version responseStub (ciphers.schedule fields.version)
      (List.replicate (max responseStub.length 64) 0) with
  | .error error => .error (.decode error)
  | .ok decoded => .ok (session.exchangeOf D fields ciphers stub decoded)

/-- What is made of a reply. -/
def Session.hear (D : Digests) (session : Session) (fields : RequestFields) (ciphers : Ciphers) (stub : List UInt8) :
    Except ReplyError ServerReply → Except ProbeError Exchange
  | .error error => .error (.reply error)
  | .ok (.bindAck _ _) => .error (.reply (.unexpectedPacketType 12))
  | .ok (.response responseStub _) => session.judge D fields ciphers stub responseStub

/-- Send one request and read what comes back; a call ID is taken once the request is
built. -/
def Session.activate {δ : Type} (D : Digests) (rng : EntropySource δ) (session : Session) (fields : RequestFields)
    (entropy : δ) (stream : ν) : Spoken ν Exchange × Session × δ :=
  match fields.toBody with
  | .error error => (⟨.error (.request error), [], stream⟩, session, entropy)
  | .ok body =>
    let ciphers := Ciphers.new
    match encodeRequestDeclaring fields.version fields.declared body ciphers rng entropy (List.replicate stubLen 0) with
    | (.error _, entropy) => (⟨.error .entropyUnavailable, [], stream⟩, session, entropy)
    | (.ok (len, out), entropy) =>
      let stub := out.take len
      match session.association.request (List.replicate outLen 0) session.accepted.contextId session.accepted.transfer
          stub with
      | (.error error, association) => (⟨.error (.build error), [], stream⟩, { session with association }, entropy)
      | (.ok (len, callId, out), association) =>
        match exchangePdus network stream ((range out 0 len).getD []) with
        | (none, stream) => (⟨.error .io, [], stream⟩, { session with association }, entropy)
        | (some reply, stream) =>
          let ((read, warnings), association) := association.readReply reply callId session.accepted.transfer
          (⟨session.hear D fields ciphers stub read, warnings, stream⟩, { session with association }, entropy)

end

/-! ### What is sent -/

/-- The bytes of a request that declares the version it is framed as. -/
def stubBytes (version : Version) (body : RequestBody) (requestIv : Block) : List UInt8 :=
  match Ciphers.new.schedule version with
  | none => v4RequestBytes body .new
  | some schedule => encryptedRequestBytes version.toProtocolVersion body schedule requestIv

/-- What the host makes of them. -/
def decodedOf (version : Version) (body : RequestBody) (requestIv : Block) : DecodedRequest :=
  match Ciphers.new.schedule version with
  | none => decodedV4 body
  | some schedule => decodedEncrypted version body (schedule.decryptBlock requestIv)

theorem length_stubBytes (version : Version) (body : RequestBody) (requestIv : Block) :
    (stubBytes version body requestIv).length = framedRequestLen version := by
  cases version with
  | v4 => exact length_v4RequestBytes body .new
  | v5 | v6 => exact length_encryptedRequestBytes _ body _ requestIv

theorem decode_stubBytes {version : Version} {body : RequestBody} (hversion : body.version = version.toProtocolVersion.toWire)
    (requestIv : Block) : decode (stubBytes version body requestIv) .new = .ok (decodedOf version body requestIv) := by
  cases version with
  | v4 => exact decode_v4RequestBytes body .new hversion
  | v5 | v6 => exact decode_encryptedRequestBytes body requestIv rfl

theorem request_decodedOf (version : Version) (body : RequestBody) (requestIv : Block) :
    (decodedOf version body requestIv).request = .fromBody body := by
  cases version <;> rfl

theorem version_decodedOf (version : Version) (body : RequestBody) (requestIv : Block) :
    (decodedOf version body requestIv).version = version := by
  cases version <;> rfl

/-- A source that works is all a request takes. -/
theorem encodeRequest_of_works {δ : Type} {rng : EntropySource δ} (hworks : rng.Works) (version : Version) (body : RequestBody)
    (entropy : δ) :
    ∃ requestIv entropy', Draws rng entropy (requestDraws version requestIv) entropy' ∧
      encodeRequestDeclaring version version.toProtocolVersion body .new rng entropy (List.replicate stubLen 0) =
        (.ok (framedRequestLen version, stubBytes version body requestIv ++
          (List.replicate stubLen 0).drop (framedRequestLen version)), entropy') := by
  obtain ⟨requestIv, entropy', hdrawn⟩ := hworks entropy 16
  have hroom : framedRequestLen version ≤ (List.replicate stubLen (0 : UInt8)).length := by
    rw [List.length_replicate]
    cases version <;> decide
  cases version with
  | v4 => exact ⟨requestIv, entropy, rfl, encodeRequest_v4_eq body .new rng entropy hroom⟩
  | v5 | v6 => exact ⟨requestIv, entropy', ⟨entropy', hdrawn, rfl⟩, encodeRequest_encrypted_eq body rfl hdrawn hroom⟩

/-- The session once a call ID is taken. -/
def Session.called (session : Session) : Session :=
  { session with association := { session.association with nextCallId := session.association.nextCallId + 1 } }

/-- What it takes to activate: the name fits, and the host answers the request's PDU. -/
theorem Session.activate_eq {ν δ : Type} {network : Network ν} (D : Digests) {rng : EntropySource δ} {session : Session}
    {fields : RequestFields} {entropy entropy' : δ} {stream stream' : ν} {requestIv : Block} {reply : List UInt8}
    {read : Except ReplyError ServerReply} (hbody : fields.toBody = .ok fields.body)
    (hdeclared : fields.declared = fields.version.toProtocolVersion)
    (hencode : encodeRequestDeclaring fields.version fields.version.toProtocolVersion fields.body .new rng entropy
        (List.replicate stubLen 0) =
      (.ok (framedRequestLen fields.version, stubBytes fields.version fields.body requestIv ++
        (List.replicate stubLen 0).drop (framedRequestLen fields.version)), entropy'))
    (hexchange : exchangePdus network stream
        (requestFragment session.association.nextCallId session.accepted.contextId session.accepted.transfer
          (stubBytes fields.version fields.body requestIv)).bytes = (some reply, stream'))
    (hread : session.called.association.readReply reply session.association.nextCallId session.accepted.transfer =
      ((read, []), session.called.association)) :
    session.activate network D rng fields entropy stream =
      (⟨session.hear D fields .new (stubBytes fields.version fields.body requestIv) read, [], stream'⟩, session.called,
        entropy') := by
  have hlen := length_stubBytes fields.version fields.body requestIv
  obtain ⟨stub, hstub⟩ : ∃ stub, stub = stubBytes fields.version fields.body requestIv := ⟨_, rfl⟩
  rw [← hstub] at hlen hencode hexchange ⊢
  have hfits : requestLen session.accepted.transfer stub ≤ (List.replicate outLen (0 : UInt8)).length ∧
      requestLen session.accepted.transfer stub < 2 ^ 16 := by
    have hshort : stub.length ≤ 260 := by
      rw [hlen]
      cases fields.version <;> decide
    rw [List.length_replicate, requestLen, requestStubHeaderLen_eq]
    have hwidth := Stub.lengthFieldWidth_eq session.accepted.transfer
    simp only [headerLen, Stub.requestDataOffset, Stub.requestPrefixLen, outLen]
    omega
  have hrequest := request_eq session.association (List.replicate outLen 0) session.accepted.contextId
    session.accepted.transfer stub
  rw [if_pos hfits] at hrequest
  have hbuilt : session.association.request (List.replicate outLen 0) session.accepted.contextId session.accepted.transfer stub =
      (.ok (requestLen session.accepted.transfer stub, session.association.nextCallId,
          (requestFragment session.association.nextCallId session.accepted.contextId session.accepted.transfer stub).bytes ++
            (List.replicate outLen 0).drop (requestLen session.accepted.transfer stub)), session.called.association) := by
    refine Prod.ext ?_ rfl
    have htotal : requestLen session.accepted.transfer stub =
        headerLen + (requestStub session.accepted.contextId session.accepted.transfer stub).length := by
      rw [requestLen, requestStubHeaderLen_eq, length_requestStub]
    rw [hrequest, htotal]
    rfl
  have hbytes : (requestFragment session.association.nextCallId session.accepted.contextId session.accepted.transfer
      stub).bytes.length = requestLen session.accepted.transfer stub := by
    rw [Fragment.length_bytes, requestLen, requestStubHeaderLen_eq, ← length_requestStub session.accepted.contextId]
    rfl
  have htake : (stub ++ (List.replicate stubLen 0).drop (framedRequestLen fields.version)).take (framedRequestLen fields.version) =
      stub := List.take_left' hlen
  simp only [Session.activate, hbody, hdeclared, hencode, htake, hbuilt, range_prefix _ _ hbytes.symm, Option.getD_some,
    hexchange, hread]
  rfl

/-! ### What is made of an answer -/

/-- The client's own view does not depend on where it takes the fields from. -/
theorem sentOf_eq {fields : RequestFields} (hdeclared : fields.declared = fields.version.toProtocolVersion) (stub : List UInt8) :
    sentOf fields .new stub = clientView fields.version fields.body .new stub := by
  simp only [sentOf, clientView, hdeclared, RequestFields.body, WireGuid.toGuid_fromGuid]

/-- An exchange reports what was granted, and fails no check but where the vectors collide. -/
structure Reports (session : Session) (fields : RequestFields) (grant : Wire.Grant) (requestIv freshIv : Block)
    (exchange : Exchange) : Prop where
  version : exchange.version = fields.version
  epid : exchange.epid = decodeLossy grant.epid.units
  count : exchange.count = grant.count
  hardwareId : exchange.hardwareId = if fields.version = .v6 then some grant.hardwareId else none
  assocGroup : exchange.assocGroup = session.assocGroup
  failures : ∀ c, exchange.checks.outcome c = .fail ↔ VectorsCollide .new fields.version requestIv freshIv c

theorem epidText_eq {decoded : DecodedResponse} {epid : EPid} (h : decoded.pidBytes = epid.wireBytes) :
    epidText decoded = decodeLossy epid.units := by
  have hunits : u16.chunksExact epid.wireBytes = epid.units ++ [0] := u16.chunksExact_flatMap (by decide) _
  rw [epidText, h, hunits, List.takeWhile_append_of_pos fun unit hunit => decide_eq_true (epid.ne_zero unit hunit)]
  simp

section
variable (D : Digests) (session : Session) {fields : RequestFields} (grant : Wire.Grant)

theorem Session.judge_eq {ciphers : Ciphers} {stub response : List UInt8} (decoded : DecodedResponse)
    (h : ∀ scratch : List UInt8, response.length ≤ scratch.length →
      decodeResponse fields.version response (ciphers.schedule fields.version) scratch = .ok decoded) :
    session.judge D fields ciphers stub response = .ok (session.exchangeOf D fields ciphers stub decoded) := by
  rw [Session.judge, h _ (by rw [List.length_replicate]; exact le_max_left _ _)]

/-- What is decoded as it was granted is reported so. -/
theorem reports_exchangeOf {requestIv freshIv : Block} {decoded : DecodedResponse} {stub : List UInt8}
    (hepid : decoded.pidBytes = grant.epid.wireBytes) (hcount : decoded.count = grant.count)
    (hhardware : decoded.hardwareId = if fields.version = .v6 then some grant.hardwareId else none)
    (hdeclared : fields.declared = fields.version.toProtocolVersion)
    (hfailures : ∀ c, (check D (clientView fields.version fields.body .new stub) decoded (some Ciphers.new.mac.tag)).outcome c =
      .fail ↔ VectorsCollide .new fields.version requestIv freshIv c) :
    Reports session fields grant requestIv freshIv (session.exchangeOf D fields .new stub decoded) where
  version := rfl
  epid := epidText_eq hepid
  count := hcount
  hardwareId := hhardware
  assocGroup := rfl
  failures := by
    rw [← sentOf_eq hdeclared] at hfailures
    exact hfailures

/-- What the host answers to a request that it grants is read as the grant. -/
theorem judge_answer (hdeclared : fields.declared = fields.version.toProtocolVersion) {ε : Type} {rng : EntropySource ε}
    {entropy entropy' : ε} (requestIv : Block) {freshIv salt : Block}
    (hdraws : Draws rng entropy (responseDraws fields.version freshIv salt) entropy') {out : List UInt8}
    (hout : maxResponseLen ≤ out.length) :
    ∃ response exchange, response.length ≤ 296 ∧
      encode D (decodedOf fields.version fields.body requestIv)
          (planOf grant (decodedOf fields.version fields.body requestIv).request) .new rng entropy out =
        (.ok (response.length, response ++ out.drop response.length), entropy') ∧
      session.judge D fields .new (stubBytes fields.version fields.body requestIv) response = .ok exchange ∧
      Reports session fields grant requestIv freshIv exchange := by
  rw [request_decodedOf]
  obtain ⟨plan, hplan⟩ : ∃ plan, plan = planOf grant (.fromBody fields.body) := ⟨_, rfl⟩
  have hmachine : plan.clientMachineId = fields.body.clientMachineId.toGuid := by
    rw [hplan]
    rfl
  have htime : plan.clientTime = fields.body.clientTime := by
    rw [hplan]
    rfl
  have hepid : plan.epid = grant.epid := by
    rw [hplan]
    rfl
  have hcount : plan.count = grant.count := by
    rw [hplan]
    rfl
  have hhardware : plan.hardwareId = grant.hardwareId := by
    rw [hplan]
    rfl
  rw [← hplan]
  by_cases hv : fields.version = .v4
  · have hsame : entropy = entropy' := by
      rw [hv] at hdraws
      exact hdraws
    have hroom := (length_v4ResponseBytes_le Version.v4.toProtocolVersion plan .new).trans hout
    refine ⟨v4ResponseBytes Version.v4.toProtocolVersion plan .new, _, ?_, ?_,
      session.judge_eq D (plannedV4 plan .new) fun scratch _ => ?_,
      reports_exchangeOf D session grant ?_ ?_ ?_ hdeclared fun c => ?_⟩
    · have hlen := answerLen_le .v4 plan.epid
      rw [v4ResponseBytes, List.length_append, length_bodyBytes, Vector.length_toList]
      exact hlen
    · rw [hv, ← hsame]
      exact congrArg (·, entropy) (encodeV4_eq (decodedV4 fields.body) plan .new hroom)
    · rw [hv]
      exact decodeResponseV4_eq plan .new
    · exact congrArg EPid.wireBytes hepid
    · exact hcount
    · rw [hv]
      rfl
    · rw [hv]
      refine iff_of_false (outcome_v4_ne_fail Ciphers.new.mac.tag
        (plannedV4_echoes plan .new rfl hmachine.symm htime.symm rfl rfl) rfl rfl rfl c) ?_
      cases c <;> exact id
  · obtain ⟨schedule, hschedule⟩ : ∃ schedule, Ciphers.new.schedule fields.version = some schedule := by
      cases hversion : fields.version with
      | v4 => exact absurd hversion hv
      | v5 | v6 => exact ⟨_, rfl⟩
    have hdecoded : decodedOf fields.version fields.body requestIv =
        decodedEncrypted fields.version fields.body (schedule.decryptBlock requestIv) := by
      rw [decodedOf, hschedule]
    have hstub : stubBytes fields.version fields.body requestIv =
        encryptedRequestBytes fields.version.toProtocolVersion fields.body schedule requestIv := by
      rw [stubBytes, hschedule]
    refine ⟨encryptedResponseBytes D fields.version fields.version.toProtocolVersion plan schedule
        (schedule.decryptBlock requestIv) (answerIv fields.version (schedule.decryptBlock requestIv) freshIv) salt, _, ?_, ?_,
      session.judge_eq D (plannedEncrypted D fields.version plan schedule (schedule.decryptBlock requestIv)
        (answerIv fields.version (schedule.decryptBlock requestIv) freshIv) salt) fun scratch hscratch => ?_,
      reports_exchangeOf D session grant ?_ ?_ ?_ hdeclared ?_⟩
    · have hlen := answerLen_le fields.version plan.epid
      rw [length_encryptedResponseBytes]
      cases hversion : fields.version with
      | v4 => exact absurd hversion hv
      | v5 | v6 =>
        rw [hversion] at hlen
        exact hlen
    · rw [hdecoded]
      exact encodeEncrypted_of_draws D (decodedEncrypted fields.version fields.body (schedule.decryptBlock requestIv)) plan rfl
        hschedule hdraws hout
    · rw [← decodeResponseEncrypted_eq D fields.version plan schedule (schedule.decryptBlock requestIv)
        (answerIv fields.version (schedule.decryptBlock requestIv) freshIv) salt hscratch, hschedule]
      cases hversion : fields.version with
      | v4 => exact absurd hversion hv
      | v5 | v6 => rfl
    · rw [← hepid]
      cases fields.version <;> rfl
    · rw [← hcount]
      cases fields.version <;> rfl
    · rw [← hhardware]
      cases fields.version <;> rfl
    · intro c
      rw [hstub]
      exact outcome_answer_eq_fail D fields.body plan requestIv freshIv salt (some Ciphers.new.mac.tag) hschedule hmachine htime c

end

end Kmsrs.Client
