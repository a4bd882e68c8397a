import Kmsrs.Kms.Framing
import Kmsrs.Wire.Bind
import Kmsrs.Wire.Stub

/-! The state machine of one connection. Bytes are received into a bounded
buffer; a step takes one PDU off its front, answers it, and says what to do with
the socket. The clock, entropy and the activation decision are inputs. -/

namespace Kmsrs.Wire

open Kmsrs.Layout Kmsrs.Bytes Kmsrs.Kms Kmsrs.Crypto Kmsrs.Wire.Bind

def maxPduLen : ℕ := 2048
def maxStubLen : ℕ := maxPduLen - headerLen

/-- A monotonic reading, in nanoseconds. -/
abbrev Instant := UInt64

def Instant.checkedAdd (now : Instant) (nanos : UInt64) : Option Instant :=
  if nanos.toNat ≤ 2 ^ 64 - 1 - now.toNat then some (now + nanos) else none

/-- The nanoseconds since an earlier reading, none if the clock went backwards. -/
def Instant.saturatingDurationSince (now earlier : Instant) : ℕ := now.toNat - earlier.toNat

/-- Thirty seconds. -/
def idleTimeout : UInt64 := 30000000000

/-! ### Decisions, events and steps -/

structure Grant where
  epid : EPid
  count : UInt32
  intervals : Intervals
  hardwareId : Vector UInt8 8

inductive Decision where
  | grant (grant : Grant)
  | refuse (result : HResult)

inductive RejectReason where
  | fragmentTooLong (declared : ℕ)
  | fragmentTooShort (declared : ℕ)
  | unexpectedPacketType
  | unsupportedRpcVersion
  | authenticationAttempted
  | reassemblyOverflow
deriving DecidableEq

inductive ConnectionEvent where
  | bound (transfer : TransferSyntax) (contextId : UInt16)
  | contextAdded (transfer : TransferSyntax) (contextId : UInt16)
  | activated (version : Version) (macVerified : Option Bool)
  | refused (result : HResult)
  | faulted (status : NcaStatus)
  | rejected (reason : RejectReason)
  | lost (count : UInt32)
deriving DecidableEq

inductive CloseReason where
  | peerClosed
  | malformed
  | faulted
  | idleTimeout
  | refused
  | shuttingDown
deriving DecidableEq

inductive Step where
  | needMore
  | send (len : ℕ)
  | sendThenClose (len : ℕ) (reason : CloseReason)
  | close (reason : CloseReason)
deriving DecidableEq

/-! ### Associations -/

structure Unbound where
deriving DecidableEq

/-- At most one context for each of the two transfer syntaxes. -/
structure Bound where
  contexts : ArrayVec AcceptedContext 2
deriving DecidableEq

structure Association (S : Type) where
  assocGroup : UInt32
  state : S
deriving DecidableEq

namespace Association

def new (assocGroup : UInt32) : Association Unbound := ⟨assocGroup, {}⟩

/-- Bound by the accepted context, if there is one. -/
def bind (association : Association Unbound) (request : BindRequest) (ndr64Enabled : Bool) :
    BindDecision × Option (Association Bound) :=
  let decision := Bind.decide request ndr64Enabled
  match decision.acceptedContext with
  | none => (decision, none)
  | some accepted =>
    (decision, some ⟨association.assocGroup, ⟨(ArrayVec.empty.pushEvicting accepted).1⟩⟩)

/-- An accepted context replaces the one held in the same syntax. -/
def alterContext (association : Association Bound) (request : BindRequest) (ndr64Enabled : Bool) :
    BindDecision × Association Bound :=
  let decision := Bind.decide request ndr64Enabled
  match decision.acceptedContext with
  | none => (decision, association)
  | some accepted =>
    let kept := association.state.contexts.retain fun existing => existing.transfer ≠ accepted.transfer
    (decision, { association with state := ⟨(kept.pushEvicting accepted).1⟩ })

/-- The first context held under the ID. -/
def syntaxFor (association : Association Bound) (contextId : UInt16) : Option TransferSyntax :=
  (association.state.contexts.items.find? fun context => context.contextId = contextId).map
    AcceptedContext.transfer

def service (association : Association Bound) (contextId : UInt16) : Except NcaStatus TransferSyntax :=
  match association.syntaxFor contextId with
  | none => .error .unknownInterface
  | some transfer => .ok transfer

end Association

inductive Phase where
  | unbound (association : Association Unbound)
  | bound (association : Association Bound)
  | transitioning
deriving DecidableEq

/-! ### The secondary address -/

/-- A port in ASCII digits, without a terminator. -/
structure SecondaryAddress where
  bytes : List UInt8
  ne_nil : bytes ≠ []
  le_five : bytes.length ≤ 5

/-- At most `fuel` decimal digits, least significant first. -/
def portDigits : ℕ → ℕ → List UInt8
  | 0, _ => []
  | fuel + 1, value =>
    (48 + UInt8.ofNat (value % 10)) :: if value / 10 = 0 then [] else portDigits fuel (value / 10)

theorem length_portDigits (fuel value : ℕ) : (portDigits fuel value).length ≤ fuel := by
  induction fuel generalizing value with
  | zero => simp [portDigits]
  | succ fuel ih =>
    unfold portDigits
    split
    · simp
    · simpa using ih (value / 10)

def SecondaryAddress.forPort (port : UInt16) : SecondaryAddress where
  bytes := (portDigits 5 port.toNat).reverse
  ne_nil := by simp [portDigits]
  le_five := by simpa using length_portDigits 5 port.toNat

/-! ### Connections -/

structure Connection where
  phase : Phase
  ciphers : Ciphers
  ndr64Enabled : Bool
  inbound : ArrayVec UInt8 maxPduLen
  reassembly : ArrayVec UInt8 maxStubLen
  /-- The context of the call being put together, from its first fragment. -/
  reassemblingContext : Option UInt16
  deadline : Option Instant
  events : ArrayVec ConnectionEvent 8
  lostEvents : UInt32
  secondaryAddress : SecondaryAddress

/-- What a step is given: the digests and entropy it draws on, and the host that
decides an activation. -/
structure Env (ε σ : Type) where
  digests : Digests
  rng : EntropySource ε
  activate : σ → Request → Decision × σ

/-- What a handler leaves behind; `out` is the caller's buffer. -/
structure Reply where
  step : Step
  connection : Connection
  out : List UInt8

/-- A whole step: also the entropy and host states, and the request put to the
host, if one was. -/
structure Outcome (ε σ : Type) extends Reply where
  entropy : ε
  host : σ
  asked : Option Request

/-- A reply made without asking the host. -/
def Reply.unasked {ε σ : Type} (reply : Reply) (entropy : ε) (host : σ) : Outcome ε σ :=
  { reply with entropy, host, asked := none }

/-- A response PDU around a payload. The header's length is chosen by the result,
the stub's layout by the code that the result is written as. -/
def writeResponsePdu (out : List UInt8) (callId : UInt32) (contextId : UInt16) (transfer : TransferSyntax)
    (result : HResult) (payload : List UInt8) : Option (ℕ × List UInt8) :=
  let stubLen := if result.isOk then Stub.responseStubLen transfer payload.length else Stub.errorStubLen transfer
  (u16TryFrom (headerLen + stubLen)).bind fun fragLength =>
    let header := RpcHeader.forReply .response .complete callId fragLength
    (put out 0 (RpcHeader.layout.encode header)).bind fun out =>
      (range out headerLen out.length).bind fun region =>
        (Stub.writeResponse region transfer contextId result.toWire payload).map fun (written, region) =>
          (headerLen + written, out.take headerLen ++ region)

namespace Connection

def new (assocGroup : UInt32) (ndr64Enabled : Bool) : Connection where
  phase := .unbound (.new assocGroup)
  ciphers := .new
  ndr64Enabled
  inbound := .empty
  reassembly := .empty
  reassemblingContext := none
  deadline := none
  events := .empty
  lostEvents := 0
  secondaryAddress := .forPort 1688

def withSecondaryAddress (connection : Connection) (address : SecondaryAddress) : Connection :=
  { connection with secondaryAddress := address }

/-- `none` is an overflow. -/
def receive (connection : Connection) (bytes : List UInt8) : Option Connection :=
  (connection.inbound.tryExtendFromSlice bytes).map fun inbound => { connection with inbound }

/-- The count of lost events saturates. -/
def record (connection : Connection) (event : ConnectionEvent) : Connection :=
  let (events, lost) := connection.events.pushEvicting event
  { connection with
    events
    lostEvents :=
      if lost ∧ connection.lostEvents.toNat + 1 < 2 ^ 32 then connection.lostEvents + 1
      else connection.lostEvents }

def nextEvent (connection : Connection) : Option ConnectionEvent × Connection :=
  match connection.events.popFirst with
  | some (event, events) => (some event, { connection with events })
  | none =>
    (if 0 < connection.lostEvents then some (.lost connection.lostEvents) else none,
      { connection with lostEvents := 0 })

def pduLen (connection : Connection) : Option ℕ :=
  (RpcHeader.layout.readFromPrefix connection.inbound.items).map fun (header, _) => header.fragLength.toNat

def hasCompletePdu (connection : Connection) : Bool :=
  match connection.pduLen with
  | none => false
  | some len => len ≤ connection.inbound.length

def reject (connection : Connection) (reason : RejectReason) (out : List UInt8) : Reply where
  step := .close .malformed
  connection := { connection.record (.rejected reason) with inbound := .empty }
  out

def nak (connection : Connection) (out : List UInt8) (callId : UInt32) (reason : NakReason) : Reply :=
  let connection := { connection.record (.rejected .unsupportedRpcVersion) with inbound := .empty }
  match Bind.writeNak callId reason out with
  | .ok (len, out) => ⟨.sendThenClose len .malformed, connection, out⟩
  | .error _ => ⟨.close .malformed, connection, out⟩

/-- A fault fails the call and keeps the association. -/
def fault (connection : Connection) (out : List UInt8) (callId : UInt32) (contextId : UInt16)
    (status : NcaStatus) : Reply :=
  let connection := connection.record (.faulted status)
  match Fault.write out callId contextId status with
  | some (len, out) => ⟨.send len, connection, out⟩
  | none => ⟨.close .faulted, connection, out⟩

def refuse (connection : Connection) (callId : UInt32) (contextId : UInt16) (transfer : TransferSyntax)
    (result : HResult) (out : List UInt8) : Reply :=
  let connection := connection.record (.refused result)
  match writeResponsePdu out callId contextId transfer result [] with
  | some (len, out) => ⟨.send len, connection, out⟩
  | none => ⟨.close .faulted, connection, out⟩

/-- The phase, the decision and the group that a bind leads to; `none` from the
phase that no step leaves behind. -/
def negotiate (connection : Connection) (request : BindRequest) :
    Option (Connection × BindDecision × UInt32) :=
  match connection.phase with
  | .unbound association =>
    match association.bind request connection.ndr64Enabled with
    | (decision, some bound) =>
      let connection :=
        match decision.acceptedContext with
        | some accepted => connection.record (.bound accepted.transfer accepted.contextId)
        | none => connection
      some ({ connection with phase := .bound bound }, decision, association.assocGroup)
    | (decision, none) => some (connection, decision, association.assocGroup)
  | .bound association =>
    let (decision, bound) := association.alterContext request connection.ndr64Enabled
    let connection :=
      match decision.acceptedContext with
      | some accepted => connection.record (.contextAdded accepted.transfer accepted.contextId)
      | none => connection
    some ({ connection with phase := .bound bound }, decision, association.assocGroup)
  | .transitioning => none

/-- An `alter_context_response` advertises no address. -/
def ackParameters (connection : Connection) (header : RpcHeader) (request : BindRequest) (assocGroup : UInt32)
    (isAlter : Bool) : AckParameters where
  packetType := if isAlter then .alterContextResponse else .bindAck
  callId := header.callId
  assocGroup
  maxXmitFrag := request.maxXmitFrag
  maxRecvFrag := request.maxRecvFrag
  secondaryAddress := if isAlter then [] else connection.secondaryAddress.bytes
  clientFlags := header.flags

def handleBind {ε : Type} (rng : EntropySource ε) (connection : Connection) (header : RpcHeader)
    (body : List UInt8) (entropy : ε) (out : List UInt8) (isAlter : Bool) : Reply × ε :=
  match Bind.parse body with
  | .error _ => (connection.reject .unexpectedPacketType out, entropy)
  | .ok request =>
    match connection.negotiate request with
    | none => (⟨.close .malformed, connection, out⟩, entropy)
    | some (connection, decision, assocGroup) =>
      match Bind.writeAck (connection.ackParameters header request assocGroup isAlter) decision rng entropy out with
      | (.ok (len, out), entropy) => (⟨.send len, connection, out⟩, entropy)
      | (.error _, entropy) => (⟨.close .refused, connection, out⟩, entropy)

variable {ε σ : Type}

/-- An unsupported version is a well-formed refusal; any other failure to decode
is a fault. -/
def answer (env : Env ε σ) (connection : Connection) (callId : UInt32) (contextId : UInt16)
    (transfer : TransferSyntax) (payload : List UInt8) (entropy : ε) (host : σ) (out : List UInt8) :
    Outcome ε σ :=
  match Kms.decode payload connection.ciphers with
  | .error (.request (.unsupportedVersion _)) | .error (.request (.wrongLength _ _ _)) =>
    (connection.refuse callId contextId transfer .invalidData out).unasked entropy host
  | .error _ => (connection.fault out callId contextId .protocolError).unasked entropy host
  | .ok decoded =>
    match env.activate host decoded.request with
    | (.refuse result, host) =>
      { connection.refuse callId contextId transfer result out with
        entropy, host, asked := some decoded.request }
    | (.grant grant, host) =>
      let plan : ResponsePlan :=
        { epid := grant.epid
          clientMachineId := decoded.request.clientMachineId
          clientTime := decoded.request.clientTime
          count := grant.count
          intervals := grant.intervals
          hardwareId := grant.hardwareId }
      match Kms.encode env.digests decoded plan connection.ciphers env.rng entropy
          (List.replicate maxResponseLen 0) with
      | (.error _, entropy) =>
        { step := .close .refused, connection, out, entropy, host, asked := some decoded.request }
      | (.ok (payloadLen, response), entropy) =>
        match writeResponsePdu out callId contextId transfer .ok (response.take payloadLen) with
        | none => { step := .close .refused, connection, out, entropy, host, asked := some decoded.request }
        | some (len, out) =>
          { step := .send len
            connection := connection.record (.activated decoded.version decoded.macVerified)
            out, entropy, host, asked := some decoded.request }

/-- The context a fragment belongs to. Only a first fragment names it; a later
one continues what the first established. -/
def fragmentContext (connection : Connection) (header : RpcHeader) (body : List UInt8) : Option UInt16 :=
  if header.flags.contains .firstFrag then some ((u16.readAt body 4).getD 0)
  else connection.reassemblingContext

/-- A first fragment drops whatever was being put together. -/
def startReassembly (connection : Connection) (header : RpcHeader) (contextId : UInt16) : Connection :=
  if header.flags.contains .firstFrag then
    { connection with reassembly := .empty, reassemblingContext := some contextId }
  else connection

def stopReassembly (connection : Connection) : Connection :=
  { connection with reassembly := .empty, reassemblingContext := none }

def overflowed (connection : Connection) (out : List UInt8) (callId : UInt32) (contextId : UInt16) : Reply :=
  (connection.stopReassembly.record (.rejected .reassemblyOverflow)).fault out callId contextId .protocolError

/-- A fully reassembled call. -/
def handleStub (env : Env ε σ) (connection : Connection) (callId : UInt32) (contextId : UInt16)
    (transfer : TransferSyntax) (assembled : List UInt8) (entropy : ε) (host : σ) (out : List UInt8) :
    Outcome ε σ :=
  match Stub.parseRequest assembled transfer with
  | .error (.unknownOperation _) =>
    (connection.fault out callId contextId .unknownInterface).unasked entropy host
  | .error _ => (connection.fault out callId contextId .protocolError).unasked entropy host
  | .ok parsed => connection.answer env callId contextId transfer parsed.data entropy host out

def handleRequest (env : Env ε σ) (connection : Connection) (header : RpcHeader) (body : List UInt8)
    (entropy : ε) (host : σ) (out : List UInt8) : Outcome ε σ :=
  let callId := header.callId
  match connection.phase with
  | .unbound _ | .transitioning => (connection.fault out callId 0 .unknownInterface).unasked entropy host
  | .bound association =>
    match connection.fragmentContext header body with
    | none => (connection.fault out callId 0 .protocolError).unasked entropy host
    | some contextId =>
      match association.service contextId with
      | .error status => (connection.fault out callId contextId status).unasked entropy host
      | .ok transfer =>
        let connection := connection.startReassembly header contextId
        match connection.reassembly.tryExtendFromSlice body with
        | none => (connection.overflowed out callId contextId).unasked entropy host
        | some reassembly =>
          let connection := { connection with reassembly }
          if !header.flags.contains .lastFrag then
            (⟨.needMore, connection, out⟩ : Reply).unasked entropy host
          else
            match (ArrayVec.empty : ArrayVec UInt8 maxStubLen).tryExtendFromSlice reassembly.items with
            | none => (connection.overflowed out callId contextId).unasked entropy host
            | some assembled =>
              connection.stopReassembly.handleStub env callId contextId transfer assembled.items entropy host out

/-- One PDU, taken off the buffer. -/
def dispatch (env : Env ε σ) (connection : Connection) (header : RpcHeader) (body : List UInt8) (entropy : ε)
    (host : σ) (out : List UInt8) : Outcome ε σ :=
  if !header.versionIsSupported then
    (connection.nak out header.callId .protocolVersionNotSupported).unasked entropy host
  else if header.authLength ≠ 0 then
    ((connection.record (.rejected .authenticationAttempted)).fault out header.callId 0 .protocolError).unasked
      entropy host
  else
    match header.packetType? with
    | some .bind =>
      let (reply, entropy) := connection.handleBind env.rng header body entropy out false
      reply.unasked entropy host
    | some .alterContext =>
      let (reply, entropy) := connection.handleBind env.rng header body entropy out true
      reply.unasked entropy host
    | some .request => connection.handleRequest env header body entropy host out
    | _ => (connection.reject .unexpectedPacketType out).unasked entropy host

def step (env : Env ε σ) (connection : Connection) (now : Instant) (entropy : ε) (host : σ)
    (out : List UInt8) : Outcome ε σ :=
  let connection := { connection with deadline := now.checkedAdd idleTimeout }
  let needMore := (⟨.needMore, connection, out⟩ : Reply).unasked entropy host
  let rejected (reason : RejectReason) := (connection.reject reason out).unasked entropy host
  if connection.inbound.length < headerLen then needMore
  else
    match RpcHeader.layout.readFromPrefix connection.inbound.items with
    | none => needMore
    | some (header, _) =>
      let declared := header.fragLength.toNat
      if declared < headerLen then rejected (.fragmentTooShort declared)
      else if declared > maxPduLen then rejected (.fragmentTooLong declared)
      else if connection.inbound.length < declared then needMore
      else
        let inbound := connection.inbound.items
        match (ArrayVec.empty : ArrayVec UInt8 maxPduLen).tryExtendFromSlice
            ((range inbound 0 declared).getD []) with
        | none => rejected (.fragmentTooLong declared)
        | some pdu =>
          match (ArrayVec.empty : ArrayVec UInt8 maxPduLen).tryExtendFromSlice
              ((range inbound declared inbound.length).getD []) with
          | none => rejected (.fragmentTooLong declared)
          | some rest =>
            let body := (range pdu.items headerLen declared).getD []
            { connection with inbound := rest }.dispatch env header body entropy host out

end Connection

end Kmsrs.Wire
