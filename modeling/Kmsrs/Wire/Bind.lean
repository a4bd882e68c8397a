import Kmsrs.Lib.ArrayVec
import Kmsrs.Wire.Header
import Kmsrs.Wire.Syntax

/-! Binds and their acknowledgement: reading the proposed contexts, choosing the
one context to service, and writing one result for each. -/

namespace Kmsrs.Wire.Bind

open Kmsrs.Layout Kmsrs.Bytes Kmsrs.Kms

def maxContextItems : ℕ := 16
def maxTransferSyntaxes : ℕ := 4
def resultLen : ℕ := 24
def ackPrefixLen : ℕ := 10

/-! ### Reading -/

inductive BindError where
  | truncated (offset : ℕ)
  | tooManySyntaxes (declared : ℕ)
deriving DecidableEq

/-- A checked forward reader. -/
structure Reader where
  bytes : List UInt8
  offset : ℕ

abbrev ReadM := StateT Reader (Except BindError)

namespace Reader

def take (len : ℕ) : ReadM (List UInt8) := fun reader =>
  match range reader.bytes reader.offset (reader.offset + len) with
  | none => .error (.truncated reader.offset)
  | some slice => .ok (slice, { reader with offset := reader.offset + len })

def skip (len : ℕ) : ReadM Unit := do
  let _ ← take len

def field {α : Type} (L : Layout α) : ReadM α := do
  let bytes ← take L.size
  return L.decode bytes

def u8 : ReadM UInt8 := field Layout.u8
def u16 : ReadM UInt16 := field Layout.u16
def u32 : ReadM UInt32 := field Layout.u32
def bytes16 : ReadM (Vector UInt8 16) := field (Layout.bytes 16)

def guid : ReadM Guid := do
  let wire ← bytes16
  return (WireGuid.layout.decode wire.toList).toGuid

end Reader

structure OfferedSyntax where
  transfer : TransferSyntax
  version : UInt32
deriving DecidableEq

structure ContextItem where
  contextId : UInt16
  abstractSyntax : Guid
  abstractVersionMajor : UInt16
  abstractVersionMinor : UInt16
  offered : ArrayVec OfferedSyntax maxTransferSyntaxes
deriving DecidableEq

namespace ContextItem

/-- The interface and both halves of its version. -/
def namesKmsInterface (item : ContextItem) : Bool :=
  item.abstractSyntax = kmsInterface ∧ item.abstractVersionMajor = kmsInterfaceVersionMajor ∧
    item.abstractVersionMinor = kmsInterfaceVersionMinor

def offerFor (item : ContextItem) (transfer : TransferSyntax) : Option OfferedSyntax :=
  item.offered.items.find? fun offered => offered.transfer = transfer

def featureBits (item : ContextItem) : Option FeatureBits :=
  item.offered.items.findSome? fun offered =>
    match offered.transfer with
    | .featureNegotiation bits => some bits
    | _ => none

end ContextItem

structure BindRequest where
  maxXmitFrag : UInt16
  maxRecvFrag : UInt16
  assocGroup : UInt32
  /-- As declared, before the cap. -/
  declaredItems : ℕ
  items : ArrayVec ContextItem maxContextItems
deriving DecidableEq

def readOffered (syntaxCount : ℕ) : ℕ → ArrayVec OfferedSyntax maxTransferSyntaxes →
    ReadM (ArrayVec OfferedSyntax maxTransferSyntaxes)
  | 0, offered => pure offered
  | remaining + 1, offered => do
    let wire ← Reader.bytes16
    let version ← Reader.u32
    match offered.tryPush ⟨.classify wire, version⟩ with
    | none => throw (.tooManySyntaxes syntaxCount)
    | some offered => readOffered syntaxCount remaining offered

def readItem : ReadM ContextItem := do
  let contextId ← Reader.u16
  let syntaxCount ← UInt8.toNat <$> Reader.u8
  Reader.skip 1
  let abstractSyntax ← Reader.guid
  let abstractVersion ← Reader.u32
  if syntaxCount > maxTransferSyntaxes then throw (.tooManySyntaxes syntaxCount)
  else
    let offered ← readOffered syntaxCount syntaxCount .empty
    return { contextId, abstractSyntax, offered,
             -- The major version is the low half.
             abstractVersionMajor := abstractVersion.toUInt16,
             abstractVersionMinor := (abstractVersion >>> 16).toUInt16 }

/-- Stops at the cap, whatever was declared. -/
def readItems : ℕ → ArrayVec ContextItem maxContextItems → ReadM (ArrayVec ContextItem maxContextItems)
  | 0, items => pure items
  | remaining + 1, items =>
    if items.isFull then pure items
    else do
      let item ← readItem
      match items.tryPush item with
      | none => pure items
      | some items => readItems remaining items

def readBind : ReadM BindRequest := do
  let maxXmitFrag ← Reader.u16
  let maxRecvFrag ← Reader.u16
  let assocGroup ← Reader.u32
  let declaredItems ← UInt8.toNat <$> Reader.u8
  Reader.skip 3
  let items ← readItems declaredItems .empty
  return { maxXmitFrag, maxRecvFrag, assocGroup, declaredItems, items }

def parse (body : List UInt8) : Except BindError BindRequest :=
  (readBind ⟨body, 0⟩).map Prod.fst

/-! ### Deciding -/

structure ContextResult where
  ackResult : UInt16
  ackReason : UInt16
  transferSyntax : Guid
  syntaxVersion : UInt32
deriving DecidableEq

namespace ContextResult

def acceptance : UInt16 := 0
def providerRejection : UInt16 := 2
def negotiateAck : UInt16 := 3
def reasonAbstractSyntax : UInt16 := 1
def reasonTransferSyntax : UInt16 := 2

def accept (transferSyntax : Guid) (syntaxVersion : UInt32) : ContextResult :=
  ⟨acceptance, 0, transferSyntax, syntaxVersion⟩

def reject (reason : UInt16) : ContextResult := ⟨providerRejection, reason, Guid.zero, 0⟩

/-- The reason carries the bits acknowledged. -/
def negotiate (bits : FeatureBits) : ContextResult :=
  ⟨negotiateAck, bits.acknowledged.toUInt16, Guid.zero, 0⟩

end ContextResult

structure AcceptedContext where
  contextId : UInt16
  transfer : TransferSyntax
deriving DecidableEq

structure BindDecision where
  results : ArrayVec ContextResult maxContextItems
  acceptedContext : Option AcceptedContext
deriving DecidableEq

def offersNdr64 (request : BindRequest) (ndr64Enabled : Bool) : Bool :=
  ndr64Enabled && request.items.items.any fun item =>
    item.namesKmsInterface && (item.offerFor .ndr64).isSome

def preferred (request : BindRequest) (ndr64Enabled : Bool) : TransferSyntax :=
  if offersNdr64 request ndr64Enabled then .ndr64 else .ndr32

def preferredGuid (request : BindRequest) (ndr64Enabled : Bool) : Guid :=
  if offersNdr64 request ndr64Enabled then Wire.ndr64 else Wire.ndr32

/-- The answer to one item, and the accepted context after it. Negotiation is
acknowledged whatever the interface, and is no context to service. -/
def decideItem (transfer : TransferSyntax) (guid : Guid) (accepted : Option AcceptedContext)
    (item : ContextItem) : ContextResult × Option AcceptedContext :=
  match item.featureBits with
  | some bits => (.negotiate bits, accepted)
  | none =>
    if !item.namesKmsInterface then (.reject ContextResult.reasonAbstractSyntax, accepted)
    else
      match item.offerFor transfer, accepted with
      | some offered, none => (.accept guid offered.version, some ⟨item.contextId, transfer⟩)
      | _, _ => (.reject ContextResult.reasonTransferSyntax, accepted)

def decideItems (transfer : TransferSyntax) (guid : Guid) :
    List ContextItem → ArrayVec ContextResult maxContextItems → Option AcceptedContext → BindDecision
  | [], results, accepted => ⟨results, accepted⟩
  | item :: items, results, accepted =>
    match results.tryPush (decideItem transfer guid accepted item).1 with
    | none => ⟨results, accepted⟩
    | some results => decideItems transfer guid items results (decideItem transfer guid accepted item).2

/-- Rejections for items past the cap, while there is room for them. -/
def refuseRest : ℕ → ArrayVec ContextResult maxContextItems → ArrayVec ContextResult maxContextItems
  | 0, results => results
  | remaining + 1, results =>
    match results.tryPush (.reject ContextResult.reasonTransferSyntax) with
    | none => results
    | some results => refuseRest remaining results

def decide (request : BindRequest) (ndr64Enabled : Bool) : BindDecision :=
  let decision := decideItems (preferred request ndr64Enabled) (preferredGuid request ndr64Enabled)
    request.items.items .empty none
  { decision with results := refuseRest (request.declaredItems - request.items.length) decision.results }

/-! ### Writing -/

inductive NakReason where
  | notSpecified
  | protocolVersionNotSupported
deriving DecidableEq

def NakReason.toWire : NakReason → UInt16
  | .notSpecified => 0
  | .protocolVersionNotSupported => 2

inductive AckError where
  | bufferTooSmall (needed available : ℕ)
  | entropyUnavailable
  | secondaryAddressTooLong (len : ℕ)
deriving DecidableEq

def supportedVersions : List (UInt8 × UInt8) := [(rpcVersionMajor, rpcVersionMinor)]

def nakLen : ℕ := headerLen + (2 + 1 + supportedVersions.length * 2)

def nakFields (callId : UInt32) (reason : NakReason) (fragLength : UInt16) : List (List UInt8) :=
  [RpcHeader.layout.encode (.forReply .bindNak .complete callId fragLength), Layout.u16.encode reason.toWire,
    [UInt8.ofNat supportedVersions.length], supportedVersions.flatMap fun version => [version.1, version.2]]

def writeNak (callId : UInt32) (reason : NakReason) (out : List UInt8) : Except AckError (ℕ × List UInt8) :=
  let tooSmall := AckError.bufferTooSmall nakLen out.length
  if out.length < nakLen then .error tooSmall
  else
    match u16TryFrom nakLen with
    | none => .error tooSmall
    | some fragLength =>
      match putAll (nakFields callId reason fragLength) out 0 with
      | none => .error tooSmall
      | some written => .ok written

def maxSecondaryAddressLen : ℕ := 6

/-- What an acknowledgement says about the connection rather than the bind. -/
structure AckParameters where
  packetType : PacketType
  callId : UInt32
  assocGroup : UInt32
  maxXmitFrag : UInt16
  maxRecvFrag : UInt16
  secondaryAddress : List UInt8
  clientFlags : PacketFlags

namespace AckParameters

/-- Multiplexing is echoed on a bind acknowledgement only. -/
def replyFlags (parameters : AckParameters) : PacketFlags :=
  if parameters.packetType = .bindAck then
    PacketFlags.complete.union (parameters.clientFlags.intersection .concMpx)
  else .complete

/-- With its terminator, or nothing at all. -/
def addressLen (parameters : AckParameters) : ℕ :=
  if parameters.secondaryAddress.isEmpty then 0 else parameters.secondaryAddress.length + 1

def beforePadding (parameters : AckParameters) : ℕ := headerLen + ackPrefixLen + parameters.addressLen

def padding (parameters : AckParameters) : ℕ := alignPadding parameters.beforePadding

/-- The bytes an acknowledgement of `count` results needs. -/
def ackLen (parameters : AckParameters) (count : ℕ) : ℕ :=
  parameters.beforePadding + parameters.padding + 4 + count * resultLen

def headFields (parameters : AckParameters) (fragLength : UInt16) : List (List UInt8) :=
  [RpcHeader.layout.encode (.forReply parameters.packetType parameters.replyFlags parameters.callId fragLength),
    Layout.u16.encode parameters.maxXmitFrag, Layout.u16.encode parameters.maxRecvFrag,
    Layout.u32.encode parameters.assocGroup, Layout.u16.encode (UInt16.ofNat parameters.addressLen)] ++
    if parameters.addressLen > 0 then [parameters.secondaryAddress, [0]] else []

end AckParameters

def resultFields (result : ContextResult) : List (List UInt8) :=
  [Layout.u16.encode result.ackResult, Layout.u16.encode result.ackReason,
    WireGuid.layout.encode (.fromGuid result.transferSyntax), Layout.u32.encode result.syntaxVersion]

def tailFields (noise : List UInt8) (decision : BindDecision) : List (List UInt8) :=
  [noise, [UInt8.ofNat decision.results.length, 0, 0, 0]] ++ decision.results.items.flatMap resultFields

/-- Alignment is random rather than zero, and draws nothing when there is none. -/
def drawNoise {ε : Type} (rng : EntropySource ε) (entropy : ε) (padding : ℕ) : Option (List UInt8) × ε :=
  if padding > 0 then ((rng.fill entropy padding).1.map Vector.toList, (rng.fill entropy padding).2)
  else (some [], entropy)

def writeAck {ε : Type} (parameters : AckParameters) (decision : BindDecision) (rng : EntropySource ε)
    (entropy : ε) (out : List UInt8) : Except AckError (ℕ × List UInt8) × ε :=
  if parameters.addressLen > maxSecondaryAddressLen then
    (.error (.secondaryAddressTooLong parameters.addressLen), entropy)
  else
    let needed := parameters.ackLen decision.results.length
    let tooSmall := AckError.bufferTooSmall needed out.length
    if out.length < needed then (.error tooSmall, entropy)
    else
      match u16TryFrom needed with
      | none => (.error tooSmall, entropy)
      | some fragLength =>
        match putAll (parameters.headFields fragLength) out 0 with
        | none => (.error tooSmall, entropy)
        | some (cursor, out) =>
          match drawNoise rng entropy parameters.padding with
          | (none, entropy) => (.error .entropyUnavailable, entropy)
          | (some noise, entropy) =>
            match putAll (tailFields noise decision) out cursor with
            | none => (.error tooSmall, entropy)
            | some written => (.ok written, entropy)

end Kmsrs.Wire.Bind
