import Kmsrs.Kms.Layout

/-! Reading a request: version dispatch with its exact length check, and the
total reading of a body of the right size. -/

namespace Kmsrs.Kms

open Kmsrs.Layout

/-- A request with every field read. -/
structure Request where
  version : ProtocolVersion
  clientKind : ClientKind
  licenseStatus : LicenseStatus
  grace : UInt32
  application : Guid
  sku : Guid
  counted : Guid
  clientMachineId : Guid
  requiredClients : UInt32
  clientTime : UInt64
  previousClientMachineId : Option Guid
  workstationName : WorkstationName
deriving DecidableEq

/-- All zeros means the machine ID never changed. -/
def previousMachine (guid : Guid) : Option Guid := if guid = Guid.zero then none else some guid

def Request.fromBody (body : RequestBody) : Request where
  version := .fromWire body.version
  clientKind := .fromWire body.isClientVm
  licenseStatus := .fromWire body.licenseStatus
  grace := body.graceTime
  application := body.applicationId.toGuid
  sku := body.skuId.toGuid
  counted := body.kmsCountedId.toGuid
  clientMachineId := body.clientMachineId.toGuid
  requiredClients := body.requiredClients
  clientTime := body.clientTime
  previousClientMachineId := previousMachine body.previousClientMachineId.toGuid
  workstationName := .decode body.workstationName

inductive RequestError where
  | unsupportedVersion (declared : ProtocolVersion)
  | wrongLength (declared : Version) (expected actual : ℕ)
  | tooShortToDispatch (actual : ℕ)
deriving DecidableEq

def framedRequestLen : Version → ℕ
  | .v4 => requestV4Len
  | .v5 => requestV5Len
  | .v6 => requestV6Len

/-- The version word comes first in every version, so it is read before
anything is decrypted. -/
def dispatch (stub : List UInt8) : Except RequestError (Version × ProtocolVersion) :=
  match u32.readFromPrefix stub with
  | none => .error (.tooShortToDispatch stub.length)
  | some (word, _) =>
    let declared := ProtocolVersion.fromWire word
    match declared.supported with
    | none => .error (.unsupportedVersion declared)
    | some version =>
      let expected := framedRequestLen version
      if stub.length = expected then .ok (version, declared)
      else .error (.wrongLength version expected stub.length)

/-- A stub that opens with a supported version word and has that version's
length is dispatched to it. -/
theorem dispatch_append (version : Version) (rest : List UInt8)
    (h : 4 + rest.length = framedRequestLen version) :
    dispatch (u32.encode version.toProtocolVersion.toWire ++ rest) =
      .ok (version, version.toProtocolVersion) := by
  simp only [dispatch, readFromPrefix_append, Version.fromWire_toWire,
    Version.supported_toProtocolVersion, List.length_append, length_encode, size_u32, h, if_true]

/-- What dispatch accepts is a supported version at its exact length. -/
theorem dispatch_eq_ok {stub : List UInt8} {version : Version} {declared : ProtocolVersion}
    (h : dispatch stub = .ok (version, declared)) :
    declared = version.toProtocolVersion ∧ stub.length = framedRequestLen version := by
  simp only [dispatch] at h
  split at h
  · cases h
  next word rest hread =>
    split at h
    · cases h
    next found hfound =>
      split at h
      next hlen =>
        cases h
        exact ⟨ProtocolVersion.eq_of_supported hfound, hlen⟩
      next => cases h

/-- The version's word and exact length. -/
def Fits (version : Version) (stub : List UInt8) : Prop :=
  stub.length = framedRequestLen version ∧ stub.take 4 = u32.encode version.toProtocolVersion.toWire

theorem dispatch_of_fits {version : Version} {stub : List UInt8} (h : Fits version stub) :
    dispatch stub = .ok (version, version.toProtocolVersion) := by
  obtain ⟨hlen, hword⟩ := h
  have hfront : 4 ≤ stub.length := by
    rw [hlen]
    cases version <;> decide
  rw [← List.take_append_drop 4 stub, hword]
  refine dispatch_append version _ ?_
  rw [List.length_drop, ← hlen]
  omega

theorem fits_of_dispatch {stub : List UInt8} {version : Version} {declared : ProtocolVersion}
    (h : dispatch stub = .ok (version, declared)) : Fits version stub := by
  obtain ⟨-, hlen⟩ := dispatch_eq_ok h
  refine ⟨hlen, ?_⟩
  have hfront : u32.size ≤ stub.length := by
    rw [hlen]
    cases version <;> decide
  rw [dispatch, readFromPrefix_eq_some u32 hfront] at h
  dsimp only at h
  split at h
  · cases h
  next found hfound =>
    have hdeclared := ProtocolVersion.eq_of_supported hfound
    split at h
    next =>
      cases h
      rw [← hdeclared, ProtocolVersion.toWire_fromWire, u32.encode_decode _ (by simpa using hfront)]
      rfl
    next => cases h

end Kmsrs.Kms
