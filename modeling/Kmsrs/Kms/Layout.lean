import Kmsrs.Lib.Layout
import Kmsrs.Kms.Types

/-! Byte-exact request and response records. A response is kept in the segments
its builder writes (head, ePID, tail, proofs), since the ePID moves whatever
follows it. -/

namespace Kmsrs.Kms

open Kmsrs.Layout

/-- A GUID as framed: three little-endian fields, then eight bytes in order. -/
structure WireGuid where
  data1 : UInt32
  data2 : UInt16
  data3 : UInt16
  data4 : Vector UInt8 8
deriving DecidableEq

namespace WireGuid

def layout : Layout WireGuid :=
  (u32.pair (u16.pair (u16.pair (Layout.bytes 8)))).iso
    (fun r => ⟨r.1, r.2.1, r.2.2.1, r.2.2.2⟩) (fun g => (g.data1, g.data2, g.data3, g.data4))
    (fun _ => rfl) (fun _ => rfl)

/-- The database's byte order: every field big-endian. -/
def toGuid (wire : WireGuid) : Guid :=
  let first := u32.encode wire.data1
  let second := u16.encode wire.data2
  let third := u16.encode wire.data3
  Layout.decode (Layout.bytes 16) (first.reverse ++ second.reverse ++ third.reverse ++ wire.data4.toList)

def fromGuid (guid : Guid) : WireGuid where
  data1 := u32.decode ((guid.toList.take 4).reverse)
  data2 := u16.decode (((guid.toList.drop 4).take 2).reverse)
  data3 := u16.decode (((guid.toList.drop 6).take 2).reverse)
  data4 := Layout.decode (Layout.bytes 8) (guid.toList.drop 8)

/-- Reordering is a bijection. -/
theorem toGuid_fromGuid (guid : Guid) : (fromGuid guid).toGuid = guid := by
  have hlen : guid.toList.length = 16 := Vector.length_toList
  have h1 : (guid.toList.take 4).reverse.length = u32.size := by simp
  have h2 : ((guid.toList.drop 4).take 2).reverse.length = u16.size := by simp
  have h3 : ((guid.toList.drop 6).take 2).reverse.length = u16.size := by simp
  have h4 : (guid.toList.drop 8).length = 8 := by simp
  have hall : guid.toList.take 4 ++ (guid.toList.drop 4).take 2 ++ (guid.toList.drop 6).take 2 ++
      guid.toList.drop 8 = guid.toList := by
    generalize guid.toList = bytes
    have h68 : (bytes.drop 6).take 2 ++ bytes.drop 8 = bytes.drop 6 := by
      simpa using List.take_append_drop 2 (bytes.drop 6)
    have h46 : (bytes.drop 4).take 2 ++ bytes.drop 6 = bytes.drop 4 := by
      simpa using List.take_append_drop 2 (bytes.drop 4)
    rw [List.append_assoc, List.append_assoc, h68, h46, List.take_append_drop]
  simp only [toGuid, fromGuid]
  rw [u32.encode_decode _ h1, u16.encode_decode _ h2, u16.encode_decode _ h3, toList_decode_bytes h4]
  simp only [List.reverse_reverse]
  rw [hall, decode_bytes_toList]

theorem toList_toGuid (wire : WireGuid) :
    wire.toGuid.toList = (u32.encode wire.data1).reverse ++ ((u16.encode wire.data2).reverse ++
      ((u16.encode wire.data3).reverse ++ wire.data4.toList)) := by
  rw [toGuid, toList_decode_bytes (by simp), List.append_assoc, List.append_assoc]

theorem fromGuid_toGuid (wire : WireGuid) : fromGuid wire.toGuid = wire := by
  have h1 : (u32.encode wire.data1).reverse.length = 4 := by simp
  have h2 : (u16.encode wire.data2).reverse.length = 2 := by simp
  have h3 : (u16.encode wire.data3).reverse.length = 2 := by simp
  have d4 : wire.toGuid.toList.drop 4 = (u16.encode wire.data2).reverse ++
      ((u16.encode wire.data3).reverse ++ wire.data4.toList) := by
    rw [toList_toGuid, List.drop_left' h1]
  have d6 : wire.toGuid.toList.drop 6 = (u16.encode wire.data3).reverse ++ wire.data4.toList := by
    have h := congrArg (List.drop 2) d4
    rwa [List.drop_drop, List.drop_left' h2] at h
  have d8 : wire.toGuid.toList.drop 8 = wire.data4.toList := by
    have h := congrArg (List.drop 2) d6
    rwa [List.drop_drop, List.drop_left' h3] at h
  have t4 : wire.toGuid.toList.take 4 = (u32.encode wire.data1).reverse := by
    rw [toList_toGuid, List.take_left' h1]
  simp only [fromGuid, t4, d4, d6, d8, List.take_left' h2, List.take_left' h3, List.reverse_reverse,
    Layout.decode_encode, decode_bytes_toList]

end WireGuid

/-! ### The request -/

/-- The request body in wire order; the previous machine ID precedes the
workstation name. -/
structure RequestBody where
  version : UInt32
  isClientVm : UInt32
  licenseStatus : UInt32
  graceTime : UInt32
  applicationId : WireGuid
  skuId : WireGuid
  kmsCountedId : WireGuid
  clientMachineId : WireGuid
  requiredClients : UInt32
  clientTime : UInt64
  previousClientMachineId : WireGuid
  workstationName : Vector UInt16 64
deriving DecidableEq

def RequestBody.layout : Layout RequestBody :=
  (u32.pair (u32.pair (u32.pair (u32.pair (WireGuid.layout.pair (WireGuid.layout.pair
    (WireGuid.layout.pair (WireGuid.layout.pair (u32.pair (u64.pair (WireGuid.layout.pair
      (u16.array 64)))))))))))).iso
    (fun ⟨version, vm, status, grace, app, sku, counted, machine, required, time, previous, name⟩ =>
      ⟨version, vm, status, grace, app, sku, counted, machine, required, time, previous, name⟩)
    (fun ⟨version, vm, status, grace, app, sku, counted, machine, required, time, previous, name⟩ =>
      ⟨version, vm, status, grace, app, sku, counted, machine, required, time, previous, name⟩)
    (fun _ => rfl) (fun _ => rfl)

/-! ### The response, segment by segment -/

structure ResponseHead where
  version : UInt32
  pidSize : UInt32
deriving DecidableEq

def ResponseHead.layout : Layout ResponseHead :=
  (u32.pair u32).iso (fun r => ⟨r.1, r.2⟩) (fun h => (h.version, h.pidSize)) (fun _ => rfl) (fun _ => rfl)

structure ResponseTail where
  clientMachineId : WireGuid
  clientTime : UInt64
  count : UInt32
  activationInterval : UInt32
  renewalInterval : UInt32
deriving DecidableEq

def ResponseTail.layout : Layout ResponseTail :=
  (WireGuid.layout.pair (u64.pair (u32.pair (u32.pair u32)))).iso
    (fun r => ⟨r.1, r.2.1, r.2.2.1, r.2.2.2.1, r.2.2.2.2⟩)
    (fun t => (t.clientMachineId, t.clientTime, t.count, t.activationInterval, t.renewalInterval))
    (fun _ => rfl) (fun _ => rfl)

structure SaltProof where
  randomXoredIvs : Vector UInt8 16
  hash : Vector UInt8 32
deriving DecidableEq

def SaltProof.layout : Layout SaltProof :=
  ((Layout.bytes 16).pair (Layout.bytes 32)).iso (fun r => ⟨r.1, r.2⟩) (fun p => (p.randomXoredIvs, p.hash))
    (fun _ => rfl) (fun _ => rfl)

structure V6Trailer where
  hardwareId : Vector UInt8 8
  xoredIvs : Vector UInt8 16
  hmac : Vector UInt8 16
deriving DecidableEq

def V6Trailer.layout : Layout V6Trailer :=
  ((Layout.bytes 8).pair ((Layout.bytes 16).pair (Layout.bytes 16))).iso
    (fun r => ⟨r.1, r.2.1, r.2.2⟩) (fun t => (t.hardwareId, t.xoredIvs, t.hmac))
    (fun _ => rfl) (fun _ => rfl)

theorem V6Trailer.encode_eq (trailer : V6Trailer) : V6Trailer.layout.encode trailer =
    trailer.hardwareId.toList ++ (trailer.xoredIvs.toList ++ trailer.hmac.toList) := rfl

/-! ### Sizes, from the records -/

def requestBodyLen : ℕ := RequestBody.layout.size
def responseHeadLen : ℕ := ResponseHead.layout.size
def responseTailLen : ℕ := ResponseTail.layout.size
def saltProofLen : ℕ := SaltProof.layout.size
def v6TrailerLen : ℕ := V6Trailer.layout.size
def pidBufferUnits : ℕ := 64
def pidBufferLen : ℕ := pidBufferUnits * 2
def macLen : ℕ := 16
def ivLen : ℕ := 16
def unencryptedPrefixLen : ℕ := 4
def v6UnencryptedLen : ℕ := unencryptedPrefixLen + ivLen
def requestPadLen : ℕ := 4
def requestV4Len : ℕ := requestBodyLen + macLen
def requestV5Len : ℕ := unencryptedPrefixLen + ivLen + requestBodyLen + requestPadLen
def requestV6Len : ℕ := requestV5Len
def v6DecryptLen : ℕ := ivLen + requestBodyLen + requestPadLen
def v4PostEpidLen : ℕ := responseTailLen
def v5PostEpidLen : ℕ := responseTailLen + saltProofLen
def v6PostEpidLen : ℕ := v5PostEpidLen + v6TrailerLen
def responseV6Len : ℕ := v6UnencryptedLen + responseHeadLen + pidBufferLen + v6PostEpidLen

/-- The buffer a response is built in. -/
def maxResponseLen : ℕ := 384

theorem sizes : requestBodyLen = 236 ∧ responseHeadLen = 8 ∧ responseTailLen = 36 ∧ saltProofLen = 48 ∧
    v6TrailerLen = 40 ∧ requestV4Len = 252 ∧ requestV5Len = 260 ∧ v6DecryptLen = 256 ∧
    v5PostEpidLen = 84 ∧ v6PostEpidLen = 124 ∧ responseV6Len = 280 ∧
    responseV6Len + 16 ≤ maxResponseLen := by decide

end Kmsrs.Kms
