import Kmsrs.Kms.Layout

/-! Interface and transfer-syntax identities. Feature negotiation is offered as a
transfer syntax but is no GUID: a fixed prefix, then the bits asked for. -/

namespace Kmsrs.Wire

open Kmsrs.Kms

/-- 51c82175-844e-4750-b0d8-ec255555bc06 -/
def kmsInterface : Guid :=
  #v[0x51, 0xc8, 0x21, 0x75, 0x84, 0x4e, 0x47, 0x50, 0xb0, 0xd8, 0xec, 0x25, 0x55, 0x55, 0xbc, 0x06]

def kmsInterfaceVersionMajor : UInt16 := 1
def kmsInterfaceVersionMinor : UInt16 := 0

/-- 8a885d04-1ceb-11c9-9fe8-08002b104860 -/
def ndr32 : Guid :=
  #v[0x8a, 0x88, 0x5d, 0x04, 0x1c, 0xeb, 0x11, 0xc9, 0x9f, 0xe8, 0x08, 0x00, 0x2b, 0x10, 0x48, 0x60]

/-- 71710533-beba-4937-8319-b5dbef9ccc36 -/
def ndr64 : Guid :=
  #v[0x71, 0x71, 0x05, 0x33, 0xbe, 0xba, 0x49, 0x37, 0x83, 0x19, 0xb5, 0xdb, 0xef, 0x9c, 0xcc, 0x36]

/-- The first eight bytes of a feature negotiation item, as framed. -/
def btfnWirePrefix : List UInt8 := [0x2c, 0x1c, 0xb7, 0x6c, 0x12, 0x98, 0x40, 0x45]

abbrev FeatureBits := UInt8

namespace FeatureBits

def supported : FeatureBits := 0x03

/-- What was asked for and is supported. -/
def acknowledged (bits : FeatureBits) : FeatureBits := bits &&& supported

end FeatureBits

inductive TransferSyntax where
  | ndr32
  | ndr64
  | featureNegotiation (bits : FeatureBits)
  | unknown
deriving DecidableEq, Repr

/-- From the wire bytes, since negotiation cannot be compared as a GUID. -/
def TransferSyntax.classify (wire : Vector UInt8 16) : TransferSyntax :=
  if wire.toList.take 8 = btfnWirePrefix then .featureNegotiation wire[8]
  else
    let canonical := (WireGuid.layout.decode wire.toList).toGuid
    if canonical = Wire.ndr32 then .ndr32
    else if canonical = Wire.ndr64 then .ndr64
    else .unknown

/-- The wire bytes of a GUID in RFC 4122 order, filled in slot by slot: four
bytes reversed, two pairs reversed, eight bytes as they are. -/
def guidToWire (guid : Guid) : Vector UInt8 16 :=
  let byte (i : ℕ) : UInt8 := guid[i]?.getD 0
  let wire : Vector UInt8 16 := Vector.replicate 16 0
  let wire := (List.range 4).foldl (fun wire index => wire.setIfInBounds index (byte (3 - index))) wire
  let wire := [(4, 4), (6, 6)].foldl (fun wire (pair, base) =>
    (List.range 2).foldl (fun wire offset => wire.setIfInBounds (pair + offset) (byte (base + 1 - offset))) wire) wire
  (List.range' 8 8).foldl (fun wire offset => wire.setIfInBounds offset (byte offset)) wire

/-- The framed fields of a GUID, reversed where they are numbers. -/
theorem WireGuid.encode_fromGuid (guid : Guid) : WireGuid.layout.encode (.fromGuid guid) =
    (guid.toList.take 4).reverse ++ (((guid.toList.drop 4).take 2).reverse ++
      (((guid.toList.drop 6).take 2).reverse ++ guid.toList.drop 8)) := by
  have h1 : (guid.toList.take 4).reverse.length = Layout.u32.size := by simp
  have h2 : ((guid.toList.drop 4).take 2).reverse.length = Layout.u16.size := by simp
  have h3 : ((guid.toList.drop 6).take 2).reverse.length = Layout.u16.size := by simp
  have h4 : (guid.toList.drop 8).length = 8 := by simp
  simp only [WireGuid.layout, Layout.iso, Layout.pair, WireGuid.fromGuid]
  rw [Layout.u32.encode_decode _ h1, Layout.u16.encode_decode _ h2, Layout.u16.encode_decode _ h3,
    Layout.encode_bytes, Layout.toList_decode_bytes h4]

/-- The loops fill in what the fields are framed as. -/
theorem toList_guidToWire (guid : Guid) : (guidToWire guid).toList = WireGuid.layout.encode (.fromGuid guid) := by
  rw [WireGuid.encode_fromGuid]
  obtain ⟨⟨bytes⟩, hsize⟩ := guid
  simp only [List.size_toArray] at hsize
  match bytes, hsize with
  | [_, _, _, _, _, _, _, _, _, _, _, _, _, _, _, _], _ =>
    simp [guidToWire, List.range_succ, List.range'_succ, List.replicate_succ, Vector.toList]

/-- What is not negotiation is classified by its identity. -/
theorem TransferSyntax.classify_guidToWire (guid : Guid)
    (h : (guidToWire guid).toList.take 8 ≠ btfnWirePrefix) :
    classify (guidToWire guid) =
      if guid = Wire.ndr32 then .ndr32 else if guid = Wire.ndr64 then .ndr64 else .unknown := by
  unfold classify
  rw [if_neg h, toList_guidToWire, Layout.decode_encode, WireGuid.toGuid_fromGuid]

example : TransferSyntax.classify (guidToWire Wire.ndr64) = .ndr64 := by decide +kernel

end Kmsrs.Wire
