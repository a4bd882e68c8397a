import Kmsrs.Lib.Rows

/-! Values of the protocol: identifiers, versions, states and result codes. The
source wraps each field in a type of its own; here a wrapper is its content, and
the field name says which one it is. Text for logs is left out. -/

namespace Kmsrs.Kms

/-- Sixteen bytes in RFC 4122 order. -/
abbrev Guid := Vector UInt8 16

def Guid.zero : Guid := Vector.replicate 16 0

/-! ### Versions -/

/-- Both halves of the version word, as declared. -/
structure ProtocolVersion where
  major : UInt16
  minor : UInt16
deriving DecidableEq, Repr

/-- The versions this host implements. -/
inductive Version where
  | v4
  | v5
  | v6
deriving DecidableEq, Repr

namespace ProtocolVersion

/-- Minor in the low half. -/
def fromWire (raw : UInt32) : ProtocolVersion where
  major := (raw >>> 16).toUInt16
  minor := raw.toUInt16

def toWire (version : ProtocolVersion) : UInt32 :=
  (version.major.toUInt32 <<< 16) ||| version.minor.toUInt32

/-- Both halves count: 6.1 is not version 6. -/
def supported (version : ProtocolVersion) : Option Version :=
  if version.minor ≠ 0 then none
  else if version.major = 4 then some .v4
  else if version.major = 5 then some .v5
  else if version.major = 6 then some .v6
  else none

end ProtocolVersion

/-- The two halves make up the word. -/
theorem ProtocolVersion.toWire_fromWire (raw : UInt32) : (ProtocolVersion.fromWire raw).toWire = raw := by
  have hlow : raw.toNat % 65536 < 2 ^ 16 := Nat.mod_lt _ (by norm_num)
  have hhigh : raw.toNat / 65536 < 65536 := by
    have := raw.toNat_lt
    omega
  apply UInt32.toNat_inj.mp
  simp only [toWire, fromWire, UInt32.toNat_or, UInt32.toNat_shiftLeft, UInt32.toNat_shiftRight,
    UInt16.toNat_toUInt32, UInt32.toNat_toUInt16, UInt32.reduceToNat, Nat.reduceMod, Nat.shiftRight_eq_div_pow,
    Nat.reducePow, Nat.mod_eq_of_lt hhigh]
  rw [Nat.mod_eq_of_lt (by rw [Nat.shiftLeft_eq]; omega), ← Nat.shiftLeft_add_eq_or_of_lt hlow, Nat.shiftLeft_eq]
  omega

namespace Version

def toProtocolVersion : Version → ProtocolVersion
  | .v4 => ⟨4, 0⟩
  | .v5 => ⟨5, 0⟩
  | .v6 => ⟨6, 0⟩

def usesTweakedCipher : Version → Bool
  | .v6 => true
  | _ => false

theorem supported_toProtocolVersion (version : Version) :
    version.toProtocolVersion.supported = some version := by
  cases version <;> decide

theorem fromWire_toWire (version : Version) :
    ProtocolVersion.fromWire version.toProtocolVersion.toWire = version.toProtocolVersion := by
  cases version <;> decide

end Version

/-- A declared version that is supported is exactly one of the three. -/
theorem ProtocolVersion.eq_of_supported {declared : ProtocolVersion} {version : Version}
    (h : declared.supported = some version) : declared = version.toProtocolVersion := by
  obtain ⟨major, minor⟩ := declared
  simp only [supported] at h
  split at h
  · cases h
  next hminor =>
    have hminor : minor = 0 := by simpa using hminor
    subst hminor
    split at h
    next hmajor => cases h; rw [hmajor]; rfl
    next =>
      split at h
      next hmajor => cases h; rw [hmajor]; rfl
      next =>
        split at h
        next hmajor => cases h; rw [hmajor]; rfl
        next => cases h

/-! ### What a client says about itself -/

inductive ClientKind where
  | bareMetal
  | virtualMachine
  | unrecognised (value : UInt32)
deriving DecidableEq, Repr

def ClientKind.fromWire (value : UInt32) : ClientKind :=
  if value = 0 then .bareMetal else if value = 1 then .virtualMachine else .unrecognised value

inductive LicenseStatus where
  | unlicensed
  | licensed
  | outOfBoxGrace
  | outOfToleranceGrace
  | nonGenuineGrace
  | notification
  | extendedGrace
  | unrecognised (raw : UInt32)
deriving DecidableEq, Repr

def LicenseStatus.fromWire (raw : UInt32) : LicenseStatus :=
  if raw = 0 then .unlicensed
  else if raw = 1 then .licensed
  else if raw = 2 then .outOfBoxGrace
  else if raw = 3 then .outOfToleranceGrace
  else if raw = 4 then .nonGenuineGrace
  else if raw = 5 then .notification
  else if raw = 6 then .extendedGrace
  else .unrecognised raw

def workstationNameUnits : ℕ := 64
def workstationNameBytes : ℕ := workstationNameUnits * 3

def isSurrogate (unit : UInt16) : Bool := unit &&& 0xF800 = 0xD800

/-- `char::decode_utf16`: an unpaired surrogate is an error item, and the unit
after an unpaired leading one is read again. -/
def decodeUtf16 : List UInt16 → List (Option Char)
  | [] => []
  | [unit] => [if isSurrogate unit then none else some (Char.ofNat unit.toNat)]
  | unit :: trailing :: rest =>
    if !isSurrogate unit then some (Char.ofNat unit.toNat) :: decodeUtf16 (trailing :: rest)
    else if 0xDC00 ≤ unit ∨ trailing < 0xDC00 ∨ 0xDFFF < trailing then
      none :: decodeUtf16 (trailing :: rest)
    else
      some (Char.ofNat (((unit &&& 0x3FF).toNat <<< 10 ||| (trailing &&& 0x3FF).toNat) + 0x10000)) ::
        decodeUtf16 rest

/-- Decoded text that fits the name buffer. -/
structure WorkstationName where
  text : List Char
  le_bytes : (text.map Char.utf8Size).sum ≤ workstationNameBytes
deriving DecidableEq

namespace WorkstationName

def empty : WorkstationName := ⟨[], Nat.zero_le _⟩

def tryPush (name : WorkstationName) (character : Char) : Option WorkstationName :=
  if h : (name.text.map Char.utf8Size).sum + character.utf8Size ≤ workstationNameBytes then
    some ⟨name.text ++ [character], by simpa using h⟩
  else none

/-- Push until one does not fit. -/
def extend : WorkstationName → List Char → WorkstationName
  | name, [] => name
  | name, character :: characters =>
    match name.tryPush character with
    | none => name
    | some longer => extend longer characters

/-- Stops at the first NUL and replaces what does not decode. -/
def decode (units : Vector UInt16 64) : WorkstationName :=
  let terminated := units.toList.takeWhile (· ≠ 0)
  empty.extend ((decodeUtf16 terminated).map fun character => character.getD (Char.ofNat 0xFFFD))

end WorkstationName

/-! ### Result codes -/

inductive HResult where
  | ok
  | notSupportedByKmsServer
  | invalidData
  | timestampDiffers
  | invalidActivationData
  | accessDenied
  | authorizationFailed
  | invalidProductKey
  | rpcProtocolError
  | other (raw : UInt32)
deriving DecidableEq, Repr

namespace HResult

def toWire : HResult → UInt32
  | .ok => 0x00000000
  | .notSupportedByKmsServer => 0xC004F042
  | .invalidData => 0x8007000D
  | .timestampDiffers => 0xC004F06C
  | .invalidActivationData => 0xC004D104
  | .accessDenied => 0x80070005
  | .authorizationFailed => 0xC004B005
  | .invalidProductKey => 0xC004F050
  | .rpcProtocolError => 0x00000001
  | .other raw => raw

def isOk : HResult → Bool
  | .ok => true
  | _ => false

/-- Every code but success is non-zero, save for an unnamed code that is zero. -/
theorem toWire_eq_zero {result : HResult} : result.toWire = 0 ↔ result = .ok ∨ result = .other 0 := by
  cases result <;> simp [toWire]

end HResult

/-- Minutes to retry and to renew. -/
structure Intervals where
  activation : UInt32
  renewal : UInt32
deriving DecidableEq, Repr

def Intervals.default : Intervals := ⟨120, 10080⟩

/-! ### Entropy -/

/-- A source of bytes with a state of its own: a draw may fail, and moves the
state whether or not it does. -/
structure EntropySource (ε : Type) where
  fill : ε → (n : ℕ) → Option (Vector UInt8 n) × ε

end Kmsrs.Kms
