import Kmsrs.Crypto.Cbc

/-! The published keys, the version 4 chained tag and the version 6 time-slot
tag. SHA-256 and HMAC-SHA256 are not part of the repository; they enter as
`Digests`, and nothing is assumed of them beyond their output length. -/

namespace Kmsrs.Crypto

namespace Keys

def v4 : Vector UInt8 20 :=
  #v[0x05, 0x3D, 0x83, 0x07, 0xF9, 0xE5, 0xF0, 0x88, 0xEB, 0x5E, 0xA6, 0x68, 0x6C, 0xF0, 0x37, 0xC7,
    0xE4, 0xEF, 0xD2, 0xD6]

def v5 : Vector UInt8 16 :=
  #v[0xCD, 0x7E, 0x79, 0x6F, 0x2A, 0xB2, 0x5D, 0xCB, 0x55, 0xFF, 0xC8, 0xEF, 0x83, 0x64, 0xC4, 0x70]

def v6 : Vector UInt8 16 :=
  #v[0xA9, 0x4A, 0x41, 0x95, 0xE2, 0x01, 0x43, 0x2D, 0x9B, 0xCB, 0x46, 0x04, 0x05, 0xD8, 0x4A, 0x21]

end Keys

/-! ### The version 4 tag -/

def paddingMarker : UInt8 := 0x80

structure CbcMacV4 where
  schedule : KeySchedule
deriving DecidableEq

namespace CbcMacV4

def new : CbcMacV4 := ⟨.rijndael160 Keys.v4⟩

/-- Fold one block into the running tag. -/
def absorb (mac : CbcMacV4) (state next : Block) : Block :=
  mac.schedule.encryptBlock (xorInto state next)

/-- The tail copied over zeros, then the marker; a whole block of its own when
the message is already aligned. -/
def finalBlock (tail : List UInt8) : Block :=
  (block.decode (tail ++ List.replicate (16 - tail.length) 0)).setIfInBounds tail.length paddingMarker

def tag (mac : CbcMacV4) (message : List UInt8) : Block :=
  mac.absorb ((block.chunksExact message).foldl mac.absorb (Vector.replicate 16 0))
    (finalBlock (block.remainder message))

end CbcMacV4

/-! ### Digests from outside the repository -/

/-- SHA-256, and HMAC-SHA256 keyed by one whole 64-byte block. -/
structure Digests where
  sha256 : List UInt8 → Vector UInt8 32
  hmac : Vector UInt8 64 → List UInt8 → Vector UInt8 32

/-- The 16-byte key is zero-padded to the block before construction. -/
def Digests.hmacSha256 (D : Digests) (key : Vector UInt8 16) (data : List UInt8) : Vector UInt8 32 :=
  D.hmac (key ++ (Vector.replicate 48 0 : Vector UInt8 48)) data

/-! ### The version 6 tag -/

namespace V6

def timeC1 : UInt64 := 0x00000022816889BD
def timeC2 : UInt64 := 0x000000208CBAB5ED
def timeC3 : UInt64 := 0x3156CD5AC628477A

inductive SlotOffset where
  | previous
  | current
  | next
deriving DecidableEq, Repr

namespace SlotOffset

/-- In the order a verifier tries them. -/
def all : List SlotOffset := [.previous, .current, .next]

def tickAdjustment : SlotOffset → UInt64
  | .previous => 0 - timeC1
  | .current => 0
  | .next => timeC1

end SlotOffset

/-- Wraps at 64 bits, as the reference does. -/
def timeSlot (clientTimeTicks : UInt64) (offset : SlotOffset) : UInt64 :=
  clientTimeTicks / timeC1 * timeC2 + timeC3 + offset.tickAdjustment

def lastHalf (digest : Vector UInt8 32) : Vector UInt8 16 :=
  Vector.ofFn fun i : Fin 16 => digest[i.val + 16]

def timeSlotKey (D : Digests) (clientTimeTicks : UInt64) (offset : SlotOffset) : Vector UInt8 16 :=
  lastHalf (D.sha256 (Layout.u64.encode (timeSlot clientTimeTicks offset)))

def tag (D : Digests) (clientTimeTicks : UInt64) (offset : SlotOffset) (message : List UInt8) :
    Vector UInt8 16 :=
  lastHalf (D.hmacSha256 (timeSlotKey D clientTimeTicks offset) message)

def verify (D : Digests) (clientTimeTicks : UInt64) (message : List UInt8) (candidate : Vector UInt8 16) :
    Option SlotOffset :=
  SlotOffset.all.find? fun offset => tag D clientTimeTicks offset message == candidate

end V6

end Kmsrs.Crypto
