import Kmsrs.Lib.BlockMode
import Kmsrs.Lib.Layout
import Kmsrs.Crypto.Rijndael

/-! Cipher block chaining with the protocol's inclusive padding. Lengths are
checked before any block reaches the cipher; a buffer keeps its bytes past the
region that is written. -/

namespace Kmsrs.Crypto

def blockLen : ℕ := 16

inductive CipherError where
  | empty
  | notBlockAligned (len : ℕ)
  | bufferTooSmall (needed available : ℕ)
  | invalidPadding
deriving DecidableEq

/-- The null vector is a protocol device, not an absent one. -/
inductive Iv where
  | null
  | block (bytes : Block)
deriving DecidableEq

def Iv.bytes : Iv → Block
  | .null => Vector.replicate 16 0
  | .block bytes => bytes

/-- XOR `source` into `target`, byte for byte. -/
def xorInto (target source : Block) : Block := Vector.zipWith (· ^^^ ·) target source

theorem xorInto_xorInto (target source : Block) : xorInto (xorInto target source) source = target :=
  addRoundKey_addRoundKey target source

theorem xorInto_null (target : Block) : xorInto target (Vector.replicate 16 0) = target := by
  apply Vector.ext
  intro i hi
  simp [xorInto]

/-- Sixteen bytes of a buffer as a block. -/
abbrev block : Layout Block := Layout.bytes 16

/-- Every schedule is a block permutation, so every schedule chains. -/
def KeySchedule.scheme (schedule : KeySchedule) : BlockMode.Scheme Block where
  encrypt := schedule.encryptBlock
  decrypt := schedule.decryptBlock
  mask := xorInto
  decrypt_encrypt := schedule.decryptBlock_encryptBlock
  encrypt_decrypt := schedule.encryptBlock_decryptBlock
  mask_mask := xorInto_xorInto

namespace Cbc

open BlockMode

/-- `pad = (!len & 15) + 1` on a 64-bit length: a whole extra block when the
length is already a multiple of sixteen. -/
def paddingLen (plaintextLen : ℕ) : ℕ := ((~~~(UInt64.ofNat plaintextLen)) &&& 15).toNat + 1

def paddedLen (plaintextLen : ℕ) : Option ℕ :=
  let sum := plaintextLen + paddingLen plaintextLen
  if sum < 2 ^ 64 then some sum else none

/-- Decrypt `ciphertext` over the front of `plaintext`. -/
def decrypt (schedule : KeySchedule) (iv : Iv) (ciphertext plaintext : List UInt8) :
    Except CipherError (List UInt8) :=
  if (block.remainder ciphertext).length ≠ 0 then .error (.notBlockAligned ciphertext.length)
  else if ciphertext.length = 0 then .error .empty
  else if plaintext.length < ciphertext.length then
    .error (.bufferTooSmall ciphertext.length plaintext.length)
  else
    .ok ((cbcDecrypt schedule.scheme iv.bytes (block.chunksExact ciphertext)).flatMap block.encode ++
      plaintext.drop ciphertext.length)

/-- Pad the first `plaintextLen` bytes of `buffer` and encrypt them where they
stand; the result is the ciphertext length with the new buffer. -/
def encryptInPlace (schedule : KeySchedule) (iv : Iv) (buffer : List UInt8) (plaintextLen : ℕ) :
    Except CipherError (ℕ × List UInt8) :=
  match paddedLen plaintextLen with
  | none => .error (.bufferTooSmall (2 ^ 64 - 1) buffer.length)
  | some needed =>
    if buffer.length < needed then .error (.bufferTooSmall needed buffer.length)
    else
      let padByte := UInt8.ofNat (paddingLen plaintextLen)
      let region := buffer.take plaintextLen ++ List.replicate (needed - plaintextLen) padByte
      .ok (needed, (cbcEncrypt schedule.scheme iv.bytes (block.chunksExact region)).flatMap block.encode ++
        buffer.drop needed)

/-- Remove inclusive padding, checking every padding byte. -/
def stripPadding (plaintext : List UInt8) : Except CipherError (List UInt8) :=
  match plaintext.getLast? with
  | none => .error .empty
  | some declared =>
    let pad := declared.toNat
    if pad = 0 ∨ blockLen < pad then .error .invalidPadding
    else if plaintext.length < pad then .error .invalidPadding
    else
      let bodyLen := plaintext.length - pad
      if (plaintext.drop bodyLen).any (· != declared) then .error .invalidPadding
      else .ok (plaintext.take bodyLen)

/-! ### Lengths -/

theorem paddingLen_eq (plaintextLen : ℕ) : paddingLen plaintextLen = 16 - plaintextLen % 16 := by
  have hand : ∀ n : ℕ, n &&& 15 = n % 16 := fun n => Nat.and_two_pow_sub_one_eq_mod n 4
  have h15 : (15 : UInt64).toNat = 15 := rfl
  simp only [paddingLen, UInt64.toNat_and, UInt64.toNat_not, UInt64.toNat_ofNat', h15, hand, UInt64.size]
  omega

theorem paddingLen_pos (plaintextLen : ℕ) : 0 < paddingLen plaintextLen := Nat.succ_pos _

theorem paddingLen_le (plaintextLen : ℕ) : paddingLen plaintextLen ≤ 16 := by
  rw [paddingLen_eq]
  omega

theorem paddedLen_eq {plaintextLen : ℕ} (h : plaintextLen + 16 < 2 ^ 64) :
    paddedLen plaintextLen = some (plaintextLen + paddingLen plaintextLen) := by
  have hpad := paddingLen_le plaintextLen
  exact if_pos (by omega)

/-! ### Whole blocks -/

/-- A plaintext with its inclusive padding. -/
def padded (plaintext : List UInt8) : List UInt8 :=
  plaintext ++ List.replicate (paddingLen plaintext.length) (UInt8.ofNat (paddingLen plaintext.length))

def encryptBytes (schedule : KeySchedule) (iv : Iv) (bytes : List UInt8) : List UInt8 :=
  (cbcEncrypt schedule.scheme iv.bytes (block.chunksExact bytes)).flatMap block.encode

def decryptBytes (schedule : KeySchedule) (iv : Iv) (bytes : List UInt8) : List UInt8 :=
  (cbcDecrypt schedule.scheme iv.bytes (block.chunksExact bytes)).flatMap block.encode

@[simp] theorem length_padded (plaintext : List UInt8) :
    (padded plaintext).length = plaintext.length + paddingLen plaintext.length := by
  simp [padded]

theorem length_padded_mod (plaintext : List UInt8) : (padded plaintext).length % 16 = 0 := by
  rw [length_padded, paddingLen_eq]
  omega

/-- The padding names its own length. -/
theorem getLast?_padded (plaintext : List UInt8) :
    ∃ last : UInt8, (padded plaintext).getLast? = some last ∧
      last = UInt8.ofNat (paddingLen plaintext.length) ∧ last.toNat = paddingLen plaintext.length := by
  have hpos := paddingLen_pos plaintext.length
  have hle := paddingLen_le plaintext.length
  refine ⟨_, ?_, rfl, Nat.mod_eq_of_lt (by omega)⟩
  rw [padded, List.getLast?_append, List.getLast?_replicate, if_neg (by omega)]
  rfl

theorem length_encryptBytes (schedule : KeySchedule) (iv : Iv) {bytes : List UInt8}
    (h : bytes.length % 16 = 0) : (encryptBytes schedule iv bytes).length = bytes.length := by
  simp only [encryptBytes, Layout.length_flatMap_encode, length_cbcEncrypt, Layout.length_chunksExact,
    Layout.size_bytes]
  omega

theorem length_decryptBytes (schedule : KeySchedule) (iv : Iv) {bytes : List UInt8}
    (h : bytes.length % 16 = 0) : (decryptBytes schedule iv bytes).length = bytes.length := by
  simp only [decryptBytes, Layout.length_flatMap_encode, length_cbcDecrypt, Layout.length_chunksExact,
    Layout.size_bytes]
  omega

theorem decryptBytes_encryptBytes (schedule : KeySchedule) (iv : Iv) {bytes : List UInt8}
    (h : bytes.length % 16 = 0) : decryptBytes schedule iv (encryptBytes schedule iv bytes) = bytes := by
  have hrem : block.remainder bytes = [] := by
    rw [← List.length_eq_zero_iff, Layout.length_remainder, Layout.size_bytes, h]
  rw [decryptBytes, encryptBytes, Layout.chunksExact_flatMap _ (by decide), cbcDecrypt_cbcEncrypt,
    Layout.flatMap_chunksExact _ hrem]

theorem encryptBytes_decryptBytes (schedule : KeySchedule) (iv : Iv) {bytes : List UInt8}
    (h : bytes.length % 16 = 0) : encryptBytes schedule iv (decryptBytes schedule iv bytes) = bytes := by
  have hrem : block.remainder bytes = [] := by
    rw [← List.length_eq_zero_iff, Layout.length_remainder, Layout.size_bytes, h]
  rw [encryptBytes, decryptBytes, Layout.chunksExact_flatMap _ (by decide), cbcEncrypt_cbcDecrypt,
    Layout.flatMap_chunksExact _ hrem]

/-- Encryption of a first block, and of the rest chained from it. -/
theorem encryptBytes_cons (schedule : KeySchedule) (iv : Iv) (first : Block) (bytes : List UInt8) :
    encryptBytes schedule iv (first.toList ++ bytes) =
      (schedule.encryptBlock (xorInto first iv.bytes)).toList ++
        encryptBytes schedule (.block (schedule.encryptBlock (xorInto first iv.bytes))) bytes := by
  rw [encryptBytes, ← Layout.encode_bytes 16 first, Layout.chunksExact_cons _ (by decide)]
  rfl

theorem decryptBytes_cons (schedule : KeySchedule) (iv : Iv) (first : Block) (bytes : List UInt8) :
    decryptBytes schedule iv (first.toList ++ bytes) =
      (xorInto (schedule.decryptBlock first) iv.bytes).toList ++
        decryptBytes schedule (.block first) bytes := by
  rw [decryptBytes, ← Layout.encode_bytes 16 first, Layout.chunksExact_cons _ (by decide)]
  rfl

/-! ### The operations on buffers -/

theorem decrypt_eq (schedule : KeySchedule) (iv : Iv) {ciphertext plaintext : List UInt8}
    (halign : ciphertext.length % 16 = 0) (hne : ciphertext.length ≠ 0)
    (hfit : ciphertext.length ≤ plaintext.length) :
    decrypt schedule iv ciphertext plaintext =
      .ok (decryptBytes schedule iv ciphertext ++ plaintext.drop ciphertext.length) := by
  rw [decrypt, if_neg (by simp [Layout.length_remainder, halign]), if_neg hne, if_neg (by omega)]
  rfl

theorem encryptInPlace_of_paddedLen (schedule : KeySchedule) (iv : Iv) (plaintext rest : List UInt8)
    (hroom : paddingLen plaintext.length ≤ rest.length)
    (hneeded : paddedLen plaintext.length = some (plaintext.length + paddingLen plaintext.length)) :
    encryptInPlace schedule iv (plaintext ++ rest) plaintext.length =
      .ok (plaintext.length + paddingLen plaintext.length,
        encryptBytes schedule iv (padded plaintext) ++ rest.drop (paddingLen plaintext.length)) := by
  have hfit : ¬ (plaintext ++ rest).length < plaintext.length + paddingLen plaintext.length := by
    rw [List.length_append]
    omega
  simp only [encryptInPlace, hneeded, if_neg hfit, List.take_left, List.drop_append,
    Nat.add_sub_cancel_left]
  rw [List.drop_eq_nil_of_le (by omega), List.nil_append]
  rfl

theorem encryptInPlace_eq (schedule : KeySchedule) (iv : Iv) (plaintext rest : List UInt8)
    (hroom : paddingLen plaintext.length ≤ rest.length) (hlen : plaintext.length + 16 < 2 ^ 64) :
    encryptInPlace schedule iv (plaintext ++ rest) plaintext.length =
      .ok (plaintext.length + paddingLen plaintext.length,
        encryptBytes schedule iv (padded plaintext) ++ rest.drop (paddingLen plaintext.length)) :=
  encryptInPlace_of_paddedLen schedule iv plaintext rest hroom (paddedLen_eq hlen)

theorem stripPadding_padded (plaintext : List UInt8) : stripPadding (padded plaintext) = .ok plaintext := by
  have hpos := paddingLen_pos plaintext.length
  have hle := paddingLen_le plaintext.length
  obtain ⟨last, hlast, hval, hnat⟩ := getLast?_padded plaintext
  have hbody : (padded plaintext).length - paddingLen plaintext.length = plaintext.length := by
    rw [length_padded]
    omega
  have hshort : ¬ (padded plaintext).length < paddingLen plaintext.length := by
    rw [length_padded]
    omega
  simp only [stripPadding, hlast, hnat, hbody, blockLen, if_neg hshort]
  rw [if_neg (by omega), padded, List.take_left, List.drop_left, ← hval]
  simp

/-- What is stripped is one to sixteen bytes, each naming their number. -/
theorem stripPadding_eq_ok {plaintext body : List UInt8} (h : stripPadding plaintext = .ok body) :
    ∃ pad : UInt8, 0 < pad.toNat ∧ pad.toNat ≤ 16 ∧ plaintext = body ++ List.replicate pad.toNat pad := by
  unfold stripPadding at h
  split at h
  · cases h
  next declared hlast =>
    dsimp only at h
    split_ifs at h with hrange hshort hbytes
    cases h
    have hall : plaintext.drop (plaintext.length - declared.toNat) =
        List.replicate declared.toNat declared := by
      rw [List.eq_replicate_iff]
      refine ⟨by rw [List.length_drop]; omega, fun byte hbyte => ?_⟩
      have hnone : ∀ byte ∈ plaintext.drop (plaintext.length - declared.toNat), byte = declared := by
        simpa using hbytes
      exact hnone byte hbyte
    refine ⟨declared, by omega, by simp only [blockLen] at hrange; omega, ?_⟩
    rw [← hall, List.take_append_drop]

/-- Nothing but invalid padding is wrong with a nonempty plaintext. -/
theorem stripPadding_eq_error {plaintext : List UInt8} {error : CipherError} (hne : plaintext ≠ [])
    (h : stripPadding plaintext = .error error) : error = .invalidPadding := by
  unfold stripPadding at h
  split at h
  next hnone => exact absurd (List.getLast?_eq_none_iff.mp hnone) hne
  next declared hlast =>
    dsimp only at h
    split_ifs at h <;>
    · cases h
      rfl

end Cbc

end Kmsrs.Crypto
