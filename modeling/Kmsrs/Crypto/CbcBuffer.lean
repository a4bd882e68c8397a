import Kmsrs.Crypto.Cbc

/-! The mode as it runs: block by block over a buffer, which keeps its bytes when an input
is refused. What the loops leave in the buffer is what the mode computes. -/

namespace Kmsrs.Crypto.Cbc

open Bytes BlockMode

/-! ### The loops -/

/-- Decrypt the blocks that are left, each over the next chunk of `plaintext`. -/
def decryptLoop (schedule : KeySchedule) : Block → List Block → ℕ → List UInt8 → List UInt8
  | _, [], _, plaintext => plaintext
  | chain, cipherBlock :: blocks, offset, plaintext =>
    match put plaintext offset (xorInto (schedule.decryptBlock cipherBlock) chain).toList with
    | none => plaintext
    | some plaintext => decryptLoop schedule cipherBlock blocks (offset + blockLen) plaintext

/-- `decrypt` with the buffer it leaves. -/
def decryptInto (schedule : KeySchedule) (iv : Iv) (ciphertext plaintext : List UInt8) :
    Except CipherError Unit × List UInt8 :=
  if (block.remainder ciphertext).length ≠ 0 then (.error (.notBlockAligned ciphertext.length), plaintext)
  else if ciphertext.length = 0 then (.error .empty, plaintext)
  else if plaintext.length < ciphertext.length then
    (.error (.bufferTooSmall ciphertext.length plaintext.length), plaintext)
  else (.ok (), decryptLoop schedule iv.bytes (block.chunksExact ciphertext) 0 plaintext)

/-- Encrypt the chunks that are left where they stand. -/
def encryptLoop (schedule : KeySchedule) : Block → ℕ → ℕ → List UInt8 → List UInt8
  | _, 0, _, region => region
  | chain, remaining + 1, offset, region =>
    match block.readAt region offset with
    | none => region
    | some chunk =>
      let cipherBlock := schedule.encryptBlock (xorInto chunk chain)
      match put region offset cipherBlock.toList with
      | none => region
      | some region => encryptLoop schedule cipherBlock remaining (offset + blockLen) region

/-- `encrypt_in_place` with the buffer it leaves. -/
def encryptInto (schedule : KeySchedule) (iv : Iv) (buffer : List UInt8) (plaintextLen : ℕ) :
    Except CipherError ℕ × List UInt8 :=
  match paddedLen plaintextLen with
  | none => (.error (.bufferTooSmall usizeMax buffer.length), buffer)
  | some needed =>
    match range buffer 0 needed with
    | none => (.error (.bufferTooSmall needed buffer.length), buffer)
    | some region =>
      if 256 ≤ paddingLen plaintextLen then (.error .invalidPadding, buffer)
      else
        let padByte := UInt8.ofNat (paddingLen plaintextLen)
        let region := region.take plaintextLen ++ List.replicate (region.length - plaintextLen) padByte
        (.ok needed, encryptLoop schedule iv.bytes (region.length / blockLen) 0 region ++ buffer.drop needed)

variable (schedule : KeySchedule)

theorem decryptLoop_eq (chain : Block) (blocks : List Block) (done rest : List UInt8)
    (h : blocks.length * 16 ≤ rest.length) : decryptLoop schedule chain blocks done.length (done ++ rest) =
      done ++ (cbcDecrypt schedule.scheme chain blocks).flatMap block.encode ++ rest.drop (blocks.length * 16) := by
  induction blocks generalizing chain done rest with
  | nil => simp [decryptLoop, cbcDecrypt]
  | cons cipherBlock blocks ih =>
    rw [List.length_cons] at h ⊢
    have hblock : (xorInto (schedule.decryptBlock cipherBlock) chain).toList.length = 16 := Vector.length_toList
    rw [decryptLoop, put_append done rest _ rfl (by omega)]
    have hnext := ih cipherBlock (done ++ (xorInto (schedule.decryptBlock cipherBlock) chain).toList) (rest.drop 16)
      (by rw [List.length_drop]; omega)
    rw [List.length_append, hblock, List.drop_drop] at hnext
    rw [hblock]
    show decryptLoop schedule cipherBlock blocks (done.length + 16) _ = _
    rw [hnext, cbcDecrypt, List.flatMap_cons, ← List.append_assoc, Nat.add_comm 16, ← Nat.succ_mul]
    rfl

theorem encryptLoop_eq (chain : Block) (blocks : List Block) (done : List UInt8) :
    encryptLoop schedule chain blocks.length done.length (done ++ blocks.flatMap block.encode) =
      done ++ (cbcEncrypt schedule.scheme chain blocks).flatMap block.encode := by
  induction blocks generalizing chain done with
  | nil => simp [encryptLoop, cbcEncrypt]
  | cons chunk blocks ih =>
    have hchunk : (block.encode chunk).length = 16 := Layout.length_encode _ _
    have hblock : (schedule.encryptBlock (xorInto chunk chain)).toList.length = 16 := Vector.length_toList
    have hread : block.readAt (done ++ (chunk :: blocks).flatMap block.encode) done.length = some chunk := by
      rw [List.flatMap_cons, ← List.append_assoc]
      exact Layout.readAt_append _ done chunk _ rfl
    rw [List.length_cons, encryptLoop, hread]
    dsimp only
    rw [List.flatMap_cons, ← List.append_assoc, put_middle done _ _ _ rfl (hblock.trans hchunk.symm)]
    have hnext := ih (schedule.encryptBlock (xorInto chunk chain))
      (done ++ (schedule.encryptBlock (xorInto chunk chain)).toList)
    rw [List.length_append, hblock] at hnext
    show encryptLoop schedule _ blocks.length (done.length + 16) _ = _
    rw [hnext, cbcEncrypt, List.flatMap_cons, ← List.append_assoc]
    rfl

/-! ### What they leave -/

/-- A result with the buffer: the new one, or the old one if there is none. -/
def leaves {α β : Type} (read : α → β × List UInt8) (buffer : List UInt8) :
    Except CipherError α → Except CipherError β × List UInt8
  | .ok a => (.ok (read a).1, (read a).2)
  | .error e => (.error e, buffer)

theorem decryptInto_eq (iv : Iv) (ciphertext plaintext : List UInt8) : decryptInto schedule iv ciphertext plaintext =
    leaves (fun plain => ((), plain)) plaintext (decrypt schedule iv ciphertext plaintext) := by
  unfold decryptInto decrypt
  split_ifs with halign hempty hfit
  · rfl
  · rfl
  · rfl
  · have hblocks : (block.chunksExact ciphertext).length * 16 = ciphertext.length := by
      rw [Layout.length_remainder, Layout.size_bytes, not_not] at halign
      rw [Layout.length_chunksExact, Layout.size_bytes]
      omega
    have hloop := decryptLoop_eq schedule iv.bytes (block.chunksExact ciphertext) [] plaintext (by omega)
    rw [hblocks, List.nil_append, List.nil_append] at hloop
    exact Prod.ext rfl hloop

/-- A whole number of blocks is encrypted where it stands. -/
theorem encryptLoop_whole (iv : Iv) {region : List UInt8} (h : region.length % 16 = 0) :
    encryptLoop schedule iv.bytes (region.length / blockLen) 0 region = encryptBytes schedule iv region := by
  have hrem : block.remainder region = [] := by
    rw [← List.length_eq_zero_iff, Layout.length_remainder, Layout.size_bytes, h]
  have hloop := encryptLoop_eq schedule iv.bytes (block.chunksExact region) []
  rwa [Layout.length_chunksExact, List.nil_append, List.nil_append, Layout.flatMap_chunksExact _ hrem] at hloop

theorem eq_of_paddedLen {plaintextLen needed : ℕ} (h : paddedLen plaintextLen = some needed) :
    needed = plaintextLen + paddingLen plaintextLen := by
  unfold paddedLen at h
  dsimp only at h
  split_ifs at h
  exact (Option.some.inj h).symm

theorem encryptInto_eq (iv : Iv) (buffer : List UInt8) (plaintextLen : ℕ) :
    encryptInto schedule iv buffer plaintextLen = leaves id buffer (encryptInPlace schedule iv buffer plaintextLen) := by
  unfold encryptInto encryptInPlace
  cases hneeded : paddedLen plaintextLen with
  | none => rfl
  | some needed =>
    dsimp only
    have hsum := eq_of_paddedLen hneeded
    have hle := paddingLen_le plaintextLen
    by_cases hfit : buffer.length < needed
    · rw [range_eq_none hfit, if_pos hfit]
      rfl
    · rw [range_eq_some (Nat.zero_le _) (not_lt.mp hfit), if_neg hfit]
      dsimp only
      have hlength : (buffer.take needed).length = needed := List.length_take_of_le (not_lt.mp hfit)
      have htake : (buffer.take needed).take plaintextLen = buffer.take plaintextLen := by
        rw [List.take_take, Nat.min_eq_left (by omega)]
      have hwhole : (buffer.take plaintextLen ++
          List.replicate (needed - plaintextLen) (UInt8.ofNat (paddingLen plaintextLen))).length % 16 = 0 := by
        have hpad := paddingLen_eq plaintextLen
        rw [List.length_append, List.length_replicate, List.length_take]
        omega
      rw [if_neg (by omega), List.drop_zero, Nat.sub_zero, hlength, htake, encryptLoop_whole schedule iv hwhole]
      rfl

/-! ### What the mode promises -/

/-- Padding is one to sixteen bytes, each of which says how many they are. -/
theorem stripPadding_eq_ok_iff {plaintext body : List UInt8} : stripPadding plaintext = .ok body ↔
    ∃ k, 1 ≤ k ∧ k ≤ 16 ∧ plaintext = body ++ List.replicate k (UInt8.ofNat k) := by
  constructor
  · intro h
    obtain ⟨pad, hpos, hle, heq⟩ := stripPadding_eq_ok h
    exact ⟨pad.toNat, hpos, hle, by rw [UInt8.ofNat_toNat, heq]⟩
  · rintro ⟨k, hpos, hle, rfl⟩
    have hk : (UInt8.ofNat k).toNat = k := Nat.mod_eq_of_lt (by omega)
    have hlast : (body ++ List.replicate k (UInt8.ofNat k)).getLast? = some (UInt8.ofNat k) := by
      rw [List.getLast?_append, List.getLast?_replicate, if_neg (by omega)]
      rfl
    have hbody : (body ++ List.replicate k (UInt8.ofNat k)).length - k = body.length := by
      rw [List.length_append, List.length_replicate, Nat.add_sub_cancel]
    have hlong : ¬ (body ++ List.replicate k (UInt8.ofNat k)).length < k := by
      rw [List.length_append, List.length_replicate]
      omega
    simp only [stripPadding, hlast, hk, hbody, blockLen, if_neg hlong]
    rw [if_neg (by omega), List.take_left, List.drop_left]
    simp

theorem decryptInto_whole (iv : Iv) {ciphertext plaintext : List UInt8} (halign : ciphertext.length % 16 = 0)
    (hne : ciphertext.length ≠ 0) (hfit : ciphertext.length ≤ plaintext.length) :
    decryptInto schedule iv ciphertext plaintext =
      (.ok (), decryptBytes schedule iv ciphertext ++ plaintext.drop ciphertext.length) := by
  rw [decryptInto_eq, decrypt_eq schedule iv halign hne hfit]
  rfl

/-- The mode over a schedule. -/
structure Chains (schedule : KeySchedule) : Prop where
  /-- What a plaintext in a buffer with room for its padding becomes, and that it comes back. -/
  roundTrip : ∀ (iv : Iv) (plaintext rest : List UInt8), (plaintext ++ rest).length < 2 ^ 64 →
    paddingLen plaintext.length ≤ rest.length → ∃ needed ciphertext, paddedLen plaintext.length = some needed ∧
      needed % 16 = 0 ∧ plaintext.length < needed ∧ needed ≤ plaintext.length + 16 ∧ ciphertext.length = needed ∧
      encryptInto schedule iv (plaintext ++ rest) plaintext.length =
        (.ok needed, ciphertext ++ (plaintext ++ rest).drop needed) ∧
      ∀ buffer : List UInt8, needed ≤ buffer.length → ∃ plain, plain.length = needed ∧
        decryptInto schedule iv ciphertext buffer = (.ok (), plain ++ buffer.drop needed) ∧
        stripPadding plain = .ok plaintext
  strips : ∀ plaintext body, stripPadding plaintext = .ok body ↔
    ∃ k, 1 ≤ k ∧ k ≤ 16 ∧ plaintext = body ++ List.replicate k (UInt8.ofNat k)
  /-- Decrypting from the vector on gives the vector decrypted, and then the message. -/
  nullIv : ∀ (iv : Block) (ciphertext : List UInt8), ciphertext.length ≠ 0 → ciphertext.length % 16 = 0 →
    ∃ plain, plain.length = ciphertext.length ∧
      (∀ buffer : List UInt8, ciphertext.length ≤ buffer.length →
        decryptInto schedule (.block iv) ciphertext buffer = (.ok (), plain ++ buffer.drop ciphertext.length)) ∧
      ∀ buffer : List UInt8, 16 + ciphertext.length ≤ buffer.length →
        decryptInto schedule .null (iv.toList ++ ciphertext) buffer =
          (.ok (), (schedule.decryptBlock iv).toList ++ plain ++ buffer.drop (16 + ciphertext.length))
  refusedDecrypt : ∀ iv ciphertext buffer error, (decryptInto schedule iv ciphertext buffer).1 = .error error →
    (decryptInto schedule iv ciphertext buffer).2 = buffer
  refusedEncrypt : ∀ iv buffer plaintextLen error, (encryptInto schedule iv buffer plaintextLen).1 = .error error →
    (encryptInto schedule iv buffer plaintextLen).2 = buffer

/-- A result that is an error leaves the old buffer. -/
theorem buffer_of_leaves {α β : Type} {read : α → β × List UInt8} {buffer : List UInt8} {result : Except CipherError α}
    {error : CipherError} (h : (leaves read buffer result).1 = .error error) : (leaves read buffer result).2 = buffer := by
  cases result with
  | ok a => cases h
  | error e => rfl

theorem chains : Chains schedule where
  roundTrip iv plaintext rest hlen hroom := by
    have hpos := paddingLen_pos plaintext.length
    have hle := paddingLen_le plaintext.length
    have halign := length_padded_mod plaintext
    have hneeded : paddedLen plaintext.length = some (plaintext.length + paddingLen plaintext.length) := by
      rw [List.length_append] at hlen
      exact if_pos (by omega)
    have hcipher := length_encryptBytes schedule iv halign
    rw [length_padded] at halign hcipher
    refine ⟨_, encryptBytes schedule iv (padded plaintext), hneeded, halign, by omega, by omega, hcipher, ?_, ?_⟩
    · have hrest : (plaintext ++ rest).drop (plaintext.length + paddingLen plaintext.length) =
          rest.drop (paddingLen plaintext.length) := by
        rw [List.drop_append, List.drop_eq_nil_of_le (by omega), List.nil_append, Nat.add_sub_cancel_left]
      rw [encryptInto_eq, encryptInPlace_of_paddedLen schedule iv plaintext rest hroom hneeded, hrest]
      rfl
    · intro buffer hbuffer
      refine ⟨padded plaintext, length_padded plaintext, ?_, stripPadding_padded plaintext⟩
      rw [decryptInto_whole schedule iv (by omega) (by omega) (by omega), hcipher,
        decryptBytes_encryptBytes schedule iv (length_padded_mod plaintext)]
  strips _ _ := stripPadding_eq_ok_iff
  nullIv iv ciphertext hne halign := by
    have hlength := length_decryptBytes schedule (.block iv) halign
    have hiv : iv.toList.length = 16 := Vector.length_toList
    refine ⟨decryptBytes schedule (.block iv) ciphertext, hlength, fun buffer hbuffer => ?_, fun buffer hbuffer => ?_⟩
    · exact decryptInto_whole schedule (.block iv) halign hne hbuffer
    · have hall : (iv.toList ++ ciphertext).length = 16 + ciphertext.length := by rw [List.length_append, hiv]
      rw [decryptInto_whole schedule .null (by omega) (by omega) (by omega), hall, decryptBytes_cons, Iv.bytes,
        xorInto_null]
  refusedDecrypt iv ciphertext buffer error h := by
    rw [decryptInto_eq] at h ⊢
    exact buffer_of_leaves h
  refusedEncrypt iv buffer plaintextLen error h := by
    rw [encryptInto_eq] at h ⊢
    exact buffer_of_leaves h

/-- A plaintext of one whole block is padded by another. -/
theorem chains_whole_block : ∃ ciphertext : List UInt8, ciphertext.length = 32 ∧
    encryptInto (.aes128 (Vector.replicate 16 0)) .null (List.replicate 16 7 ++ List.replicate 17 0) 16 =
      (.ok 32, ciphertext ++ [0]) := by
  obtain ⟨needed, ciphertext, hneeded, -, -, -, hlength, hencrypt, -⟩ :=
    (chains (.aes128 (Vector.replicate 16 0))).roundTrip .null (List.replicate 16 7) (List.replicate 17 0) (by decide)
      (by decide)
  have hpadded : paddedLen (List.replicate 16 (7 : UInt8)).length = some 32 := by decide
  rw [hpadded] at hneeded
  cases hneeded
  exact ⟨ciphertext, hlength, hencrypt⟩

end Kmsrs.Crypto.Cbc
