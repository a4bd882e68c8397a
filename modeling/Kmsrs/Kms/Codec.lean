import Kmsrs.Kms.Framing

/-! The request language. A stub is accepted when it has its version's word and
length and, encrypted, when its decryption ends in the four bytes of padding that
the fixed body calls for; what is accepted is what a client's encoder writes, so
encoding the body that was read gives the stub back. -/

namespace Kmsrs.Kms

open Kmsrs.Layout Kmsrs.Crypto Kmsrs.Bytes

variable {version : Version} {ciphers : Ciphers} {schedule : KeySchedule} {stub : List UInt8}

/-- The vector that follows the version word. -/
def stubIv (stub : List UInt8) : Block := block.decode ((stub.drop 4).take 16)

/-- What decryption from the vector on gives: the secret, the body and its
padding. -/
def stubPlaintext (schedule : KeySchedule) (stub : List UInt8) : List UInt8 :=
  Cbc.decryptBytes schedule .null (stub.drop 4)

/-- The body inside the plaintext. -/
def stubBody (schedule : KeySchedule) (stub : List UInt8) : RequestBody :=
  RequestBody.layout.decode (((stubPlaintext schedule stub).drop 16).take 236)

theorem framedRequestLen_encrypted (h : ciphers.schedule version = some schedule) : framedRequestLen version = 260 := by
  cases version with
  | v4 => cases h
  | v5 => rfl
  | v6 => rfl

theorem length_stubPlaintext (schedule : KeySchedule) (hlen : stub.length = 260) :
    (stubPlaintext schedule stub).length = 256 := by
  have hrest : (stub.drop 4).length = 256 := by
    rw [List.length_drop, hlen]
  rw [stubPlaintext, Cbc.length_decryptBytes _ _ (by rw [hrest]), hrest]

/-- The first block is the secret, the others are chained from the vector. -/
theorem stubPlaintext_eq (schedule : KeySchedule) (hlen : stub.length = 260) :
    stubPlaintext schedule stub =
      (schedule.decryptBlock (stubIv stub)).toList ++
        Cbc.decryptBytes schedule (.block (stubIv stub)) (stub.drop 20) := by
  have hiv : (stubIv stub).toList = (stub.drop 4).take 16 :=
    toList_decode_bytes (by rw [List.length_take, List.length_drop, hlen]; rfl)
  have hsplit : stub.drop 4 = (stubIv stub).toList ++ stub.drop 20 := by
    calc stub.drop 4
      _ = (stub.drop 4).take 16 ++ (stub.drop 4).drop 16 := (List.take_append_drop 16 _).symm
      _ = (stubIv stub).toList ++ stub.drop 20 := by rw [hiv, List.drop_drop]
  rw [stubPlaintext, hsplit, Cbc.decryptBytes_cons]
  simp only [Iv.bytes, xorInto_null]

/-- The four bytes that pad a body to whole blocks. -/
def padding : List UInt8 := [4, 4, 4, 4]

theorem padded_body {body : List UInt8} (h : body.length = 236) : Cbc.padded body = body ++ padding := by
  have hpad : Cbc.paddingLen 236 = 4 := by decide
  rw [Cbc.padded, h, hpad]
  rfl

/-- An encrypted stub that fits and is padded rightly is what the encoder writes
for its own body and vector. -/
theorem encryptedRequestBytes_of_fits (hschedule : ciphers.schedule version = some schedule)
    (hfits : Fits version stub) (hpadding : (stubPlaintext schedule stub).drop 252 = padding) :
    encryptedRequestBytes version.toProtocolVersion (stubBody schedule stub) schedule (stubIv stub) = stub := by
  obtain ⟨hlen, hword⟩ := hfits
  rw [framedRequestLen_encrypted hschedule] at hlen
  have hplain := length_stubPlaintext schedule hlen
  have hbodyLen : (((stubPlaintext schedule stub).drop 16).take 236).length = 236 := by
    rw [List.length_take, List.length_drop, hplain]
    rfl
  have hbody : RequestBody.layout.encode (stubBody schedule stub) =
      ((stubPlaintext schedule stub).drop 16).take 236 := RequestBody.layout.encode_decode _ hbodyLen
  have hrest : Cbc.padded (((stubPlaintext schedule stub).drop 16).take 236) =
      Cbc.decryptBytes schedule (.block (stubIv stub)) (stub.drop 20) := by
    calc Cbc.padded (((stubPlaintext schedule stub).drop 16).take 236)
      _ = ((stubPlaintext schedule stub).drop 16).take 236 ++ ((stubPlaintext schedule stub).drop 16).drop 236 := by
        rw [padded_body hbodyLen, List.drop_drop, hpadding]
      _ = (stubPlaintext schedule stub).drop 16 := List.take_append_drop _ _
      _ = Cbc.decryptBytes schedule (.block (stubIv stub)) (stub.drop 20) := by
        rw [stubPlaintext_eq schedule hlen, List.drop_left' (by simp)]
  have hiv : (stubIv stub).toList = (stub.drop 4).take 16 :=
    toList_decode_bytes (by rw [List.length_take, List.length_drop, hlen]; rfl)
  have halign : (stub.drop 20).length % 16 = 0 := by
    rw [List.length_drop, hlen]
  rw [encryptedRequestBytes, hbody, hrest, Cbc.encryptBytes_decryptBytes _ _ halign, hiv, ← hword]
  calc stub.take 4 ++ ((stub.drop 4).take 16 ++ stub.drop 20)
    _ = stub.take 4 ++ ((stub.drop 4).take 16 ++ (stub.drop 4).drop 16) := by rw [List.drop_drop]
    _ = stub := by rw [List.take_append_drop, List.take_append_drop]

/-- An encrypted stub that fits is decided by its padding and the length of what
is left of it. -/
theorem decode_of_fits (hschedule : ciphers.schedule version = some schedule) (hfits : Fits version stub) :
    decode stub ciphers =
      match Cbc.stripPadding ((stubPlaintext schedule stub).drop ivLen) with
      | .error error => .error (.cipher error)
      | .ok bodyBytes =>
        match RequestBody.layout.readFromBytes bodyBytes with
        | none => .error (.bodyLength bodyBytes.length)
        | some body =>
          .ok
            { version
              declared := version.toProtocolVersion
              request := .fromBody body
              sharedSecret := some (block.decode ((stubPlaintext schedule stub).take ivLen))
              macVerified := none } := by
  have hlen : stub.length = 260 := hfits.1.trans (framedRequestLen_encrypted hschedule)
  have hciphertext : range stub unencryptedPrefixLen stub.length = some (stub.drop 4) := by
    rw [range_eq_some (by rw [hlen]; decide) le_rfl]
    exact congrArg some (List.take_of_length_le (by rw [List.length_drop]))
  have hrest : (stub.drop 4).length = 256 := by
    rw [List.length_drop, hlen]
  have hbuffer : (List.replicate v6DecryptLen (0 : UInt8)).length = (stub.drop 4).length := by
    rw [List.length_replicate, hrest]
    rfl
  have hdecrypt := Cbc.decrypt_eq schedule .null (by rw [hrest]) (by omega) hbuffer.ge
  rw [List.drop_eq_nil_of_le hbuffer.le, List.append_nil, ← stubPlaintext] at hdecrypt
  cases hstrip : Cbc.stripPadding ((stubPlaintext schedule stub).drop ivLen) with
  | error error => simp only [decode, dispatch_of_fits hfits, hschedule, hciphertext, hdecrypt, hstrip]
  | ok bodyBytes =>
    cases hread : RequestBody.layout.readFromBytes bodyBytes with
    | none => simp only [decode, dispatch_of_fits hfits, hschedule, hciphertext, hdecrypt, hstrip, hread]
    | some body => simp only [decode, dispatch_of_fits hfits, hschedule, hciphertext, hdecrypt, hstrip, hread]

/-- An encrypted stub that fits but is padded otherwise fails in the cipher, or
leaves a body of another length. -/
theorem decode_of_misfit (hschedule : ciphers.schedule version = some schedule) (hfits : Fits version stub)
    (hpadding : (stubPlaintext schedule stub).drop 252 ≠ padding) :
    decode stub ciphers = .error (.cipher .invalidPadding) ∨
      ∃ actual, actual ≠ requestBodyLen ∧ decode stub ciphers = .error (.bodyLength actual) := by
  have hlen : stub.length = 260 := hfits.1.trans (framedRequestLen_encrypted hschedule)
  have hplain : ((stubPlaintext schedule stub).drop ivLen).length = 240 := by
    rw [List.length_drop, length_stubPlaintext schedule hlen]
    rfl
  rw [decode_of_fits hschedule hfits]
  cases hstrip : Cbc.stripPadding ((stubPlaintext schedule stub).drop ivLen) with
  | error error =>
    have hne : (stubPlaintext schedule stub).drop ivLen ≠ [] := by
      rw [← List.length_pos_iff, hplain]
      decide
    left
    simp only [Cbc.stripPadding_eq_error hne hstrip]
  | ok bodyBytes =>
    obtain ⟨pad, hpos, hle, hbytes⟩ := Cbc.stripPadding_eq_ok hstrip
    have hbodyLen : bodyBytes.length ≠ requestBodyLen := by
      -- a body of the right length would leave four bytes of padding
      intro heq
      have hfour : pad.toNat = 4 := by
        rw [hbytes, List.length_append, List.length_replicate, heq] at hplain
        have : requestBodyLen = 236 := rfl
        omega
      have hpad : pad = 4 := UInt8.toNat_inj.mp hfour
      apply hpadding
      calc (stubPlaintext schedule stub).drop 252
        _ = ((stubPlaintext schedule stub).drop ivLen).drop 236 := by rw [List.drop_drop]; rfl
        _ = padding := by
          rw [hbytes, hfour, hpad]
          exact List.drop_left' heq
    right
    have hread : RequestBody.layout.readFromBytes bodyBytes = none := if_neg hbodyLen
    exact ⟨bodyBytes.length, hbodyLen, by simp only [hread]⟩

/-! ### Version 4 -/

/-- The body and the tag of a version 4 stub. -/
def stubBodyV4 (stub : List UInt8) : RequestBody := RequestBody.layout.decode (stub.take 236)

theorem encode_stubBodyV4 (hlen : stub.length = 252) : RequestBody.layout.encode (stubBodyV4 stub) = stub.take 236 :=
  RequestBody.layout.encode_decode _ (by rw [List.length_take, hlen]; rfl)

theorem decode_of_fits_v4 (hfits : Fits .v4 stub) :
    decode stub ciphers = .ok
      { version := .v4
        declared := Version.v4.toProtocolVersion
        request := .fromBody (stubBodyV4 stub)
        sharedSecret := none
        macVerified := some (block.decode (stub.drop 236) = ciphers.mac.tag (stub.take 236)) } := by
  have hlen : stub.length = 252 := hfits.1
  have hshort : ¬ stub.length < requestBodyLen := by
    rw [hlen]
    decide
  have hbody : stub.take requestBodyLen = stub.take 236 := rfl
  have hmac : (stub.drop requestBodyLen).length = 16 := by
    rw [List.length_drop, hlen]
    rfl
  have hread : RequestBody.layout.readFromBytes (stub.take 236) = some (stubBodyV4 stub) :=
    if_pos (by rw [List.length_take, hlen]; rfl)
  simp only [decode, dispatch_of_fits hfits, Ciphers.schedule, decodeV4, if_neg hshort, hbody, hread]
  rw [hmac, List.take_of_length_le (by rw [hmac]; rfl)]
  simp only [macLen, ge_iff_le, le_refl, true_and]
  rfl

/-- The tag is right exactly on what the encoder writes. -/
theorem v4RequestBytes_eq_iff (hlen : stub.length = 252) :
    v4RequestBytes (stubBodyV4 stub) ciphers = stub ↔
      block.decode (stub.drop 236) = ciphers.mac.tag (stub.take 236) := by
  have htag : (block.decode (stub.drop 236)).toList = stub.drop 236 :=
    toList_decode_bytes (by rw [List.length_drop, hlen])
  rw [v4RequestBytes, encode_stubBodyV4 hlen]
  constructor
  · intro h
    have hrest : (ciphers.mac.tag (stub.take 236)).toList = stub.drop 236 := by
      have hdrop := congrArg (List.drop 236) h
      rwa [List.drop_left' (by rw [List.length_take, hlen]; rfl)] at hdrop
    rw [← hrest, decode_bytes_toList]
  · intro h
    rw [← h, htag, List.take_append_drop]

/-! ### The accepted language -/

/-- What is accepted fits the version it is accepted as. -/
theorem fits_of_decode {decoded : DecodedRequest} (h : decode stub ciphers = .ok decoded) :
    Fits decoded.version stub :=
  fits_of_dispatch (dispatch_of_decode h)

/-- What is accepted as an encrypted version is padded rightly. -/
theorem padding_of_decode (hschedule : ciphers.schedule version = some schedule) {decoded : DecodedRequest}
    (h : decode stub ciphers = .ok decoded) (hversion : decoded.version = version) :
    (stubPlaintext schedule stub).drop 252 = padding := by
  by_contra hpadding
  have hfits : Fits version stub := hversion ▸ fits_of_decode h
  rcases decode_of_misfit hschedule hfits hpadding with herror | ⟨actual, -, herror⟩ <;>
  · rw [h] at herror
    cases herror

/-- A stub that fits no version is turned away by its word or its length. -/
theorem decode_of_no_fit (h : ∀ version, ¬ Fits version stub) :
    ∃ error, decode stub ciphers = .error (.request error) := by
  unfold decode
  cases hdispatch : dispatch stub with
  | error error => exact ⟨error, rfl⟩
  | ok found => exact absurd (fits_of_dispatch hdispatch) (h found.1)

/-- An encrypted version is accepted exactly at 260 bytes under its word, with the
decryption ending in four fours; its body and secret are those of the plaintext,
and encoding that body under the stub's vector gives the stub back. -/
theorem decode_encrypted_iff (hschedule : ciphers.schedule version = some schedule) :
    ((∃ decoded, decode stub ciphers = .ok decoded ∧ decoded.version = version) ↔
        stub.length = 260 ∧ stub.take 4 = u32.encode version.toProtocolVersion.toWire ∧
          (stubPlaintext schedule stub).drop 252 = [4, 4, 4, 4]) ∧
      ∀ decoded, decode stub ciphers = .ok decoded → decoded.version = version →
        decoded = decodedEncrypted version (stubBody schedule stub) (schedule.decryptBlock (stubIv stub)) ∧
        ∀ {ε : Type} (rng : EntropySource ε) (entropy entropy₁ : ε) (out : List UInt8),
          rng.fill entropy 16 = (some (stubIv stub), entropy₁) → 260 ≤ out.length →
          encodeRequest version (stubBody schedule stub) ciphers rng entropy out =
            (.ok (260, stub ++ out.drop 260), entropy₁) := by
  have hframed := framedRequestLen_encrypted hschedule
  have hreads (hfits : Fits version stub) (hpadding : (stubPlaintext schedule stub).drop 252 = padding) :
      decode stub ciphers =
        .ok (decodedEncrypted version (stubBody schedule stub) (schedule.decryptBlock (stubIv stub))) := by
    have hencode := encryptedRequestBytes_of_fits hschedule hfits hpadding
    have hdecode := decode_encryptedRequestBytes (stubBody schedule stub) (stubIv stub) hschedule
    rwa [hencode] at hdecode
  refine ⟨⟨?_, ?_⟩, ?_⟩
  · rintro ⟨decoded, hdecode, rfl⟩
    obtain ⟨hlen, hword⟩ := fits_of_decode hdecode
    exact ⟨hlen.trans hframed, hword, padding_of_decode hschedule hdecode rfl⟩
  · rintro ⟨hlen, hword, hpadding⟩
    exact ⟨_, hreads ⟨hlen.trans hframed.symm, hword⟩ hpadding, rfl⟩
  · rintro decoded hdecode rfl
    have hfits := fits_of_decode hdecode
    have hpadding := padding_of_decode hschedule hdecode rfl
    refine ⟨?_, ?_⟩
    · rw [hreads hfits hpadding] at hdecode
      exact (Except.ok.inj hdecode).symm
    · intro ε rng entropy entropy₁ out hiv hroom
      rw [encodeRequest_encrypted_eq (stubBody schedule stub) hschedule hiv (by rwa [hframed]), hframed,
        encryptedRequestBytes_of_fits hschedule hfits hpadding]

/-- Version 4 is accepted exactly at 252 bytes under its word, whatever its tag;
the tag verifies exactly on what the encoder writes for the body. -/
theorem decode_v4_iff :
    ((∃ decoded, decode stub ciphers = .ok decoded ∧ decoded.version = .v4) ↔
        stub.length = 252 ∧ stub.take 4 = u32.encode Version.v4.toProtocolVersion.toWire) ∧
      ∀ decoded, decode stub ciphers = .ok decoded → decoded.version = .v4 →
        decoded.request = .fromBody (stubBodyV4 stub) ∧ decoded.sharedSecret = none ∧
        (decoded.macVerified = some true ↔
          ∀ {ε : Type} (rng : EntropySource ε) (entropy : ε) (out : List UInt8), 252 ≤ out.length →
            encodeRequest .v4 (stubBodyV4 stub) ciphers rng entropy out =
              (.ok (252, stub ++ out.drop 252), entropy)) := by
  refine ⟨⟨?_, ?_⟩, ?_⟩
  · rintro ⟨decoded, hdecode, hversion⟩
    have hfits : Fits .v4 stub := hversion ▸ fits_of_decode hdecode
    exact hfits
  · intro hfits
    exact ⟨_, decode_of_fits_v4 hfits, rfl⟩
  · intro decoded hdecode hversion
    have hfits : Fits .v4 stub := hversion ▸ fits_of_decode hdecode
    have hlen : stub.length = 252 := hfits.1
    rw [decode_of_fits_v4 hfits] at hdecode
    obtain rfl := Except.ok.inj hdecode
    refine ⟨rfl, rfl, ?_⟩
    simp only [Option.some.injEq, decide_eq_true_eq]
    rw [← v4RequestBytes_eq_iff hlen]
    constructor
    · intro hstub ε rng entropy out hroom
      rw [encodeRequest_v4_eq (stubBodyV4 stub) ciphers rng entropy hroom, hstub]
      rfl
    · intro hencode
      -- any buffer will do, the stub itself among them
      have hsame := hencode (⟨fun _ _ => (none, ())⟩ : EntropySource Unit) () stub hlen.ge
      rw [encodeRequest_v4_eq (stubBodyV4 stub) ciphers _ () hlen.ge] at hsame
      have hbytes : v4RequestBytes (stubBodyV4 stub) ciphers ++ stub.drop 252 = stub ++ stub.drop 252 :=
        (Prod.mk.inj (Except.ok.inj (Prod.mk.inj hsame).1)).2
      exact List.append_cancel_right hbytes

/-- The request language: each encrypted version, version 4, and what is turned
away. A stub that fits an encrypted version but is padded otherwise fails in the
cipher or by the length of its body; any other by its word or its length. -/
theorem request_language (ciphers : Ciphers) (stub : List UInt8) :
    (∀ version schedule, ciphers.schedule version = some schedule →
      ((∃ decoded, decode stub ciphers = .ok decoded ∧ decoded.version = version) ↔
          stub.length = 260 ∧ stub.take 4 = u32.encode version.toProtocolVersion.toWire ∧
            (stubPlaintext schedule stub).drop 252 = [4, 4, 4, 4]) ∧
        ∀ decoded, decode stub ciphers = .ok decoded → decoded.version = version →
          decoded = decodedEncrypted version (stubBody schedule stub) (schedule.decryptBlock (stubIv stub)) ∧
          ∀ {ε : Type} (rng : EntropySource ε) (entropy entropy₁ : ε) (out : List UInt8),
            rng.fill entropy 16 = (some (stubIv stub), entropy₁) → 260 ≤ out.length →
            encodeRequest version (stubBody schedule stub) ciphers rng entropy out =
              (.ok (260, stub ++ out.drop 260), entropy₁)) ∧
      (((∃ decoded, decode stub ciphers = .ok decoded ∧ decoded.version = .v4) ↔
          stub.length = 252 ∧ stub.take 4 = u32.encode Version.v4.toProtocolVersion.toWire) ∧
        ∀ decoded, decode stub ciphers = .ok decoded → decoded.version = .v4 →
          decoded.request = .fromBody (stubBodyV4 stub) ∧ decoded.sharedSecret = none ∧
          (decoded.macVerified = some true ↔
            ∀ {ε : Type} (rng : EntropySource ε) (entropy : ε) (out : List UInt8), 252 ≤ out.length →
              encodeRequest .v4 (stubBodyV4 stub) ciphers rng entropy out =
                (.ok (252, stub ++ out.drop 252), entropy))) ∧
      ((∀ version, ¬ Fits version stub) → ∃ error, decode stub ciphers = .error (.request error)) ∧
      ∀ version schedule, ciphers.schedule version = some schedule → Fits version stub →
        (stubPlaintext schedule stub).drop 252 ≠ [4, 4, 4, 4] →
        decode stub ciphers = .error (.cipher .invalidPadding) ∨
          ∃ actual, actual ≠ requestBodyLen ∧ decode stub ciphers = .error (.bodyLength actual) :=
  ⟨fun _ _ hschedule => decode_encrypted_iff hschedule, decode_v4_iff, decode_of_no_fit,
    fun _ _ hschedule hfits hpadding => decode_of_misfit hschedule hfits hpadding⟩

/-- A version 5 stub of the right length whose plaintext is blank. -/
def blankStub : List UInt8 :=
  u32.encode Version.v5.toProtocolVersion.toWire ++ Cbc.encryptBytes Ciphers.new.v5 .null (List.replicate 256 0)

theorem length_encryptBytes_blank : (Cbc.encryptBytes Ciphers.new.v5 .null (List.replicate 256 0)).length = 256 := by
  rw [Cbc.length_encryptBytes _ _ (by rw [List.length_replicate]), List.length_replicate]

theorem fits_blankStub : Fits .v5 blankStub := by
  refine ⟨?_, List.take_left' (by simp)⟩
  rw [blankStub, List.length_append, length_encode, length_encryptBytes_blank]
  rfl

/-- Padding that names no length is neither a length nor a version error. -/
theorem blankStub_fails_in_cipher :
    blankStub.length = 260 ∧ blankStub.take 4 = u32.encode Version.v5.toProtocolVersion.toWire ∧
      decode blankStub .new = .error (.cipher .invalidPadding) := by
  have hplain : stubPlaintext Ciphers.new.v5 blankStub = List.replicate 256 0 := by
    rw [stubPlaintext, blankStub, List.drop_left' (by simp)]
    exact Cbc.decryptBytes_encryptBytes _ _ (by rw [List.length_replicate])
  have hstrip : Cbc.stripPadding ((List.replicate 256 (0 : UInt8)).drop ivLen) = .error .invalidPadding := by
    decide +kernel
  have hschedule : Ciphers.new.schedule .v5 = some Ciphers.new.v5 := rfl
  refine ⟨fits_blankStub.1, fits_blankStub.2, ?_⟩
  rw [decode_of_fits hschedule fits_blankStub, hplain, hstrip]

end Kmsrs.Kms
