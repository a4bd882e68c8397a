import Kmsrs.Kms.Framing

/-! Reading a response, as a client does. Decoding reports what a response
claims and fails only where reading cannot go on; judging the claims is left to
validation. The scratch buffer is what the plaintext is decrypted into, so only
its length matters. -/

namespace Kmsrs.Kms

open Kmsrs.Layout Kmsrs.Crypto Kmsrs.Bytes

inductive ResponseError where
  | tooShort (needed available : ℕ)
  | pidSizeOutOfRange (declared : UInt32)
  | notBlockAligned (len : ℕ)
  | badPadding
deriving DecidableEq

/-- Everything a response carries, as it said it. -/
structure DecodedResponse where
  outerVersion : Option ProtocolVersion
  innerVersion : ProtocolVersion
  /-- The first block on the wire. -/
  responseIv : Option Block
  /-- The block it encrypts. -/
  plaintextIvBlock : Option Block
  pidSize : UInt32
  pidBytes : List UInt8
  clientMachineId : Guid
  clientTime : UInt64
  count : UInt32
  activationInterval : UInt32
  renewalInterval : UInt32
  saltProof : Option SaltProof
  hardwareId : Option (Vector UInt8 8)
  decryptedRequestIv : Option Block
  hmac : Option Block
  hmacMessage : List UInt8
  mac : Option Block
  macMessage : List UInt8
  paddingLen : Option ℕ
  padding : List UInt8
  wireLen : ℕ

/-- How many trailing bytes the padding claims; only the count is checked. -/
def paddingLength (plaintext : List UInt8) : Option ℕ :=
  match plaintext.getLast? with
  | none => none
  | some last =>
    let len := last.toNat
    if len = 0 ∨ 16 < len ∨ plaintext.length < len then none else some len

/-- Head, ePID and tail of a plaintext body, with whatever follows the tail. -/
def readBody (body : List UInt8) (wireLen : ℕ) : Except ResponseError (DecodedResponse × List UInt8) :=
  match ResponseHead.layout.readFromPrefix body with
  | none => .error (.tooShort responseHeadLen body.length)
  | some (head, rest) =>
    let declared := head.pidSize
    match range rest 0 declared.toNat with
    | none => .error (.pidSizeOutOfRange declared)
    | some pidBytes =>
      match ResponseTail.layout.readFromPrefix (rest.drop declared.toNat) with
      | none => .error (.tooShort responseTailLen body.length)
      | some (tail, remainder) =>
        .ok
          ({ outerVersion := none
             innerVersion := .fromWire head.version
             responseIv := none
             plaintextIvBlock := none
             pidSize := declared
             pidBytes
             clientMachineId := tail.clientMachineId.toGuid
             clientTime := tail.clientTime
             count := tail.count
             activationInterval := tail.activationInterval
             renewalInterval := tail.renewalInterval
             saltProof := none
             hardwareId := none
             decryptedRequestIv := none
             hmac := none
             hmacMessage := []
             mac := none
             macMessage := []
             paddingLen := none
             padding := []
             wireLen }, remainder)

/-- The tag covers everything before it. -/
def decodeResponseV4 (stub : List UInt8) : Except ResponseError DecodedResponse :=
  match readBody stub stub.length with
  | .error error => .error error
  | .ok (decoded, trailing) =>
    match range trailing 0 macLen with
    | none => .error (.tooShort macLen trailing.length)
    | some mac =>
      .ok
        { decoded with
          mac := some (block.decode mac)
          macMessage := stub.take (stub.length - macLen) }

/-- The version 6 fields, after the salt proof. -/
def readV6Trailer (decoded : DecodedResponse) (plaintext trailing : List UInt8) (contentEnd : ℕ) :
    Except ResponseError DecodedResponse :=
  let afterProof := trailing.drop saltProofLen
  match V6Trailer.layout.readFromPrefix afterProof with
  | none => .error (.tooShort v6TrailerLen afterProof.length)
  | some (trailer, _) =>
    if contentEnd < 16 then .error .badPadding
    else
      .ok
        { decoded with
          hardwareId := some trailer.hardwareId
          decryptedRequestIv := some trailer.xoredIvs
          hmac := some trailer.hmac
          hmacMessage := plaintext.take (contentEnd - 16) }

def decodeResponseEncrypted (version : Version) (stub : List UInt8) (schedule : KeySchedule)
    (scratch : List UInt8) : Except ResponseError DecodedResponse :=
  match u32.readFromPrefix stub with
  | none => .error (.tooShort unencryptedPrefixLen stub.length)
  | some (outer, ciphertext) =>
    if ciphertext.length = 0 ∨ ciphertext.length % 16 ≠ 0 then .error (.notBlockAligned ciphertext.length)
    else
      match range scratch 0 ciphertext.length with
      | none => .error (.tooShort ciphertext.length 0)
      | some region =>
        match Cbc.decrypt schedule .null ciphertext region with
        | .error _ => .error (.notBlockAligned ciphertext.length)
        | .ok plaintext =>
          match paddingLength plaintext with
          | none => .error .badPadding
          | some paddingLen =>
            let contentEnd := plaintext.length - paddingLen
            match range ciphertext 0 ivLen, range plaintext 0 ivLen, range plaintext ivLen contentEnd with
            | some wireIv, some plaintextIvBlock, some body =>
              match readBody body stub.length with
              | .error error => .error error
              | .ok (decoded, trailing) =>
                match SaltProof.layout.readFromPrefix trailing with
                | none => .error (.tooShort saltProofLen trailing.length)
                | some (proof, _) =>
                  let decoded :=
                    { decoded with
                      outerVersion := some (.fromWire outer)
                      responseIv := some (block.decode wireIv)
                      plaintextIvBlock := some (block.decode plaintextIvBlock)
                      paddingLen := some paddingLen
                      padding := plaintext.drop contentEnd
                      saltProof := some proof }
                  if version.usesTweakedCipher then readV6Trailer decoded plaintext trailing contentEnd
                  else .ok decoded
            | _, _, _ => .error (.tooShort ivLen stub.length)

def decodeResponse (version : Version) (stub : List UInt8) (schedule : Option KeySchedule)
    (scratch : List UInt8) : Except ResponseError DecodedResponse :=
  match version, schedule with
  | .v4, _ => decodeResponseV4 stub
  | .v5, some schedule => decodeResponseEncrypted .v5 stub schedule scratch
  | .v6, some schedule => decodeResponseEncrypted .v6 stub schedule scratch
  | _, none => .error (.tooShort 0 0)

/-! ### What comes back from a framed response -/

/-- The fields every version shares, as a plan puts them there. -/
def plannedFields (declared : ProtocolVersion) (plan : ResponsePlan) (wireLen : ℕ) : DecodedResponse where
  outerVersion := none
  innerVersion := declared
  responseIv := none
  plaintextIvBlock := none
  pidSize := plan.epid.pidSize
  pidBytes := plan.epid.wireBytes
  clientMachineId := plan.clientMachineId
  clientTime := plan.clientTime
  count := plan.count
  activationInterval := plan.intervals.activation
  renewalInterval := plan.intervals.renewal
  saltProof := none
  hardwareId := none
  decryptedRequestIv := none
  hmac := none
  hmacMessage := []
  mac := none
  macMessage := []
  paddingLen := none
  padding := []
  wireLen

theorem readBody_bodyBytes (version : Version) (plan : ResponsePlan) (rest : List UInt8) (wireLen : ℕ) :
    readBody (bodyBytes version.toProtocolVersion plan ++ rest) wireLen =
      .ok (plannedFields version.toProtocolVersion plan wireLen, rest) := by
  have hpid : plan.epid.pidSize.toNat = plan.epid.wireBytes.length := by
    rw [EPid.toNat_pidSize, EPid.length_wireBytes]
  simp only [readBody, bodyBytes, List.append_assoc, readFromPrefix_append, responseHead, hpid,
    range_prefix _ _ rfl, List.drop_left, responseTail, WireGuid.toGuid_fromGuid,
    Version.fromWire_toWire, plannedFields]

/-- The fields of a version 4 response, as its builder put them there. -/
def plannedV4 (plan : ResponsePlan) (ciphers : Ciphers) : DecodedResponse :=
  { plannedFields Version.v4.toProtocolVersion plan
      (v4ResponseBytes Version.v4.toProtocolVersion plan ciphers).length with
    mac := some (ciphers.mac.tag (bodyBytes Version.v4.toProtocolVersion plan))
    macMessage := bodyBytes Version.v4.toProtocolVersion plan }

theorem decodeResponseV4_eq (plan : ResponsePlan) (ciphers : Ciphers) :
    decodeResponseV4 (v4ResponseBytes Version.v4.toProtocolVersion plan ciphers) =
      .ok (plannedV4 plan ciphers) := by
  have hread := readBody_bodyBytes .v4 plan
    (ciphers.mac.tag (bodyBytes Version.v4.toProtocolVersion plan)).toList
    (v4ResponseBytes Version.v4.toProtocolVersion plan ciphers).length
  have hmac : range (ciphers.mac.tag (bodyBytes Version.v4.toProtocolVersion plan)).toList 0 macLen =
      some (ciphers.mac.tag (bodyBytes Version.v4.toProtocolVersion plan)).toList := by
    have hlen : macLen = (ciphers.mac.tag (bodyBytes Version.v4.toProtocolVersion plan)).toList.length := by
      simp [macLen]
    have h := range_prefix _ [] hlen
    rwa [List.append_nil] at h
  have htake : (v4ResponseBytes Version.v4.toProtocolVersion plan ciphers).take
      ((v4ResponseBytes Version.v4.toProtocolVersion plan ciphers).length - macLen) =
        bodyBytes Version.v4.toProtocolVersion plan := by
    rw [v4ResponseBytes, List.length_append, Vector.length_toList]
    exact List.take_left' (by simp [macLen])
  rw [plannedV4]
  rw [v4ResponseBytes] at hread htake ⊢
  simp only [decodeResponseV4, hread, hmac, htake, decode_bytes_toList]

theorem paddingLength_padded (plaintext : List UInt8) :
    paddingLength (Cbc.padded plaintext) = some (Cbc.paddingLen plaintext.length) := by
  have hpos := Cbc.paddingLen_pos plaintext.length
  have hle := Cbc.paddingLen_le plaintext.length
  obtain ⟨last, hlast, _, hnat⟩ := Cbc.getLast?_padded plaintext
  simp only [paddingLength, hlast, hnat, Cbc.length_padded]
  exact if_neg (by omega)

/-- What the version 6 tag covers. -/
def coveredBytes (D : Digests) (declared : ProtocolVersion) (plan : ResponsePlan) (secret iv salt : Block) :
    List UInt8 :=
  iv.toList ++ bodyBytes declared plan ++ ((xorInto salt secret).toList ++ (D.sha256 salt.toList).toList) ++
    (plan.hardwareId.toList ++ secret.toList)

/-- The fields of an encrypted response, as its builder put them there. -/
def plannedEncrypted (D : Digests) (version : Version) (plan : ResponsePlan) (schedule : KeySchedule)
    (secret iv salt : Block) : DecodedResponse :=
  let declared := version.toProtocolVersion
  let pad := Cbc.paddingLen (encryptedPlaintextLen version plan.epid)
  let shared :=
    { plannedFields declared plan
        (encryptedResponseBytes D version declared plan schedule secret iv salt).length with
      outerVersion := some declared
      responseIv := some (schedule.encryptBlock iv)
      plaintextIvBlock := some iv
      paddingLen := some pad
      padding := List.replicate pad (UInt8.ofNat pad)
      saltProof := some ⟨xorInto salt secret, D.sha256 salt.toList⟩ }
  if version.usesTweakedCipher then
    { shared with
      hardwareId := some plan.hardwareId
      decryptedRequestIv := some secret
      hmac := some (V6.tag D plan.clientTime .current (coveredBytes D declared plan secret iv salt))
      hmacMessage := coveredBytes D declared plan secret iv salt }
  else shared

theorem v6TrailerBytes_eq (D : Digests) (plan : ResponsePlan) (secret : Block) (message : List UInt8) :
    v6TrailerBytes D plan secret message = V6Trailer.layout.encode ⟨plan.hardwareId, secret,
      V6.tag D plan.clientTime .current (message ++ (plan.hardwareId.toList ++ secret.toList))⟩ := by
  rw [v6TrailerBytes, V6Trailer.encode_eq, List.append_assoc]

/-- The proofs open with the salt proof, whatever the version. -/
theorem proofBytes_eq (D : Digests) (version : Version) (plan : ResponsePlan) (secret salt : Block)
    (message : List UInt8) :
    proofBytes D version plan secret salt message =
      SaltProof.layout.encode ⟨xorInto salt secret, D.sha256 salt.toList⟩ ++
        if version.usesTweakedCipher then v6TrailerBytes D plan secret (message ++
          SaltProof.layout.encode ⟨xorInto salt secret, D.sha256 salt.toList⟩) else [] := by
  cases htweak : version.usesTweakedCipher with
  | false =>
    rw [if_neg (by simp), List.append_nil]
    simp only [proofBytes, htweak]
    rfl
  | true =>
    simp only [proofBytes, htweak, if_true]
    rfl

/-- A version 6 plaintext is what the tag covers, and the tag. -/
theorem encryptedPlaintext_v6 (D : Digests) (declared : ProtocolVersion) (plan : ResponsePlan)
    (secret iv salt : Block) :
    encryptedPlaintext D .v6 declared plan secret iv salt = coveredBytes D declared plan secret iv salt ++
      (V6.tag D plan.clientTime .current (coveredBytes D declared plan secret iv salt)).toList := by
  simp [encryptedPlaintext, proofBytes, Version.usesTweakedCipher, v6TrailerBytes, coveredBytes]

theorem readV6Trailer_eq (D : Digests) (decoded : DecodedResponse) (plan : ResponsePlan)
    (declared : ProtocolVersion) (secret iv salt : Block) :
    readV6Trailer decoded (Cbc.padded (encryptedPlaintext D .v6 declared plan secret iv salt))
        (proofBytes D .v6 plan secret salt (iv.toList ++ bodyBytes declared plan))
        (encryptedPlaintextLen .v6 plan.epid) =
      .ok
        { decoded with
          hardwareId := some plan.hardwareId
          decryptedRequestIv := some secret
          hmac := some (V6.tag D plan.clientTime .current (coveredBytes D declared plan secret iv salt))
          hmacMessage := coveredBytes D declared plan secret iv salt } := by
  have hproofLen : (SaltProof.layout.encode ⟨xorInto salt secret, D.sha256 salt.toList⟩).length = saltProofLen :=
    SaltProof.layout.length_encode _
  have hafter : (proofBytes D .v6 plan secret salt (iv.toList ++ bodyBytes declared plan)).drop saltProofLen =
      V6Trailer.layout.encode ⟨plan.hardwareId, secret,
        V6.tag D plan.clientTime .current (coveredBytes D declared plan secret iv salt)⟩ ++ [] := by
    rw [proofBytes_eq, List.drop_left' hproofLen]
    simp only [Version.usesTweakedCipher, if_true, v6TrailerBytes_eq, List.append_nil]
    rfl
  have hlong : ¬ (encryptedPlaintext D .v6 declared plan secret iv salt).length < 16 := by
    rw [encryptedPlaintext_v6, List.length_append, Vector.length_toList]
    omega
  have hcovered : (Cbc.padded (encryptedPlaintext D .v6 declared plan secret iv salt)).take
      ((encryptedPlaintext D .v6 declared plan secret iv salt).length - 16) =
        coveredBytes D declared plan secret iv salt := by
    rw [Cbc.padded, encryptedPlaintext_v6, List.append_assoc]
    exact List.take_left' (by rw [List.length_append, Vector.length_toList]; omega)
  rw [length_encryptedPlaintext] at hlong hcovered
  simp only [readV6Trailer, hafter, readFromPrefix_append, if_neg hlong, hcovered]

section Encrypted

variable (D : Digests) (version : Version) (plan : ResponsePlan) (schedule : KeySchedule) (secret iv salt : Block)

/-- The first wire block is the encryption of the vector. -/
theorem range_encryptBytes (declared : ProtocolVersion) :
    range (Cbc.encryptBytes schedule .null (Cbc.padded (encryptedPlaintext D version declared plan secret iv
      salt))) 0 ivLen = some (schedule.encryptBlock iv).toList := by
  have hsplit : Cbc.padded (encryptedPlaintext D version declared plan secret iv salt) = iv.toList ++
      (Cbc.padded (encryptedPlaintext D version declared plan secret iv salt)).drop 16 := by
    simp [Cbc.padded, encryptedPlaintext]
  rw [hsplit, Cbc.encryptBytes_cons]
  simp only [Iv.bytes, xorInto_null]
  exact range_prefix _ _ (by simp [ivLen])

/-- The plaintext falls into vector, body with proofs, and padding. -/
theorem padded_encryptedPlaintext (declared : ProtocolVersion) :
    Cbc.padded (encryptedPlaintext D version declared plan secret iv salt) = iv.toList ++
      (bodyBytes declared plan ++ proofBytes D version plan secret salt (iv.toList ++ bodyBytes declared plan)) ++
        List.replicate (Cbc.paddingLen (encryptedPlaintextLen version plan.epid))
          (UInt8.ofNat (Cbc.paddingLen (encryptedPlaintextLen version plan.epid))) := by
  rw [Cbc.padded, length_encryptedPlaintext, encryptedPlaintext, List.append_assoc iv.toList]

theorem decodeResponseEncrypted_eq {scratch : List UInt8}
    (hscratch : (encryptedResponseBytes D version version.toProtocolVersion plan schedule secret iv
      salt).length ≤ scratch.length) :
    decodeResponseEncrypted version
        (encryptedResponseBytes D version version.toProtocolVersion plan schedule secret iv salt) schedule
        scratch =
      .ok (plannedEncrypted D version plan schedule secret iv salt) := by
  have hplain := length_encryptedPlaintext D version version.toProtocolVersion plan secret iv salt
  have halign := Cbc.length_padded_mod
    (encryptedPlaintext D version version.toProtocolVersion plan secret iv salt)
  have hcipherLen := Cbc.length_encryptBytes schedule .null halign
  have hdecrypted := Cbc.decryptBytes_encryptBytes schedule .null halign
  have hwireIv := range_encryptBytes D version plan schedule secret iv salt version.toProtocolVersion
  have hpadded := padded_encryptedPlaintext D version plan secret iv salt version.toProtocolVersion
  have hpadLen := Cbc.length_padded
    (encryptedPlaintext D version version.toProtocolVersion plan secret iv salt)
  have hpadding := paddingLength_padded
    (encryptedPlaintext D version version.toProtocolVersion plan secret iv salt)
  rw [hplain] at hpadding hpadLen
  have hpos := Cbc.paddingLen_pos (encryptedPlaintextLen version plan.epid)
  have hstubLen : (encryptedResponseBytes D version version.toProtocolVersion plan schedule secret iv
      salt).length = 4 + (Cbc.encryptBytes schedule .null (Cbc.padded (encryptedPlaintext D version
        version.toProtocolVersion plan secret iv salt))).length := by
    rw [encryptedResponseBytes, List.length_append, length_encode, size_u32]
  have hprefix : u32.readFromPrefix (encryptedResponseBytes D version version.toProtocolVersion plan schedule
      secret iv salt) = some (version.toProtocolVersion.toWire, Cbc.encryptBytes schedule .null
        (Cbc.padded (encryptedPlaintext D version version.toProtocolVersion plan secret iv salt))) :=
    readFromPrefix_append _ _ _
  have hread := readBody_bodyBytes version plan (proofBytes D version plan secret salt
    (iv.toList ++ bodyBytes version.toProtocolVersion plan)) (encryptedResponseBytes D version
      version.toProtocolVersion plan schedule secret iv salt).length
  generalize Cbc.encryptBytes schedule .null (Cbc.padded (encryptedPlaintext D version
    version.toProtocolVersion plan secret iv salt)) = ciphertext at *
  have hguard : ¬ (ciphertext.length = 0 ∨ ciphertext.length % 16 ≠ 0) := by omega
  obtain ⟨region, hregion, hregionLen⟩ :=
    exists_range_prefix (show ciphertext.length ≤ scratch.length by omega)
  have hdecrypt := Cbc.decrypt_eq schedule .null (by omega) (by omega) hregionLen.ge
  rw [hdecrypted, List.drop_eq_nil_of_le hregionLen.le, List.append_nil] at hdecrypt
  have hivBlock : range (Cbc.padded (encryptedPlaintext D version version.toProtocolVersion plan secret iv salt))
      0 ivLen = some iv.toList := by
    rw [hpadded, List.append_assoc]
    exact range_prefix _ _ (by simp [ivLen])
  have hbody : range (Cbc.padded (encryptedPlaintext D version version.toProtocolVersion plan secret iv salt))
      ivLen (encryptedPlaintextLen version plan.epid) = some (bodyBytes version.toProtocolVersion plan ++
        proofBytes D version plan secret salt (iv.toList ++ bodyBytes version.toProtocolVersion plan)) := by
    rw [hpadded]
    refine range_append iv.toList _ _ (by simp [ivLen]) ?_
    rw [← hplain, encryptedPlaintext, List.append_assoc, List.length_append]
  have hend : encryptedPlaintextLen version plan.epid + Cbc.paddingLen (encryptedPlaintextLen version plan.epid) -
      Cbc.paddingLen (encryptedPlaintextLen version plan.epid) = encryptedPlaintextLen version plan.epid :=
    Nat.add_sub_cancel _ _
  have hpad : (Cbc.padded (encryptedPlaintext D version version.toProtocolVersion plan secret iv salt)).drop
      (encryptedPlaintextLen version plan.epid) =
        List.replicate (Cbc.paddingLen (encryptedPlaintextLen version plan.epid))
          (UInt8.ofNat (Cbc.paddingLen (encryptedPlaintextLen version plan.epid))) := by
    rw [Cbc.padded, hplain]
    exact List.drop_left' hplain
  obtain ⟨rest, hproof⟩ : ∃ rest, SaltProof.layout.readFromPrefix (proofBytes D version plan secret salt
      (iv.toList ++ bodyBytes version.toProtocolVersion plan)) =
        some (⟨xorInto salt secret, D.sha256 salt.toList⟩, rest) :=
    ⟨_, by rw [proofBytes_eq, readFromPrefix_append]⟩
  simp only [decodeResponseEncrypted, hprefix, if_neg hguard, hregion, hdecrypt, hpadding, hpadLen, hend,
    hwireIv, hivBlock, hbody, hread, hproof, decode_bytes_toList, Version.fromWire_toWire, hpad]
  cases version with
  | v4 => rfl
  | v5 => rfl
  | v6 =>
    simp only [Version.usesTweakedCipher, if_true, readV6Trailer_eq]
    rfl

end Encrypted

end Kmsrs.Kms
