import Kmsrs.Kms.Exchange

/-! What a response that passes every check is made of. The decoder reads
prefixes, and the padding is only asked to name its own length; with the exact
size that leaves fewer than sixteen bytes between the last field and the padding
unaccounted for. -/

namespace Kmsrs.Kms

open Kmsrs.Layout Kmsrs.Crypto Kmsrs.Bytes

variable {stub : List UInt8} {schedule : KeySchedule} {scratch : List UInt8} {response : DecodedResponse}

/-- A response passes when no check of it fails. -/
theorem Checks.allPassed_iff {checks : Checks} : checks.allPassed = true ↔ ∀ c, checks.outcome c ≠ .fail := by
  have hindex : ∀ i : Fin 12, Check.all.idxOf (Check.all.get i) = i := by decide
  rw [Checks.allPassed, Bool.not_eq_true', List.any_eq_false]
  constructor
  · intro h c hfail
    have hmem : checks.outcome c ∈ checks.outcomes.toList := by
      rw [Checks.outcome, Outcomes.get]
      simp
    exact h _ hmem (by simpa using hfail)
  · intro h outcome hmem hfail
    obtain ⟨i, hi, rfl⟩ := List.mem_iff_getElem.mp hmem
    have hi : i < 12 := by simpa using hi
    have hget : checks.outcome (Check.all.get ⟨i, hi⟩) = checks.outcomes[i] := getElem_congr_idx (hindex ⟨i, hi⟩)
    exact h (Check.all.get ⟨i, hi⟩) (hget.trans (by simpa using hfail))

/-! ### What the decoder read -/

theorem readBody_eq_ok {body trailing : List UInt8} {wireLen : ℕ} {decoded : DecodedResponse}
    (h : readBody body wireLen = .ok (decoded, trailing)) :
    ∃ head tail, body = ResponseHead.layout.encode head ++ (decoded.pidBytes ++
        (ResponseTail.layout.encode tail ++ trailing)) ∧
      decoded.pidSize = head.pidSize ∧ decoded.pidBytes.length = head.pidSize.toNat ∧
      decoded.wireLen = wireLen ∧ decoded.hmac = none ∧ decoded.mac = none := by
  unfold readBody at h
  split at h
  · cases h
  next head rest hhead =>
    dsimp only at h
    split at h
    · cases h
    next pidBytes hpid =>
      split at h
      · cases h
      next tail remainder htail =>
        cases h
        obtain ⟨hrest, hlen⟩ := eq_append_of_range hpid
        refine ⟨head, tail, ?_, rfl, hlen, rfl, rfl, rfl⟩
        rw [← eq_append_of_readFromPrefix _ htail, ← hrest, ← eq_append_of_readFromPrefix _ hhead]

def trailerBytes : Option V6Trailer → List UInt8
  | none => []
  | some trailer => V6Trailer.layout.encode trailer

/-- The plaintext of a response as it was read: the first block, the fields, and
the padding as long as its last byte says; what lies before it was skipped. -/
structure Reads (version : Version) (plaintext : List UInt8) (response : DecodedResponse) (ivBlock : Block)
    (head : ResponseHead) (tail : ResponseTail) (proof : SaltProof) (trailer : Option V6Trailer)
    (stray : List UInt8) : Prop where
  layout : plaintext = ivBlock.toList ++ (ResponseHead.layout.encode head ++ (response.pidBytes ++
    (ResponseTail.layout.encode tail ++ (SaltProof.layout.encode proof ++ (trailerBytes trailer ++
      (stray ++ response.padding))))))
  trailer : trailer.isSome = version.usesTweakedCipher
  pidSize : response.pidSize = head.pidSize ∧ response.pidBytes.length = head.pidSize.toNat
  padding : response.paddingLen = some response.padding.length ∧ 0 < response.padding.length

theorem paddingLength_eq_some {plaintext : List UInt8} {len : ℕ} (h : paddingLength plaintext = some len) :
    0 < len ∧ len ≤ plaintext.length := by
  unfold paddingLength at h
  split at h
  · cases h
  · dsimp only at h
    split_ifs at h
    cases h
    omega

/-- The version 6 fields follow the salt proof; the tag is the last of them. -/
theorem readV6Trailer_eq_ok {decoded : DecodedResponse} {plaintext trailing rest : List UInt8} {proof : SaltProof}
    {contentEnd : ℕ} (htrailing : trailing = SaltProof.layout.encode proof ++ rest)
    (h : readV6Trailer decoded plaintext trailing contentEnd = .ok response) :
    ∃ trailer stray, rest = V6Trailer.layout.encode trailer ++ stray ∧
      response = { decoded with
        hardwareId := some trailer.hardwareId
        decryptedRequestIv := some trailer.xoredIvs
        hmac := some trailer.hmac
        hmacMessage := plaintext.take (contentEnd - 16) } := by
  have hrest : trailing.drop saltProofLen = rest := by
    rw [htrailing]
    exact List.drop_left' (SaltProof.layout.length_encode proof)
  unfold readV6Trailer at h
  rw [hrest] at h
  dsimp only at h
  split at h
  · cases h
  next trailer stray htrailer =>
    split_ifs at h
    cases h
    exact ⟨trailer, stray, eq_append_of_readFromPrefix _ htrailer, rfl⟩

theorem reads_of_decode {version : Version} (h : decodeResponseEncrypted version stub schedule scratch = .ok response) :
    (∃ ivBlock head tail proof trailer stray,
      Reads version (Cbc.decryptBytes schedule .null (stub.drop 4)) response ivBlock head tail proof trailer stray) ∧
      4 ≤ stub.length ∧ (stub.drop 4).length % 16 = 0 ∧ response.wireLen = stub.length ∧ response.mac = none ∧
      (version.usesTweakedCipher = false → response.hmac = none) := by
  unfold decodeResponseEncrypted at h
  split at h
  · cases h
  next outer ciphertext houter =>
    have hstub := eq_append_of_readFromPrefix _ houter
    have hciphertext : stub.drop 4 = ciphertext := by
      rw [hstub, List.drop_left' (by simp)]
    have hprefix : 4 ≤ stub.length := by
      rw [hstub, List.length_append, length_encode, size_u32]
      omega
    split at h
    · cases h
    next haligned =>
      split at h
      · cases h
      next region hregion =>
        have hregionLen := length_of_range hregion
        rw [Cbc.decrypt_eq schedule .null (by omega) (by omega) (by omega)] at h
        rw [List.drop_of_length_le (by omega), List.append_nil] at h
        dsimp only at h
        split at h
        · cases h
        next len hlen =>
          obtain ⟨hpos, hle⟩ := paddingLength_eq_some hlen
          split at h
          next wireIv ivBytes body hwireIv hivBytes hbody =>
            split at h
            · cases h
            next decoded trailing hread =>
              split at h
              · cases h
              next proof rest hproof =>
                obtain ⟨hplain, hivLen⟩ := eq_append_of_range hivBytes
                have hafterIv := drop_eq_of_range hbody
                obtain ⟨head, tail, hfields, hpidSize, hpidLen, hwireLen, hhmac, hmac⟩ := readBody_eq_ok hread
                have htrailing := eq_append_of_readFromPrefix _ hproof
                have hpadLen : ((Cbc.decryptBytes schedule .null ciphertext).drop
                    ((Cbc.decryptBytes schedule .null ciphertext).length - len)).length = len := by
                  rw [List.length_drop]
                  omega
                have hlayout : Cbc.decryptBytes schedule .null ciphertext =
                    (block.decode ivBytes).toList ++ (ResponseHead.layout.encode head ++ (decoded.pidBytes ++
                      (ResponseTail.layout.encode tail ++ (SaltProof.layout.encode proof ++ (rest ++
                        (Cbc.decryptBytes schedule .null ciphertext).drop
                          ((Cbc.decryptBytes schedule .null ciphertext).length - len)))))) := by
                  have hiv : (block.decode ivBytes).toList = ivBytes := toList_decode_bytes hivLen
                  conv_lhs => rw [hplain, hafterIv, hfields, htrailing]
                  rw [hiv]
                  simp only [List.append_assoc]
                rw [hciphertext]
                refine ⟨?_, hprefix, by omega, ?_⟩
                · cases htweaked : version.usesTweakedCipher with
                  | false =>
                    rw [htweaked] at h
                    cases h
                    exact ⟨_, head, tail, proof, none, rest, hlayout, htweaked.symm, ⟨hpidSize, hpidLen⟩,
                      ⟨congrArg some hpadLen.symm, by rw [hpadLen]; exact hpos⟩⟩
                  | true =>
                    rw [htweaked, if_pos rfl] at h
                    obtain ⟨trailer, stray, hrest, rfl⟩ := readV6Trailer_eq_ok htrailing h
                    rw [hrest] at hlayout
                    simp only [List.append_assoc] at hlayout
                    exact ⟨_, head, tail, proof, some trailer, stray, hlayout, htweaked.symm, ⟨hpidSize, hpidLen⟩,
                      ⟨congrArg some hpadLen.symm, by rw [hpadLen]; exact hpos⟩⟩
                · cases htweaked : version.usesTweakedCipher with
                  | false =>
                    rw [htweaked] at h
                    cases h
                    exact ⟨hwireLen, hmac, fun _ => hhmac⟩
                  | true =>
                    rw [htweaked, if_pos rfl] at h
                    obtain ⟨trailer, stray, -, rfl⟩ := readV6Trailer_eq_ok htrailing h
                    exact ⟨hwireLen, hmac, by simp⟩
          next => cases h

/-! ### What the checks say about it -/

/-- The bytes before the padding of a response with an ePID of this length. -/
def contentLen (version : Version) (pidLen : ℕ) : ℕ :=
  16 + responseHeadLen + pidLen + if version = .v6 then v6PostEpidLen else v5PostEpidLen

theorem Reads.length {version : Version} (hversion : version ≠ .v4) {plaintext : List UInt8} {ivBlock : Block}
    {head : ResponseHead} {tail : ResponseTail} {proof : SaltProof} {trailer : Option V6Trailer}
    {stray : List UInt8} (h : Reads version plaintext response ivBlock head tail proof trailer stray) :
    plaintext.length = contentLen version response.pidBytes.length + (stray.length + response.padding.length) := by
  have htrailer : (trailerBytes trailer).length = if version = .v6 then v6TrailerLen else 0 := by
    have hsome := h.trailer
    cases trailer with
    | none =>
      cases version with
      | v4 => exact absurd rfl hversion
      | v5 => rfl
      | v6 => cases hsome
    | some trailer =>
      cases version with
      | v4 => exact absurd rfl hversion
      | v5 => cases hsome
      | v6 => exact V6Trailer.layout.length_encode trailer
  have hhead : responseHeadLen = ResponseHead.layout.size := rfl
  have hv5 : v5PostEpidLen = ResponseTail.layout.size + SaltProof.layout.size := rfl
  have hv6 : v6PostEpidLen = v5PostEpidLen + v6TrailerLen := rfl
  rw [h.layout]
  simp only [List.length_append, Vector.length_toList, length_encode, htrailer, contentLen]
  split_ifs <;> omega

theorem verdict_ne_fail {holds : Bool} (h : verdict holds ≠ .fail) : holds = true := by
  cases holds with
  | false => exact absurd rfl h
  | true => rfl

theorem pidBytes_le {response : DecodedResponse} (h : pidIsWellFormed response = true) :
    response.pidBytes.length ≤ 128 := by
  unfold pidIsWellFormed at h
  dsimp only at h
  split_ifs at h with hodd hlong
  exact Nat.le_of_not_lt hlong

theorem expectedSize_eq {version : Version} (hversion : version ≠ .v4) {response : DecodedResponse}
    (hpid : response.pidBytes.length ≤ 128) :
    expectedSize version response = 4 + (contentLen version response.pidBytes.length +
      Cbc.paddingLen (contentLen version response.pidBytes.length)) := by
  have hbound : contentLen version response.pidBytes.length + 16 < 2 ^ 64 := by
    have hv5 : v5PostEpidLen = 84 := rfl
    have hv6 : v6PostEpidLen = 124 := rfl
    have hhead : responseHeadLen = 8 := rfl
    unfold contentLen
    split_ifs <;> omega
  cases version with
  | v4 => exact absurd rfl hversion
  | v5 =>
    show 4 + (Cbc.paddedLen (contentLen .v5 response.pidBytes.length)).getD _ = _
    rw [Cbc.paddedLen_eq hbound, Option.getD_some]
  | v6 =>
    show 4 + (Cbc.paddedLen (contentLen .v6 response.pidBytes.length)).getD _ = _
    rw [Cbc.paddedLen_eq hbound, Option.getD_some]

/-- Without a version 4 tag nothing passes as version 4, and without a keyed tag
nothing as version 6. -/
theorem version_of_passed {D : Digests} {sent : Sent} {macKey : Option (List UInt8 → Block)}
    (hpassed : (check D sent response macKey).allPassed = true) (hmac : response.mac = none) :
    sent.version ≠ .v4 ∧ (response.hmac = none → sent.version ≠ .v6) := by
  have hhash := Checks.allPassed_iff.mp hpassed .hashOk
  have hkeyed := Checks.allPassed_iff.mp hpassed .hmacSha256Ok
  rw [outcome_check] at hhash hkeyed
  refine ⟨fun hv4 => hhash ?_, fun hnone hv6 => hkeyed ?_⟩
  · simp only [hashOutcome, hv4, hmac]
  · simp only [hmacOutcome, hv6, hnone]

/-- A response that decodes and passes every check has the fields of its version
one after the other, then stray bytes, then padding that names its length; the
stray bytes and the padding together are as long as the padding should be. -/
theorem passed_response_layout {version : Version} (hversion : version ≠ .v4) (D : Digests) (sent : Sent)
    (macKey : Option (List UInt8 → Block))
    (hdecode : decodeResponse version stub (some schedule) scratch = .ok response)
    (hpassed : (check D sent response macKey).allPassed = true) :
    sent.version = version ∧ ∃ ivBlock head tail proof trailer stray,
      Reads version (Cbc.decryptBytes schedule .null (stub.drop 4)) response ivBlock head tail proof trailer stray ∧
        (∀ byte ∈ response.padding, byte.toNat = response.padding.length) ∧
        stray.length + response.padding.length =
          Cbc.paddingLen (contentLen version response.pidBytes.length) := by
  have hencrypted : decodeResponseEncrypted version stub schedule scratch = .ok response := by
    cases version with
    | v4 => exact absurd rfl hversion
    | v5 => exact hdecode
    | v6 => exact hdecode
  obtain ⟨⟨ivBlock, head, tail, proof, trailer, stray, hreads⟩, hprefix, haligned, hwire, hmac, hhmac⟩ :=
    reads_of_decode hencrypted
  have hlen := hreads.length hversion
  rw [Cbc.length_decryptBytes _ _ haligned, List.length_drop] at hlen
  have hpid : response.pidBytes.length ≤ 128 := by
    have hwell := Checks.allPassed_iff.mp hpassed .pidLengthOk
    rw [outcome_check] at hwell
    exact pidBytes_le (verdict_ne_fail hwell)
  obtain ⟨hnot4, hnot6⟩ := version_of_passed hpassed hmac
  have hsize : stub.length = 4 + (contentLen sent.version response.pidBytes.length +
      Cbc.paddingLen (contentLen sent.version response.pidBytes.length)) := by
    have hexact := Checks.allPassed_iff.mp hpassed .sizeOk
    rw [outcome_check] at hexact
    rw [← hwire, ← expectedSize_eq hnot4 hpid]
    exact of_decide_eq_true (verdict_ne_fail hexact)
  have hpadding := Checks.allPassed_iff.mp hpassed .decryptSuccess
  rw [outcome_check] at hpadding
  have hsame : sent.version = version := by
    cases hsent : sent.version with
    | v4 => exact absurd hsent hnot4
    | v5 =>
      cases version with
      | v4 => exact absurd rfl hversion
      | v5 => rfl
      | v6 =>
        -- the version 6 trailer does not fit where version 5 ends
        have hpad := Cbc.paddingLen_le (contentLen .v5 response.pidBytes.length)
        have hpos := hreads.padding.2
        have htrailer : contentLen .v6 response.pidBytes.length =
            contentLen .v5 response.pidBytes.length + 40 := rfl
        rw [hsent] at hsize
        omega
    | v6 =>
      cases version with
      | v4 => exact absurd rfl hversion
      | v5 => exact absurd hsent (hnot6 (hhmac rfl))
      | v6 => rfl
  refine ⟨hsame, ivBlock, head, tail, proof, trailer, stray, hreads, ?_, ?_⟩
  · rw [decryptOutcome, if_neg hnot4, hreads.padding.1] at hpadding
    have hall := verdict_ne_fail hpadding
    simpa using hall
  · rw [hsame] at hsize
    omega

/-! ### Version 5 with stray bytes -/

section Stray

variable (D : Digests) (plan : ResponsePlan) (schedule : KeySchedule) (secret salt : Block) (stray : List UInt8)
  (pad : ℕ)

/-- A version 5 plaintext with stray bytes before shorter padding. -/
def strayPlaintext : List UInt8 :=
  secret.toList ++ ((bodyBytes Version.v5.toProtocolVersion plan ++
    (SaltProof.layout.encode ⟨xorInto salt secret, D.sha256 salt.toList⟩ ++ stray)) ++
      List.replicate pad (UInt8.ofNat pad))

def strayResponseBytes : List UInt8 :=
  u32.encode Version.v5.toProtocolVersion.toWire ++
    Cbc.encryptBytes schedule .null (strayPlaintext D plan secret salt stray pad)

/-- What is read from it. -/
def strayResponse : DecodedResponse :=
  { plannedFields Version.v5.toProtocolVersion plan (strayResponseBytes D plan schedule secret salt stray pad).length with
    outerVersion := some Version.v5.toProtocolVersion
    responseIv := some (schedule.encryptBlock secret)
    plaintextIvBlock := some secret
    paddingLen := some pad
    padding := List.replicate pad (UInt8.ofNat pad)
    saltProof := some ⟨xorInto salt secret, D.sha256 salt.toList⟩ }

theorem length_strayPlaintext : (strayPlaintext D plan secret salt stray pad).length =
    encryptedPlaintextLen .v5 plan.epid + (stray.length + pad) := by
  have hhead : v5PostEpidLen = responseTailLen + SaltProof.layout.size := rfl
  simp only [strayPlaintext, List.length_append, Vector.length_toList, length_bodyBytes, length_encode,
    List.length_replicate, encryptedPlaintextLen, Version.usesTweakedCipher, ivLen]
  simp only [Bool.false_eq_true, if_false]
  omega

theorem length_strayResponseBytes
    (hdue : stray.length + pad = Cbc.paddingLen (encryptedPlaintextLen .v5 plan.epid)) :
    (strayResponseBytes D plan schedule secret salt stray pad).length =
      4 + (strayPlaintext D plan secret salt stray pad).length := by
  have halign : (strayPlaintext D plan secret salt stray pad).length % 16 = 0 := by
    rw [length_strayPlaintext, hdue, Cbc.paddingLen_eq]
    omega
  rw [strayResponseBytes, List.length_append, length_encode, Cbc.length_encryptBytes _ _ halign, size_u32]

theorem paddingLength_strayPlaintext (hpos : 0 < pad) (hle : pad ≤ 16) :
    paddingLength (strayPlaintext D plan secret salt stray pad) = some pad := by
  have hlast : (strayPlaintext D plan secret salt stray pad).getLast? = some (UInt8.ofNat pad) := by
    rw [strayPlaintext, List.getLast?_append, List.getLast?_append, List.getLast?_replicate, if_neg (by omega)]
    rfl
  have hnat : (UInt8.ofNat pad).toNat = pad := Nat.mod_eq_of_lt (by omega)
  have hlen := length_strayPlaintext D plan secret salt stray pad
  simp only [paddingLength, hlast, hnat]
  exact if_neg (by omega)

theorem decodeResponse_stray (hpos : 0 < pad) (hle : pad ≤ 16)
    (hdue : stray.length + pad = Cbc.paddingLen (encryptedPlaintextLen .v5 plan.epid)) {scratch : List UInt8}
    (hscratch : (strayResponseBytes D plan schedule secret salt stray pad).length ≤ scratch.length) :
    decodeResponse .v5 (strayResponseBytes D plan schedule secret salt stray pad) (some schedule) scratch =
      .ok (strayResponse D plan schedule secret salt stray pad) := by
  have hplain := length_strayPlaintext D plan secret salt stray pad
  have halign : (strayPlaintext D plan secret salt stray pad).length % 16 = 0 := by
    rw [hplain, hdue, Cbc.paddingLen_eq]
    omega
  have hcipherLen := Cbc.length_encryptBytes schedule .null halign
  have hdecrypted := Cbc.decryptBytes_encryptBytes schedule .null halign
  have hwireIv : range (Cbc.encryptBytes schedule .null (strayPlaintext D plan secret salt stray pad)) 0 ivLen =
      some (schedule.encryptBlock secret).toList := by
    rw [strayPlaintext, Cbc.encryptBytes_cons]
    simp only [Iv.bytes, xorInto_null]
    exact range_prefix _ _ (by simp [ivLen])
  have hstubLen := length_strayResponseBytes D plan schedule secret salt stray pad hdue
  have hprefix : u32.readFromPrefix (strayResponseBytes D plan schedule secret salt stray pad) =
      some (Version.v5.toProtocolVersion.toWire,
        Cbc.encryptBytes schedule .null (strayPlaintext D plan secret salt stray pad)) :=
    readFromPrefix_append _ _ _
  have hpadding := paddingLength_strayPlaintext D plan secret salt stray pad hpos hle
  have hend : (strayPlaintext D plan secret salt stray pad).length - pad =
      (secret.toList ++ (bodyBytes Version.v5.toProtocolVersion plan ++
        (SaltProof.layout.encode ⟨xorInto salt secret, D.sha256 salt.toList⟩ ++ stray))).length := by
    simp only [strayPlaintext, List.length_append, List.length_replicate]
    omega
  have hivBlock : range (strayPlaintext D plan secret salt stray pad) 0 ivLen = some secret.toList :=
    range_prefix _ _ (by simp [ivLen])
  have hsplit : strayPlaintext D plan secret salt stray pad =
      secret.toList ++ (bodyBytes Version.v5.toProtocolVersion plan ++
        (SaltProof.layout.encode ⟨xorInto salt secret, D.sha256 salt.toList⟩ ++ stray)) ++
          List.replicate pad (UInt8.ofNat pad) := by
    rw [strayPlaintext, List.append_assoc secret.toList]
  have hbody : range (strayPlaintext D plan secret salt stray pad) ivLen
      ((strayPlaintext D plan secret salt stray pad).length - pad) =
        some (bodyBytes Version.v5.toProtocolVersion plan ++
          (SaltProof.layout.encode ⟨xorInto salt secret, D.sha256 salt.toList⟩ ++ stray)) := by
    rw [hend, hsplit]
    exact range_append secret.toList _ _ (by simp [ivLen]) List.length_append
  have hpad : (strayPlaintext D plan secret salt stray pad).drop
      ((strayPlaintext D plan secret salt stray pad).length - pad) = List.replicate pad (UInt8.ofNat pad) := by
    rw [hend, hsplit]
    exact List.drop_left
  have hread := readBody_bodyBytes .v5 plan
    (SaltProof.layout.encode ⟨xorInto salt secret, D.sha256 salt.toList⟩ ++ stray)
    (strayResponseBytes D plan schedule secret salt stray pad).length
  have hencrypted : decodeResponse .v5 (strayResponseBytes D plan schedule secret salt stray pad) (some schedule)
      scratch = decodeResponseEncrypted .v5 (strayResponseBytes D plan schedule secret salt stray pad) schedule
        scratch := rfl
  rw [hencrypted]
  generalize Cbc.encryptBytes schedule .null (strayPlaintext D plan secret salt stray pad) = ciphertext at *
  have hguard : ¬ (ciphertext.length = 0 ∨ ciphertext.length % 16 ≠ 0) := by omega
  obtain ⟨region, hregion, hregionLen⟩ :=
    exists_range_prefix (show ciphertext.length ≤ scratch.length by omega)
  have hdecrypt := Cbc.decrypt_eq schedule .null (by omega) (by omega) hregionLen.ge
  rw [hdecrypted, List.drop_eq_nil_of_le hregionLen.le, List.append_nil] at hdecrypt
  simp only [decodeResponseEncrypted, hprefix, if_neg hguard, hregion, hdecrypt, hpadding, hwireIv, hivBlock, hbody,
    hread, readFromPrefix_append, decode_bytes_toList, Version.fromWire_toWire, hpad]
  rfl

theorem contentLen_stray : contentLen .v5 (strayResponse D plan schedule secret salt stray pad).pidBytes.length =
    encryptedPlaintextLen .v5 plan.epid := by
  show contentLen .v5 plan.epid.wireBytes.length = _
  rw [EPid.length_wireBytes]
  rfl

/-- The request that it answers. -/
def strayRequest : Sent where
  version := .v5
  clientMachineId := plan.clientMachineId
  clientTime := plan.clientTime
  requestIv := some (schedule.encryptBlock secret)
  sharedSecret := some secret
  headerVersion := Version.v5.toProtocolVersion.toWire
  responseHeaderVersion := Version.v5.toProtocolVersion.toWire

/-- It passes, however the bytes that are due are divided between stray bytes and
padding. -/
theorem allPassed_stray (hle : pad ≤ 16)
    (hdue : stray.length + pad = Cbc.paddingLen (encryptedPlaintextLen .v5 plan.epid))
    (hiv : schedule.encryptBlock secret ≠ Vector.replicate 16 0) (macKey : Option (List UInt8 → Block)) :
    (check D (strayRequest plan schedule secret) (strayResponse D plan schedule secret salt stray pad)
      macKey).allPassed = true := by
  have hsize : (strayResponse D plan schedule secret salt stray pad).wireLen =
      expectedSize .v5 (strayResponse D plan schedule secret salt stray pad) := by
    have hpid : (strayResponse D plan schedule secret salt stray pad).pidBytes.length ≤ 128 :=
      plan.epid.length_wireBytes.trans_le plan.epid.encodedLen_le
    rw [expectedSize_eq (by simp) hpid, contentLen_stray]
    show (strayResponseBytes D plan schedule secret salt stray pad).length = _
    rw [length_strayResponseBytes D plan schedule secret salt stray pad hdue, length_strayPlaintext, hdue]
  have hechoes : Echoes (strayRequest plan schedule secret) plan
      (strayResponse D plan schedule secret salt stray pad) :=
    ⟨rfl, rfl, rfl, rfl, rfl, .inr rfl, rfl, rfl, rfl, rfl, hsize⟩
  have hproves : Proves D (strayRequest plan schedule secret)
      (strayResponse D plan schedule secret salt stray pad) (schedule.encryptBlock secret) secret salt :=
    ⟨rfl, rfl, rfl, ⟨pad, hle, rfl, rfl⟩, by simp [strayRequest]⟩
  rw [Checks.allPassed_iff]
  intro c hfail
  rw [outcome_encrypted_eq_fail hechoes hproves (by simp [strayRequest]) rfl] at hfail
  cases c with
  | ivsOk => exact hfail rfl
  | ivNotSuspicious => exact hiv hfail
  | _ => exact hfail

end Stray

/-! ### One such response -/

/-- Digests that are right on sixteen zero bytes. -/
def zeroDigests : Digests where
  sha256 := fun _ =>
    #v[0x37, 0x47, 0x08, 0xff, 0xf7, 0x71, 0x9d, 0xd5, 0x97, 0x9e, 0xc8, 0x75, 0xd5, 0x6c, 0xd2, 0x28, 0x6f, 0x6d,
      0x3c, 0xf7, 0xec, 0x31, 0x7a, 0x3b, 0x25, 0x63, 0x2a, 0xab, 0x28, 0xec, 0x37, 0xbb]
  hmac := fun _ _ => Vector.replicate 32 0

/-- A plan with an ePID of one unit: 112 bytes of content, so that a whole block
of padding is due. -/
def oneUnitPlan : ResponsePlan where
  epid := ⟨[65], by decide, by decide⟩
  clientMachineId := Guid.zero
  clientTime := 0
  count := 1
  intervals := .default
  hardwareId := Vector.replicate 8 0

/-- The secret behind a request vector of sixteen ones, under the protocol's key. -/
def onesSecret : Block := Ciphers.new.v5.decryptBlock (Vector.replicate 16 1)

theorem encryptBlock_onesSecret : Ciphers.new.v5.encryptBlock onesSecret = Vector.replicate 16 1 :=
  KeySchedule.encryptBlock_decryptBlock _ _

/-- However it is divided, the sixteen bytes that are due pass. -/
theorem oneUnit_passes {stray : List UInt8} {pad : ℕ} (hpos : 0 < pad) (hdue : stray.length + pad = 16) :
    decodeResponse .v5 (strayResponseBytes zeroDigests oneUnitPlan Ciphers.new.v5 onesSecret
        (Vector.replicate 16 0) stray pad) (some Ciphers.new.v5) (List.replicate 132 0) =
      .ok (strayResponse zeroDigests oneUnitPlan Ciphers.new.v5 onesSecret (Vector.replicate 16 0) stray pad) ∧
    (check zeroDigests (strayRequest oneUnitPlan Ciphers.new.v5 onesSecret)
      (strayResponse zeroDigests oneUnitPlan Ciphers.new.v5 onesSecret (Vector.replicate 16 0) stray pad)
      none).allPassed = true := by
  have hcontent : encryptedPlaintextLen .v5 oneUnitPlan.epid = 112 := by decide
  have hblock : Cbc.paddingLen 112 = 16 := by decide
  have hwhole : stray.length + pad = Cbc.paddingLen (encryptedPlaintextLen .v5 oneUnitPlan.epid) := by
    rw [hcontent, hblock, hdue]
  have hiv : Ciphers.new.v5.encryptBlock onesSecret ≠ Vector.replicate 16 0 := by
    rw [encryptBlock_onesSecret]
    decide
  refine ⟨decodeResponse_stray _ _ _ _ _ _ _ hpos (by omega) hwhole ?_,
    allPassed_stray _ _ _ _ _ _ _ (by omega) hwhole hiv none⟩
  rw [length_strayResponseBytes _ _ _ _ _ _ _ hwhole, length_strayPlaintext, hcontent, hdue, List.length_replicate]

theorem passed_response_layout_padded :
    ∃ (response : DecodedResponse) (stray : List UInt8),
      decodeResponse .v5 (strayResponseBytes zeroDigests oneUnitPlan Ciphers.new.v5 onesSecret
        (Vector.replicate 16 0) [] 16) (some Ciphers.new.v5) (List.replicate 132 0) = .ok response ∧
      stray.length + response.padding.length = Cbc.paddingLen (contentLen .v5 response.pidBytes.length) := by
  obtain ⟨hdecode, hpassed⟩ := oneUnit_passes (by decide) (show ([] : List UInt8).length + 16 = 16 from rfl)
  obtain ⟨-, ivBlock, head, tail, proof, trailer, stray, -, -, hlen⟩ :=
    passed_response_layout (by simp) _ _ none hdecode hpassed
  exact ⟨_, stray, hdecode, hlen⟩

/-- Fifteen stray bytes and one byte of padding pass where sixteen bytes of
padding are due. -/
theorem stray_bytes_pass :
    ∃ response, decodeResponse .v5 (strayResponseBytes zeroDigests oneUnitPlan Ciphers.new.v5 onesSecret
        (Vector.replicate 16 0) (List.replicate 15 0xAA) 1) (some Ciphers.new.v5) (List.replicate 132 0) =
          .ok response ∧
      (check zeroDigests (strayRequest oneUnitPlan Ciphers.new.v5 onesSecret) response none).allPassed = true ∧
      response.paddingLen = some 1 ∧ Cbc.paddingLen (contentLen .v5 response.pidBytes.length) = 16 := by
  obtain ⟨hdecode, hpassed⟩ := oneUnit_passes (by decide)
    (show (List.replicate 15 (0xAA : UInt8)).length + 1 = 16 by rw [List.length_replicate])
  exact ⟨_, hdecode, hpassed, rfl, by rw [contentLen_stray]; decide⟩

end Kmsrs.Kms
