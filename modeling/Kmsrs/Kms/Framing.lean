import Kmsrs.Crypto.Tags
import Kmsrs.Kms.EPid
import Kmsrs.Kms.Request

/-! Turning a stub into a request and a decision into a stub. Version 4 is
plaintext under a tag; version 5 encrypts and returns the request's vector;
version 6 encrypts under the tweaked schedule with a fresh vector, a hardware ID
and a keyed tag. A failed write is an error; the bytes it left in the buffer are
not modelled. -/

namespace Kmsrs.Kms

open Kmsrs.Layout Kmsrs.Crypto Kmsrs.Bytes

/-- The three expanded keys. -/
structure Ciphers where
  v4 : CbcMacV4
  v5 : KeySchedule
  v6 : KeySchedule

namespace Ciphers

def new : Ciphers where
  v4 := .new
  v5 := .aes128 Keys.v5
  v6 := .aes128TweakedForV6 Keys.v6

def schedule (ciphers : Ciphers) : Version → Option KeySchedule
  | .v4 => none
  | .v5 => some ciphers.v5
  | .v6 => some ciphers.v6

def mac (ciphers : Ciphers) : CbcMacV4 := ciphers.v4

end Ciphers

/-! ### Decoding a request -/

structure DecodedRequest where
  version : Version
  declared : ProtocolVersion
  request : Request
  /-- The decrypted request vector; absent for version 4. -/
  sharedSecret : Option Block
  /-- Recorded, not enforced; absent for versions 5 and 6. -/
  macVerified : Option Bool
deriving DecidableEq

inductive DecodeError where
  | request (error : RequestError)
  | cipher (error : CipherError)
  | bodyLength (actual : ℕ)
deriving DecidableEq

def decodeV4 (stub : List UInt8) (declared : ProtocolVersion) (ciphers : Ciphers) :
    Except DecodeError DecodedRequest :=
  if stub.length < requestBodyLen then .error (.bodyLength stub.length)
  else
    let bodyBytes := stub.take requestBodyLen
    let macBytes := stub.drop requestBodyLen
    match RequestBody.layout.readFromBytes bodyBytes with
    | none => .error (.bodyLength bodyBytes.length)
    | some body =>
      let expected := ciphers.mac.tag bodyBytes
      .ok
        { version := .v4
          declared
          request := .fromBody body
          sharedSecret := none
          macVerified := some (macBytes.length ≥ macLen ∧ block.decode (macBytes.take macLen) = expected) }

/-- Decryption starts at the request's vector with a null one, so the first
block comes out as the shared secret and the rest as the body. -/
def decode (stub : List UInt8) (ciphers : Ciphers) : Except DecodeError DecodedRequest :=
  match dispatch stub with
  | .error error => .error (.request error)
  | .ok (version, declared) =>
    match ciphers.schedule version with
    | none => decodeV4 stub declared ciphers
    | some schedule =>
      match range stub unencryptedPrefixLen stub.length with
      | none => .error (.bodyLength 0)
      | some ciphertext =>
        match Cbc.decrypt schedule .null ciphertext (List.replicate v6DecryptLen 0) with
        | .error error => .error (.cipher error)
        | .ok plaintext =>
          match Cbc.stripPadding (plaintext.drop ivLen) with
          | .error error => .error (.cipher error)
          | .ok bodyBytes =>
            match RequestBody.layout.readFromBytes bodyBytes with
            | none => .error (.bodyLength bodyBytes.length)
            | some body =>
              .ok
                { version
                  declared
                  request := .fromBody body
                  sharedSecret := some (block.decode (plaintext.take ivLen))
                  macVerified := none }

/-! ### Encoding a response -/

/-- What a response needs that framing does not decide. -/
structure ResponsePlan where
  epid : EPid
  clientMachineId : Guid
  clientTime : UInt64
  count : UInt32
  intervals : Intervals
  hardwareId : Vector UInt8 8
deriving DecidableEq

inductive EncodeError where
  | bufferTooSmall (needed available : ℕ)
  | entropyUnavailable
  | missingSharedSecret
  | cipher (error : CipherError)
deriving DecidableEq

def responseHead (declared : ProtocolVersion) (plan : ResponsePlan) : ResponseHead :=
  ⟨declared.toWire, plan.epid.pidSize⟩

def responseTail (plan : ResponsePlan) : ResponseTail where
  clientMachineId := .fromGuid plan.clientMachineId
  clientTime := plan.clientTime
  count := plan.count
  activationInterval := plan.intervals.activation
  renewalInterval := plan.intervals.renewal

/-- `plan.epid.encode(out.get_mut(cursor..)?)?`. -/
def putEpid (epid : EPid) : Writer := fun out cursor =>
  (range out cursor out.length).bind fun region =>
    (epid.encode region).map fun r => (cursor + r.1, out.take cursor ++ r.2)

/-- Head, ePID and tail, at a cursor. -/
def writeBody (declared : ProtocolVersion) (plan : ResponsePlan) : Writer := fun out offset => do
  let (cursor, out) ← putAt (ResponseHead.layout.encode (responseHead declared plan)) out offset
  let (cursor, out) ← putEpid plan.epid out cursor
  putAt (ResponseTail.layout.encode (responseTail plan)) out cursor

def encodeV4 (decoded : DecodedRequest) (plan : ResponsePlan) (ciphers : Ciphers) (out : List UInt8) :
    Except EncodeError (ℕ × List UInt8) :=
  let needed := responseHeadLen + plan.epid.encodedLen + v4PostEpidLen + macLen
  let tooSmall := EncodeError.bufferTooSmall needed out.length
  match writeBody decoded.declared plan out 0 with
  | none => .error tooSmall
  | some (bodyEnd, out) =>
    match range out 0 bodyEnd with
    | none => .error tooSmall
    | some message =>
      match putAt (ciphers.mac.tag message).toList out bodyEnd with
      | none => .error tooSmall
      | some written => .ok written

/-- The salt is hashed before the secret is folded into it. -/
def writeSaltProof (D : Digests) (secret salt : Block) : Writer := fun out cursor => do
  let (cursor, out) ← putAt (xorInto salt secret).toList out cursor
  putAt (D.sha256 salt.toList).toList out cursor

/-- The tag covers everything from the response vector on, before encryption. -/
def writeV6Trailer (D : Digests) (plan : ResponsePlan) (secret : Block) (encryptStart : ℕ) : Writer :=
  fun out cursor => do
    let (cursor, out) ← putAt plan.hardwareId.toList out cursor
    let (cursor, out) ← putAt secret.toList out cursor
    let message ← range out encryptStart cursor
    putAt (V6.tag D plan.clientTime .current message).toList out cursor

/-- Version 6 draws its vector; version 5 returns the secret, which encryption
under the null vector turns back into the request's. -/
def responseIv {ε : Type} (rng : EntropySource ε) (version : Version) (secret : Block) (entropy : ε) :
    Option Block × ε :=
  if version.usesTweakedCipher then rng.fill entropy 16 else (some secret, entropy)

def encryptedPlaintextLen (version : Version) (epid : EPid) : ℕ :=
  let postEpidLen := if version.usesTweakedCipher then v6PostEpidLen else v5PostEpidLen
  ivLen + responseHeadLen + epid.encodedLen + postEpidLen

def encodeEncrypted {ε : Type} (D : Digests) (decoded : DecodedRequest) (plan : ResponsePlan)
    (ciphers : Ciphers) (rng : EntropySource ε) (entropy : ε) (out : List UInt8) :
    Except EncodeError (ℕ × List UInt8) × ε :=
  match decoded.sharedSecret, ciphers.schedule decoded.version with
  | some secret, some schedule =>
    let plaintextLen := encryptedPlaintextLen decoded.version plan.epid
    let needed := unencryptedPrefixLen + (Cbc.paddedLen plaintextLen).getD (2 ^ 64 - 1)
    let tooSmall := EncodeError.bufferTooSmall needed out.length
    if out.length < needed then (.error tooSmall, entropy)
    else
      match putAt (u32.encode decoded.declared.toWire) out 0 with
      | none => (.error tooSmall, entropy)
      | some (encryptStart, out) =>
        match responseIv rng decoded.version secret entropy with
        | (none, entropy) => (.error .entropyUnavailable, entropy)
        | (some iv, entropy) =>
          match (putAt iv.toList out encryptStart).bind fun r => writeBody decoded.declared plan r.2 r.1 with
          | none => (.error tooSmall, entropy)
          | some (cursor, out) =>
            match rng.fill entropy 16 with
            | (none, entropy) => (.error .entropyUnavailable, entropy)
            | (some salt, entropy) =>
              match (writeSaltProof D secret salt out cursor).bind fun r =>
                  if decoded.version.usesTweakedCipher then writeV6Trailer D plan secret encryptStart r.2 r.1
                  else some r with
              | none => (.error tooSmall, entropy)
              | some (_, out) =>
                match range out encryptStart out.length with
                | none => (.error tooSmall, entropy)
                | some region =>
                  match Cbc.encryptInPlace schedule .null region plaintextLen with
                  | .error error => (.error (.cipher error), entropy)
                  | .ok (ciphertextLen, region) =>
                    (.ok (encryptStart + ciphertextLen, out.take encryptStart ++ region), entropy)
  | _, _ => (.error .missingSharedSecret, entropy)

def encode {ε : Type} (D : Digests) (decoded : DecodedRequest) (plan : ResponsePlan) (ciphers : Ciphers)
    (rng : EntropySource ε) (entropy : ε) (out : List UInt8) :
    Except EncodeError (ℕ × List UInt8) × ε :=
  match decoded.version with
  | .v4 => (encodeV4 decoded plan ciphers out, entropy)
  | .v5 | .v6 => encodeEncrypted D decoded plan ciphers rng entropy out

/-! ### Encoding a request, as a client does -/

def encodeRequestDeclaring {ε : Type} (version : Version) (declared : ProtocolVersion) (body : RequestBody)
    (ciphers : Ciphers) (rng : EntropySource ε) (entropy : ε) (out : List UInt8) :
    Except EncodeError (ℕ × List UInt8) × ε :=
  let tooSmall := EncodeError.bufferTooSmall (framedRequestLen version) out.length
  if out.length < framedRequestLen version then (.error tooSmall, entropy)
  else
    match ciphers.schedule version with
    | none =>
      match putAt (RequestBody.layout.encode body) out 0 with
      | none => (.error tooSmall, entropy)
      | some (bodyEnd, out) =>
        match range out 0 bodyEnd with
        | none => (.error tooSmall, entropy)
        | some message =>
          match putAt (ciphers.mac.tag message).toList out bodyEnd with
          | none => (.error tooSmall, entropy)
          | some written => (.ok written, entropy)
    | some schedule =>
      match putAt (u32.encode declared.toWire) out 0 with
      | none => (.error tooSmall, entropy)
      | some (cursor, out) =>
        match rng.fill entropy 16 with
        | (none, entropy) => (.error .entropyUnavailable, entropy)
        | (some iv, entropy) =>
          match putAt iv.toList out cursor with
          | none => (.error tooSmall, entropy)
          | some (bodyStart, out) =>
            match putAt (RequestBody.layout.encode body) out bodyStart with
            | none => (.error tooSmall, entropy)
            | some (_, out) =>
              match range out bodyStart out.length with
              | none => (.error tooSmall, entropy)
              | some region =>
                match Cbc.encryptInPlace schedule (.block iv) region requestBodyLen with
                | .error error => (.error (.cipher error), entropy)
                | .ok (ciphertextLen, region) =>
                  (.ok (bodyStart + ciphertextLen, out.take bodyStart ++ region), entropy)

def encodeRequest {ε : Type} (version : Version) (body : RequestBody) (ciphers : Ciphers)
    (rng : EntropySource ε) (entropy : ε) (out : List UInt8) :
    Except EncodeError (ℕ × List UInt8) × ε :=
  encodeRequestDeclaring version version.toProtocolVersion body ciphers rng entropy out

/-! ### What the writers put in the buffer -/

/-- Head, ePID and tail as bytes. -/
def bodyBytes (declared : ProtocolVersion) (plan : ResponsePlan) : List UInt8 :=
  ResponseHead.layout.encode (responseHead declared plan) ++
    (plan.epid.wireBytes ++ ResponseTail.layout.encode (responseTail plan))

theorem length_bodyBytes (declared : ProtocolVersion) (plan : ResponsePlan) :
    (bodyBytes declared plan).length = responseHeadLen + plan.epid.encodedLen + responseTailLen := by
  simp only [bodyBytes, List.length_append, Layout.length_encode, EPid.length_wireBytes, responseHeadLen,
    responseTailLen]
  omega

theorem writes_putEpid (epid : EPid) : Writes (putEpid epid) epid.wireBytes := by
  intro p q h
  rw [EPid.length_wireBytes] at h
  rw [putEpid, range_suffix p q rfl, Option.bind_some, EPid.encode, if_pos h, Option.map_some, List.take_left,
    List.length_append, EPid.length_wireBytes, List.append_assoc]

theorem writes_writeBody (declared : ProtocolVersion) (plan : ResponsePlan) :
    Writes (writeBody declared plan) (bodyBytes declared plan) :=
  (writes_putAt _).seq ((writes_putEpid plan.epid).seq (writes_putAt _))

theorem writes_writeSaltProof (D : Digests) (secret salt : Block) :
    Writes (writeSaltProof D secret salt)
      ((xorInto salt secret).toList ++ (D.sha256 salt.toList).toList) :=
  (writes_putAt _).seq (writes_putAt _)

/-- The version 6 trailer after the plaintext `message` it covers. -/
def v6TrailerBytes (D : Digests) (plan : ResponsePlan) (secret : Block) (message : List UInt8) : List UInt8 :=
  plan.hardwareId.toList ++ secret.toList ++
    (V6.tag D plan.clientTime .current (message ++ (plan.hardwareId.toList ++ secret.toList))).toList

@[simp] theorem length_v6TrailerBytes (D : Digests) (plan : ResponsePlan) (secret : Block)
    (message : List UInt8) : (v6TrailerBytes D plan secret message).length = v6TrailerLen := by
  simp [v6TrailerBytes]
  rfl

/-- The trailer writer reads back what is written since `encryptStart`. -/
theorem writeV6Trailer_eq (D : Digests) (plan : ResponsePlan) (secret : Block)
    (lead message rest : List UInt8) (h : v6TrailerLen ≤ rest.length) :
    writeV6Trailer D plan secret lead.length (lead ++ message ++ rest) (lead ++ message).length =
      some ((lead ++ message ++ v6TrailerBytes D plan secret message).length,
        lead ++ message ++ v6TrailerBytes D plan secret message ++ rest.drop v6TrailerLen) := by
  have hlen : v6TrailerLen = 40 := rfl
  rw [hlen] at h
  have hids : Writes (fun out cursor => (putAt plan.hardwareId.toList out cursor).bind fun r =>
      putAt secret.toList r.2 r.1) (plan.hardwareId.toList ++ secret.toList) :=
    (writes_putAt _).seq (writes_putAt _)
  have hwritten := hids (lead ++ message) rest (by simp; omega)
  beta_reduce at hwritten
  have hmessage : range (lead ++ message ++ (plan.hardwareId.toList ++ secret.toList) ++
      rest.drop (plan.hardwareId.toList ++ secret.toList).length) lead.length
      (lead ++ message ++ (plan.hardwareId.toList ++ secret.toList)).length =
        some (message ++ (plan.hardwareId.toList ++ secret.toList)) := by
    rw [List.append_assoc lead]
    exact range_append _ _ _ rfl (List.length_append ..)
  have htag := writes_putAt
    (V6.tag D plan.clientTime .current (message ++ (plan.hardwareId.toList ++ secret.toList))).toList
    (lead ++ message ++ (plan.hardwareId.toList ++ secret.toList))
    (rest.drop (plan.hardwareId.toList ++ secret.toList).length) (by simp; omega)
  have hdrop : (plan.hardwareId.toList ++ secret.toList).length + 16 = 40 := by simp
  rw [Vector.length_toList, List.drop_drop, hdrop] at htag
  show ((putAt plan.hardwareId.toList (lead ++ message ++ rest) (lead ++ message).length).bind fun r =>
    (putAt secret.toList r.2 r.1).bind fun r => (range r.2 lead.length r.1).bind fun message =>
      putAt (V6.tag D plan.clientTime .current message).toList r.2 r.1) = _
  rw [← Option.bind_assoc, hwritten, Option.bind_some, hmessage, Option.bind_some, htag, v6TrailerBytes,
    hlen, List.append_assoc (lead ++ message)]

/-! ### Version 4 -/

def v4ResponseBytes (declared : ProtocolVersion) (plan : ResponsePlan) (ciphers : Ciphers) : List UInt8 :=
  bodyBytes declared plan ++ (ciphers.mac.tag (bodyBytes declared plan)).toList

theorem encodeV4_eq (decoded : DecodedRequest) (plan : ResponsePlan) (ciphers : Ciphers) {out : List UInt8}
    (h : (v4ResponseBytes decoded.declared plan ciphers).length ≤ out.length) :
    encodeV4 decoded plan ciphers out =
      .ok ((v4ResponseBytes decoded.declared plan ciphers).length,
        v4ResponseBytes decoded.declared plan ciphers ++
          out.drop (v4ResponseBytes decoded.declared plan ciphers).length) := by
  simp only [v4ResponseBytes, List.length_append, Vector.length_toList] at h
  have hbody := (writes_writeBody decoded.declared plan).start out (by omega)
  have htag := writes_putAt (ciphers.mac.tag (bodyBytes decoded.declared plan)).toList
    (bodyBytes decoded.declared plan) (out.drop (bodyBytes decoded.declared plan).length) (by simp; omega)
  simp only [encodeV4, hbody, range_prefix _ _ rfl, htag, v4ResponseBytes, List.drop_drop,
    List.length_append]

/-! ### Versions 5 and 6 -/

/-- The salt proof and, for version 6, the trailer that covers it. -/
def proofBytes (D : Digests) (version : Version) (plan : ResponsePlan) (secret salt : Block)
    (message : List UInt8) : List UInt8 :=
  let proof := (xorInto salt secret).toList ++ (D.sha256 salt.toList).toList
  if version.usesTweakedCipher then proof ++ v6TrailerBytes D plan secret (message ++ proof) else proof

theorem length_proofBytes (D : Digests) (version : Version) (plan : ResponsePlan) (secret salt : Block)
    (message : List UInt8) :
    (proofBytes D version plan secret salt message).length =
      if version.usesTweakedCipher then saltProofLen + v6TrailerLen else saltProofLen := by
  cases version <;> simp [proofBytes, Version.usesTweakedCipher] <;> rfl

theorem writeProofs_eq (D : Digests) (version : Version) (plan : ResponsePlan) (secret salt : Block)
    (lead message rest : List UInt8)
    (h : (proofBytes D version plan secret salt message).length ≤ rest.length) :
    ((writeSaltProof D secret salt (lead ++ message ++ rest) (lead ++ message).length).bind fun r =>
        if version.usesTweakedCipher then writeV6Trailer D plan secret lead.length r.2 r.1 else some r) =
      some ((lead ++ message ++ proofBytes D version plan secret salt message).length,
        lead ++ message ++ proofBytes D version plan secret salt message ++
          rest.drop (proofBytes D version plan secret salt message).length) := by
  have hlen := length_proofBytes D version plan secret salt message
  obtain ⟨_, _, _, hproof, htrailer, _⟩ := sizes
  have hproofLen : ((xorInto salt secret).toList ++ (D.sha256 salt.toList).toList).length = 48 := by simp
  rw [hproof, htrailer] at hlen
  have hroom : 48 ≤ rest.length := by split at hlen <;> omega
  rw [writes_writeSaltProof D secret salt (lead ++ message) rest (by omega), Option.bind_some]
  cases htweak : version.usesTweakedCipher with
  | false => simp [proofBytes, htweak]
  | true =>
    rw [htweak, if_pos rfl] at hlen
    simp only [if_true, List.append_assoc lead message]
    rw [writeV6Trailer_eq D plan secret lead _ _ (by simp [htrailer]; omega)]
    simp [proofBytes, htweak, htrailer]

/-- What is encrypted: vector, body and proofs. -/
def encryptedPlaintext (D : Digests) (version : Version) (declared : ProtocolVersion) (plan : ResponsePlan)
    (secret iv salt : Block) : List UInt8 :=
  let message := iv.toList ++ bodyBytes declared plan
  message ++ proofBytes D version plan secret salt message

theorem length_encryptedPlaintext (D : Digests) (version : Version) (declared : ProtocolVersion)
    (plan : ResponsePlan) (secret iv salt : Block) :
    (encryptedPlaintext D version declared plan secret iv salt).length =
      encryptedPlaintextLen version plan.epid := by
  simp only [encryptedPlaintext, encryptedPlaintextLen, List.length_append, length_bodyBytes,
    length_proofBytes, Vector.length_toList, ivLen, v6PostEpidLen, v5PostEpidLen]
  split <;> omega

def encryptedResponseBytes (D : Digests) (version : Version) (declared : ProtocolVersion)
    (plan : ResponsePlan) (schedule : KeySchedule) (secret iv salt : Block) : List UInt8 :=
  u32.encode declared.toWire ++ Cbc.encryptBytes schedule .null
    (Cbc.padded (encryptedPlaintext D version declared plan secret iv salt))

theorem encryptedPlaintextLen_le (version : Version) (epid : EPid) :
    encryptedPlaintextLen version epid ≤ 276 := by
  have h := epid.encodedLen_le
  obtain ⟨_, hhead, _, _, _, _, _, _, hv5, hv6, _⟩ := sizes
  simp only [pidBufferLen, pidBufferUnits] at h
  cases version <;> simp [encryptedPlaintextLen, Version.usesTweakedCipher, hhead, hv5, hv6, ivLen] <;> omega

theorem length_encryptedResponseBytes (D : Digests) (version : Version) (declared : ProtocolVersion)
    (plan : ResponsePlan) (schedule : KeySchedule) (secret iv salt : Block) :
    (encryptedResponseBytes D version declared plan schedule secret iv salt).length =
      4 + encryptedPlaintextLen version plan.epid +
        Cbc.paddingLen (encryptedPlaintextLen version plan.epid) := by
  rw [encryptedResponseBytes, List.length_append, Cbc.length_encryptBytes _ _ (Cbc.length_padded_mod _),
    Cbc.length_padded, length_encryptedPlaintext, Layout.length_encode, size_u32]
  omega

theorem encodeEncrypted_eq {ε : Type} (D : Digests) {decoded : DecodedRequest} (plan : ResponsePlan)
    {ciphers : Ciphers} {rng : EntropySource ε} {entropy entropy₁ entropy₂ : ε} {out : List UInt8}
    {schedule : KeySchedule} {secret iv salt : Block} (hsecret : decoded.sharedSecret = some secret)
    (hschedule : ciphers.schedule decoded.version = some schedule)
    (hiv : responseIv rng decoded.version secret entropy = (some iv, entropy₁))
    (hsalt : rng.fill entropy₁ 16 = (some salt, entropy₂))
    (hroom : (encryptedResponseBytes D decoded.version decoded.declared plan schedule secret iv salt).length ≤
      out.length) :
    encodeEncrypted D decoded plan ciphers rng entropy out =
      (.ok ((encryptedResponseBytes D decoded.version decoded.declared plan schedule secret iv salt).length,
        encryptedResponseBytes D decoded.version decoded.declared plan schedule secret iv salt ++
          out.drop (encryptedResponseBytes D decoded.version decoded.declared plan schedule secret iv
            salt).length), entropy₂) := by
  have hlen := length_encryptedResponseBytes D decoded.version decoded.declared plan schedule secret iv salt
  have hsmall := encryptedPlaintextLen_le decoded.version plan.epid
  have hplain := length_encryptedPlaintext D decoded.version decoded.declared plan secret iv salt
  have hword : (u32.encode decoded.declared.toWire).length = 4 := by simp
  rw [hlen] at hroom
  simp only [encryptedResponseBytes] at hlen ⊢
  simp only [encryptedPlaintext] at hlen hplain ⊢
  generalize hw : u32.encode decoded.declared.toWire = word at *
  generalize hmessage : iv.toList ++ bodyBytes decoded.declared plan = message at *
  have hsum := hplain
  rw [List.length_append] at hsum
  have hput := (writes_putAt word).start out (by omega)
  have hbody := ((writes_putAt iv.toList).seq (writes_writeBody decoded.declared plan)) word
    (out.drop word.length) (by rw [hmessage, List.length_drop]; omega)
  beta_reduce at hbody
  rw [hmessage] at hbody
  have hproof := writeProofs_eq D decoded.version plan secret salt word message
    ((out.drop word.length).drop message.length) (by rw [List.length_drop, List.length_drop]; omega)
  generalize proofBytes D decoded.version plan secret salt message = proofs at *
  have hrest : ((out.drop word.length).drop message.length).drop proofs.length =
      out.drop (4 + encryptedPlaintextLen decoded.version plan.epid) := by
    rw [List.drop_drop, List.drop_drop, hword, ← hsum]
  have hregion : range (word ++ message ++ proofs ++ out.drop (4 + encryptedPlaintextLen decoded.version plan.epid))
      word.length (word ++ message ++ proofs ++
        out.drop (4 + encryptedPlaintextLen decoded.version plan.epid)).length =
      some ((message ++ proofs) ++ out.drop (4 + encryptedPlaintextLen decoded.version plan.epid)) := by
    rw [List.append_assoc word, List.append_assoc word]
    exact range_suffix word _ rfl
  have hencrypt := Cbc.encryptInPlace_eq schedule .null (message ++ proofs)
    (out.drop (4 + encryptedPlaintextLen decoded.version plan.epid))
    (by rw [List.length_drop, hplain]; omega) (by omega)
  rw [hplain] at hencrypt
  rw [hrest] at hproof
  have hneeded : ¬ out.length < unencryptedPrefixLen + (encryptedPlaintextLen decoded.version plan.epid +
      Cbc.paddingLen (encryptedPlaintextLen decoded.version plan.epid)) := by
    simp only [unencryptedPrefixLen]
    omega
  have hpadded := Cbc.paddedLen_eq (show encryptedPlaintextLen decoded.version plan.epid + 16 < 2 ^ 64 by omega)
  have htake : (word ++ message ++ proofs ++
      out.drop (4 + encryptedPlaintextLen decoded.version plan.epid)).take word.length = word := by
    rw [List.append_assoc, List.append_assoc, List.take_left]
  simp only [encodeEncrypted, hsecret, hschedule, hpadded, Option.getD_some, if_neg hneeded, hw, hput, hiv,
    hbody, hsalt, hproof, hregion, hencrypt, hlen, htake]
  rw [hword, List.append_assoc, List.drop_drop, Nat.add_assoc]

/-! ### Requests, both ways -/

theorem length_requestBody (body : RequestBody) : (RequestBody.layout.encode body).length = requestBodyLen :=
  RequestBody.layout.length_encode body

def v4RequestBytes (body : RequestBody) (ciphers : Ciphers) : List UInt8 :=
  RequestBody.layout.encode body ++ (ciphers.mac.tag (RequestBody.layout.encode body)).toList

def encryptedRequestBytes (declared : ProtocolVersion) (body : RequestBody) (schedule : KeySchedule)
    (iv : Block) : List UInt8 :=
  u32.encode declared.toWire ++
    (iv.toList ++ Cbc.encryptBytes schedule (.block iv) (Cbc.padded (RequestBody.layout.encode body)))

theorem length_v4RequestBytes (body : RequestBody) (ciphers : Ciphers) :
    (v4RequestBytes body ciphers).length = requestV4Len := by
  rw [v4RequestBytes, List.length_append, length_requestBody, Vector.length_toList]
  rfl

theorem length_encryptedRequestBytes (declared : ProtocolVersion) (body : RequestBody)
    (schedule : KeySchedule) (iv : Block) :
    (encryptedRequestBytes declared body schedule iv).length = requestV5Len := by
  have hpad : Cbc.paddingLen requestBodyLen = 4 := by decide
  rw [encryptedRequestBytes, List.length_append, List.length_append,
    Cbc.length_encryptBytes _ _ (Cbc.length_padded_mod _), Cbc.length_padded, length_requestBody, hpad,
    Layout.length_encode, Vector.length_toList]
  rfl

theorem encodeRequest_v4_eq {ε : Type} (body : RequestBody) (ciphers : Ciphers) (rng : EntropySource ε)
    (entropy : ε) {out : List UInt8} (hroom : requestV4Len ≤ out.length) :
    encodeRequest .v4 body ciphers rng entropy out =
      (.ok (requestV4Len, v4RequestBytes body ciphers ++ out.drop requestV4Len), entropy) := by
  have hlen := length_v4RequestBytes body ciphers
  have hbodyLen := length_requestBody body
  simp only [v4RequestBytes, List.length_append, Vector.length_toList] at hlen
  have hput := (writes_putAt (RequestBody.layout.encode body)).start out (by omega)
  have htag := writes_putAt (ciphers.mac.tag (RequestBody.layout.encode body)).toList
    (RequestBody.layout.encode body) (out.drop (RequestBody.layout.encode body).length)
    (by rw [List.length_drop, Vector.length_toList]; omega)
  have hframed : ¬ out.length < framedRequestLen .v4 := by
    simp only [framedRequestLen]
    omega
  simp only [encodeRequest, encodeRequestDeclaring, if_neg hframed, Ciphers.schedule, hput,
    range_prefix _ _ rfl, htag, v4RequestBytes, List.length_append, List.drop_drop, Vector.length_toList, hlen]

theorem encodeRequest_encrypted_eq {ε : Type} {version : Version} (body : RequestBody) {ciphers : Ciphers}
    {rng : EntropySource ε} {entropy entropy₁ : ε} {out : List UInt8} {schedule : KeySchedule} {iv : Block}
    (hschedule : ciphers.schedule version = some schedule)
    (hiv : rng.fill entropy 16 = (some iv, entropy₁)) (hroom : framedRequestLen version ≤ out.length) :
    encodeRequest version body ciphers rng entropy out =
      (.ok (framedRequestLen version, encryptedRequestBytes version.toProtocolVersion body schedule iv ++
        out.drop (framedRequestLen version)), entropy₁) := by
  have hframed : framedRequestLen version = 260 := by
    cases version with
    | v4 => cases hschedule
    | v5 => rfl
    | v6 => rfl
  have hbodyLen := length_requestBody body
  have hbodyLen' : requestBodyLen = 236 := rfl
  have hpad : Cbc.paddingLen 236 = 4 := by decide
  have hword : (u32.encode version.toProtocolVersion.toWire).length = 4 := by simp
  rw [hbodyLen'] at hbodyLen
  rw [hframed] at hroom ⊢
  simp only [encryptedRequestBytes]
  generalize hw : u32.encode version.toProtocolVersion.toWire = word at *
  generalize hb : RequestBody.layout.encode body = bytes at *
  have hlead : (word ++ iv.toList).length = 20 := by simp [hword]
  have hput := (writes_putAt word).start out (by omega)
  have hputIv := writes_putAt iv.toList word (out.drop word.length) (by simp; omega)
  have hputBody := writes_putAt bytes (word ++ iv.toList) ((out.drop word.length).drop iv.toList.length)
    (by rw [List.length_drop, List.length_drop, Vector.length_toList]; omega)
  have hrest : ((out.drop word.length).drop iv.toList.length).drop bytes.length = out.drop 256 := by
    simp only [List.drop_drop, Vector.length_toList, hword, hbodyLen, Nat.reduceAdd]
  have hregion : range (word ++ iv.toList ++ bytes ++ out.drop 256) (word ++ iv.toList).length
      (word ++ iv.toList ++ bytes ++ out.drop 256).length = some (bytes ++ out.drop 256) := by
    rw [List.append_assoc (word ++ iv.toList)]
    exact range_suffix (word ++ iv.toList) _ rfl
  have hencrypt := Cbc.encryptInPlace_eq schedule (.block iv) bytes (out.drop 256)
    (by rw [hbodyLen, hpad, List.length_drop]; omega) (by omega)
  rw [hbodyLen, hpad, List.drop_drop] at hencrypt
  have htake : (word ++ iv.toList ++ bytes ++ out.drop 256).take (word ++ iv.toList).length =
      word ++ iv.toList := by
    rw [List.append_assoc _ bytes, List.take_left]
  rw [hrest] at hputBody
  have hfits : ¬ out.length < framedRequestLen version := by omega
  simp only [encodeRequest, encodeRequestDeclaring, if_neg hfits, hschedule, hw, hput, hiv, hputIv, hb,
    hputBody, hregion, hbodyLen', hencrypt, htake]
  simp only [hlead, List.append_assoc]

theorem take_requestBody (body : RequestBody) (rest : List UInt8) :
    (RequestBody.layout.encode body ++ rest).take 4 = u32.encode body.version := by
  show (((u32.encode body.version) ++ _) ++ rest).take 4 = _
  rw [List.append_assoc, List.take_left' (by simp)]

/-- What was decoded was dispatched as its version. -/
theorem dispatch_of_decode {stub : List UInt8} {ciphers : Ciphers} {decoded : DecodedRequest}
    (h : decode stub ciphers = .ok decoded) : dispatch stub = .ok (decoded.version, decoded.declared) := by
  unfold decode at h
  split at h
  · cases h
  next found declared hdispatch =>
    rw [hdispatch]
    split at h
    next hnone =>
      cases found with
      | v4 =>
        unfold decodeV4 at h
        split at h
        · cases h
        · simp only at h
          split at h
          · cases h
          · cases h
            rfl
      | v5 => cases hnone
      | v6 => cases hnone
    next schedule hschedule =>
      repeat' split at h
      all_goals cases h
      rfl

/-- What a host reads from a version 4 stub that a client framed. -/
def decodedV4 (body : RequestBody) : DecodedRequest where
  version := .v4
  declared := Version.v4.toProtocolVersion
  request := .fromBody body
  sharedSecret := none
  macVerified := some true

/-- What a host reads from an encrypted stub that a client framed. -/
def decodedEncrypted (version : Version) (body : RequestBody) (secret : Block) : DecodedRequest where
  version
  declared := version.toProtocolVersion
  request := .fromBody body
  sharedSecret := some secret
  macVerified := none

theorem decode_v4RequestBytes (body : RequestBody) (ciphers : Ciphers)
    (hversion : body.version = Version.v4.toProtocolVersion.toWire) :
    decode (v4RequestBytes body ciphers) ciphers = .ok (decodedV4 body) := by
  have hlen := length_v4RequestBytes body ciphers
  have hsplit : v4RequestBytes body ciphers =
      u32.encode Version.v4.toProtocolVersion.toWire ++ (v4RequestBytes body ciphers).drop 4 := by
    rw [← hversion, ← take_requestBody body _, ← v4RequestBytes, List.take_append_drop]
  have hdispatch : dispatch (v4RequestBytes body ciphers) = .ok (.v4, Version.v4.toProtocolVersion) := by
    rw [hsplit]
    exact dispatch_append .v4 _ (by rw [List.length_drop, hlen]; rfl)
  have hbody : (v4RequestBytes body ciphers).take requestBodyLen = RequestBody.layout.encode body :=
    List.take_left' (length_requestBody body)
  have hmac : (v4RequestBytes body ciphers).drop requestBodyLen =
      (ciphers.mac.tag (RequestBody.layout.encode body)).toList := List.drop_left' (length_requestBody body)
  have hshort : ¬ (v4RequestBytes body ciphers).length < requestBodyLen := by
    rw [hlen]
    decide
  simp only [decode, hdispatch, Ciphers.schedule, decodeV4, if_neg hshort, hbody, hmac,
    readFromBytes_encode, macLen, Vector.length_toList]
  rw [List.take_of_length_le (by simp), decode_bytes_toList]
  simp [decodedV4]

theorem decode_encryptedRequestBytes {version : Version} (body : RequestBody) {ciphers : Ciphers}
    {schedule : KeySchedule} (iv : Block) (hschedule : ciphers.schedule version = some schedule) :
    decode (encryptedRequestBytes version.toProtocolVersion body schedule iv) ciphers =
      .ok (decodedEncrypted version body (schedule.decryptBlock iv)) := by
  have hframed : framedRequestLen version = requestV5Len := by
    cases version with
    | v4 => cases hschedule
    | v5 => rfl
    | v6 => rfl
  have hlen := length_encryptedRequestBytes version.toProtocolVersion body schedule iv
  have halign := Cbc.length_padded_mod (RequestBody.layout.encode body)
  have hdispatch : dispatch (encryptedRequestBytes version.toProtocolVersion body schedule iv) =
      .ok (version, version.toProtocolVersion) := by
    refine dispatch_append version _ ?_
    rw [encryptedRequestBytes, List.length_append, length_encode, size_u32] at hlen
    rw [hframed, ← hlen]
  generalize hcipher : iv.toList ++ Cbc.encryptBytes schedule (.block iv)
    (Cbc.padded (RequestBody.layout.encode body)) = ciphertext at *
  have hciphertext : range (encryptedRequestBytes version.toProtocolVersion body schedule iv)
      unencryptedPrefixLen (encryptedRequestBytes version.toProtocolVersion body schedule iv).length =
        some ciphertext := by
    rw [encryptedRequestBytes, hcipher]
    exact range_suffix (u32.encode version.toProtocolVersion.toWire) ciphertext rfl
  have hcipherLen : ciphertext.length = 256 := by
    rw [encryptedRequestBytes, hcipher, List.length_append, length_encode, size_u32] at hlen
    have h260 : requestV5Len = 260 := rfl
    omega
  have hplain : Cbc.decryptBytes schedule .null ciphertext =
      (schedule.decryptBlock iv).toList ++ Cbc.padded (RequestBody.layout.encode body) := by
    rw [← hcipher, Cbc.decryptBytes_cons, Cbc.decryptBytes_encryptBytes _ _ halign]
    simp only [Iv.bytes, xorInto_null]
  have hbuffer : (List.replicate v6DecryptLen (0 : UInt8)).length = ciphertext.length := by
    rw [List.length_replicate, hcipherLen]
    rfl
  have hdecrypt := Cbc.decrypt_eq schedule .null (by rw [hcipherLen]) (by omega) hbuffer.ge
  rw [hplain, List.drop_eq_nil_of_le hbuffer.le, List.append_nil] at hdecrypt
  have hsecret : ((schedule.decryptBlock iv).toList ++
      Cbc.padded (RequestBody.layout.encode body)).take ivLen = (schedule.decryptBlock iv).toList :=
    List.take_left' (by simp [ivLen])
  have hpadded : ((schedule.decryptBlock iv).toList ++
      Cbc.padded (RequestBody.layout.encode body)).drop ivLen = Cbc.padded (RequestBody.layout.encode body) :=
    List.drop_left' (by simp [ivLen])
  simp only [decode, hdispatch, hschedule, hciphertext, hdecrypt, hpadded, hsecret, Cbc.stripPadding_padded,
    readFromBytes_encode, decode_bytes_toList, decodedEncrypted]

end Kmsrs.Kms
