import Kmsrs.Kms.Validate

/-! One whole exchange: the client frames a request, the host reads it and
answers, the client reads the answer and checks it against its own view of what
it sent. Entropy is whatever the two sources yield. -/

namespace Kmsrs.Kms

open Kmsrs.Layout Kmsrs.Crypto Kmsrs.Bytes

/-! ### The client's own view -/

/-- `D_k(IV)` as the client computes it: one block under the null vector. -/
def clientSecret (schedule : KeySchedule) (iv : Block) : Option Block :=
  match Cbc.decrypt schedule .null iv.toList (List.replicate 16 0) with
  | .ok plain => some (block.decode plain)
  | .error _ => none

/-- What the session remembers of the stub it sent. -/
def clientView (version : Version) (body : RequestBody) (ciphers : Ciphers) (stub : List UInt8) : Sent :=
  let requestIv := if version = .v4 then none else (range stub 4 20).map block.decode
  { version
    clientMachineId := body.clientMachineId.toGuid
    clientTime := body.clientTime
    requestIv
    sharedSecret := (ciphers.schedule version).bind fun schedule => requestIv.bind (clientSecret schedule)
    headerVersion := version.toProtocolVersion.toWire
    responseHeaderVersion := version.toProtocolVersion.toWire }

/-- A plan that echoes the machine ID and the time of the request. -/
def echoPlan (request : Request) (epid : EPid) (count : UInt32) (intervals : Intervals)
    (hardwareId : Vector UInt8 8) : ResponsePlan where
  epid
  clientMachineId := request.clientMachineId
  clientTime := request.clientTime
  count
  intervals
  hardwareId

theorem clientSecret_eq (schedule : KeySchedule) (iv : Block) :
    clientSecret schedule iv = some (schedule.decryptBlock iv) := by
  have hbuffer : (List.replicate 16 (0 : UInt8)).length = iv.toList.length := by simp
  have hdecrypt := Cbc.decrypt_eq schedule .null (by simp) (by simp) hbuffer.ge
  have hplain : Cbc.decryptBytes schedule .null iv.toList = (schedule.decryptBlock iv).toList := by
    have hcons := Cbc.decryptBytes_cons schedule .null iv []
    have hnil : Cbc.decryptBytes schedule (.block iv) [] = [] :=
      List.eq_nil_of_length_eq_zero (Cbc.length_decryptBytes _ _ rfl)
    simpa only [hnil, List.append_nil, Iv.bytes, xorInto_null] using hcons
  rw [hplain, List.drop_eq_nil_of_le hbuffer.le, List.append_nil] at hdecrypt
  simp only [clientSecret, hdecrypt, decode_bytes_toList]

/-! ### Entropy -/

/-- The source yields exactly these blocks, one 16-byte draw each. -/
def Draws {ε : Type} (rng : EntropySource ε) : ε → List Block → ε → Prop
  | e, [], e' => e = e'
  | e, b :: bs, e' => ∃ next, rng.fill e 16 = (some b, next) ∧ Draws rng next bs e'

/-- The draws a request makes: its vector, unless it is plaintext. -/
def requestDraws (version : Version) (requestIv : Block) : List Block :=
  match version with
  | .v4 => []
  | .v5 | .v6 => [requestIv]

/-- The draws a response makes: version 6 takes its vector before the salt. -/
def responseDraws (version : Version) (freshIv salt : Block) : List Block :=
  match version with
  | .v4 => []
  | .v5 => [salt]
  | .v6 => [freshIv, salt]

/-! ### Every check but the vector rules passes -/

/-- The failures that a genuine pair of vectors can still produce. -/
def VectorsCollide (ciphers : Ciphers) (version : Version) (requestIv freshIv : Block) (c : Check) : Prop :=
  match version, c with
  | .v5, .ivNotSuspicious => requestIv = Vector.replicate 16 0
  | .v6, .ivsOk => ciphers.v6.encryptBlock freshIv = requestIv
  | .v6, .ivNotSuspicious =>
    ciphers.v6.encryptBlock freshIv = requestIv ∨ ciphers.v6.encryptBlock freshIv = Vector.replicate 16 0
  | _, _ => False

theorem expectedSize_v4 (plan : ResponsePlan) (ciphers : Ciphers) (response : DecodedResponse)
    (h : response.pidBytes = plan.epid.wireBytes) (declared : ProtocolVersion) :
    (v4ResponseBytes declared plan ciphers).length = expectedSize .v4 response := by
  rw [v4ResponseBytes, List.length_append, length_bodyBytes, Vector.length_toList, expectedSize, h,
    EPid.length_wireBytes]
  rfl

theorem expectedSize_encrypted (D : Digests) {version : Version} (hversion : version ≠ .v4)
    (plan : ResponsePlan) (schedule : KeySchedule) (secret iv salt : Block) (response : DecodedResponse)
    (h : response.pidBytes = plan.epid.wireBytes) (declared : ProtocolVersion) :
    (encryptedResponseBytes D version declared plan schedule secret iv salt).length =
      expectedSize version response := by
  have hsmall := encryptedPlaintextLen_le version plan.epid
  have hpadded := Cbc.paddedLen_eq (show encryptedPlaintextLen version plan.epid + 16 < 2 ^ 64 by omega)
  have hexpected : expectedSize version response = 4 + (Cbc.paddedLen
      (encryptedPlaintextLen version plan.epid)).getD (encryptedPlaintextLen version plan.epid) := by
    cases version with
    | v4 => exact absurd rfl hversion
    | v5 | v6 =>
      simp only [expectedSize, h, EPid.length_wireBytes]
      rfl
  rw [hexpected, hpadded, length_encryptedResponseBytes, Option.getD_some, Nat.add_assoc]

/-- The response repeats what the client sent, in fields of the right size. -/
structure Echoes (sent : Sent) (plan : ResponsePlan) (response : DecodedResponse) : Prop where
  machine : sent.clientMachineId = plan.clientMachineId
  time : sent.clientTime = plan.clientTime
  header : sent.headerVersion = sent.version.toProtocolVersion.toWire
  responseHeader : sent.responseHeaderVersion = sent.version.toProtocolVersion.toWire
  inner : response.innerVersion = sent.version.toProtocolVersion
  outer : response.outerVersion = none ∨ response.outerVersion = some sent.version.toProtocolVersion
  clientMachineId : response.clientMachineId = plan.clientMachineId
  clientTime : response.clientTime = plan.clientTime
  pidBytes : response.pidBytes = plan.epid.wireBytes
  pidSize : response.pidSize = plan.epid.pidSize
  size : response.wireLen = expectedSize sent.version response

/-- The checks that do not depend on the cipher. -/
def Check.isShared : Check → Bool
  | .versionOk | .clientMachineIdOk | .timeStampOk | .sizeOk | .pidLengthOk => true
  | _ => false

theorem Echoes.outcome_ne_fail {D : Digests} {sent : Sent} {plan : ResponsePlan}
    {response : DecodedResponse} {macKey : Option (List UInt8 → Block)} (h : Echoes sent plan response)
    {c : Check} (hc : c.isShared = true) : (check D sent response macKey).outcome c ≠ .fail := by
  rw [outcome_check]
  cases c with
  | versionOk =>
    rcases h.outer with houter | houter <;>
      simp [versionOutcome, h.header, h.responseHeader, h.inner, houter]
  | clientMachineIdOk => simp [h.machine, h.clientMachineId]
  | timeStampOk => simp [h.time, h.clientTime]
  | sizeOk => simp [h.size]
  | pidLengthOk => simp [pidIsWellFormed_of_epid plan.epid h.pidBytes h.pidSize]
  | _ => cases hc

/-- The checks of a version 4 response under its tag. -/
theorem outcome_v4_ne_fail {D : Digests} {sent : Sent} {plan : ResponsePlan} {response : DecodedResponse}
    (tag : List UInt8 → Block) (h : Echoes sent plan response) (hversion : sent.version = .v4)
    (hmac : response.mac = some (tag response.macMessage)) (hproof : response.saltProof = none) (c : Check) :
    (check D sent response (some tag)).outcome c ≠ .fail := by
  cases hc : c.isShared with
  | true => exact h.outcome_ne_fail hc
  | false =>
    rw [outcome_check]
    cases c with
    | hashOk => simp [hashOutcome, hversion, hmac]
    | ivsOk => simp [ivsOutcome, hversion]
    | ivNotSuspicious => simp [ivNotSuspiciousOutcome, hversion]
    | saltProofOk => simp [saltProofOutcome, hproof, hversion]
    | decryptSuccess => simp [decryptOutcome, hversion]
    | decryptedIvOk => simp [decryptedIvOutcome, hversion]
    | hmacSha256Ok => simp [hmacOutcome, hversion]
    | _ => cases hc

/-- What an encrypted response must show to a client that knows the secret. -/
structure Proves (D : Digests) (sent : Sent) (response : DecodedResponse) (requestIv secret salt : Block) :
    Prop where
  requestIv : sent.requestIv = some requestIv
  sharedSecret : sent.sharedSecret = some secret
  saltProof : response.saltProof = some ⟨xorInto salt secret, D.sha256 salt.toList⟩
  padding : ∃ n ≤ 16, response.paddingLen = some n ∧ response.padding = List.replicate n (UInt8.ofNat n)
  trailer : sent.version = .v6 → response.decryptedRequestIv = some secret ∧
    response.hmac = some (V6.tag D sent.clientTime .current response.hmacMessage)

/-- The vector rules of a version, broken. -/
def VectorRuleBroken (version : Version) (wireIv requestIv : Block) (c : Check) : Prop :=
  match version, c with
  | .v5, .ivsOk => wireIv ≠ requestIv
  | .v5, .ivNotSuspicious => wireIv = Vector.replicate 16 0
  | .v6, .ivsOk => wireIv = requestIv
  | .v6, .ivNotSuspicious => wireIv = requestIv ∨ wireIv = Vector.replicate 16 0
  | _, _ => False

/-- The only checks an encrypted response can fail are the vector rules. -/
theorem outcome_encrypted_eq_fail {D : Digests} {sent : Sent} {plan : ResponsePlan}
    {response : DecodedResponse} {macKey : Option (List UInt8 → Block)} {wireIv requestIv secret salt : Block}
    (h : Echoes sent plan response) (hp : Proves D sent response requestIv secret salt)
    (hversion : sent.version ≠ .v4) (hwire : response.responseIv = some wireIv) (c : Check) :
    (check D sent response macKey).outcome c = .fail ↔ VectorRuleBroken sent.version wireIv requestIv c := by
  cases hc : c.isShared with
  | true =>
    refine iff_of_false (h.outcome_ne_fail hc) ?_
    cases hv : sent.version <;> cases c <;> first | exact id | cases hc
  | false =>
    rw [outcome_check]
    cases c with
    | decryptSuccess =>
      obtain ⟨n, hn, hlen, hbytes⟩ := hp.padding
      have hbyte : (UInt8.ofNat n).toNat = n := Nat.mod_eq_of_lt (by omega)
      cases hv : sent.version <;>
        simp [decryptOutcome, VectorRuleBroken, hlen, hbytes, hbyte, hv]
    | hashOk => cases hv : sent.version <;> simp_all [hashOutcome, VectorRuleBroken]
    | ivsOk => cases hv : sent.version <;> simp_all [ivsOutcome, VectorRuleBroken, hp.requestIv]
    | ivNotSuspicious => cases hv : sent.version <;>
        simp_all [ivNotSuspiciousOutcome, VectorRuleBroken, hp.requestIv, or_iff_not_imp_left]
    | saltProofOk =>
      cases hv : sent.version <;>
        simp [saltProofOutcome, VectorRuleBroken, hp.saltProof, hp.sharedSecret, xorInto_xorInto]
    | decryptedIvOk => cases hv : sent.version <;>
        simp_all [decryptedIvOutcome, VectorRuleBroken, hp.sharedSecret, hp.trailer]
    | hmacSha256Ok => cases hv : sent.version <;> simp_all [hmacOutcome, VectorRuleBroken, hp.trailer]
    | _ => cases hc

/-! ### The host's half -/

theorem length_v4ResponseBytes_le (declared : ProtocolVersion) (plan : ResponsePlan) (ciphers : Ciphers) :
    (v4ResponseBytes declared plan ciphers).length ≤ maxResponseLen := by
  have h := plan.epid.encodedLen_le
  rw [v4ResponseBytes, List.length_append, length_bodyBytes, Vector.length_toList]
  simp only [pidBufferLen, pidBufferUnits] at h
  obtain ⟨_, hhead, htail, _⟩ := sizes
  simp only [hhead, htail, maxResponseLen]
  omega

theorem length_encryptedResponseBytes_le (D : Digests) (version : Version) (declared : ProtocolVersion)
    (plan : ResponsePlan) (schedule : KeySchedule) (secret iv salt : Block) :
    (encryptedResponseBytes D version declared plan schedule secret iv salt).length ≤ maxResponseLen := by
  have h := encryptedPlaintextLen_le version plan.epid
  have hpad := Cbc.paddingLen_le (encryptedPlaintextLen version plan.epid)
  rw [length_encryptedResponseBytes, maxResponseLen]
  omega

/-- The vector a version sends back, before encryption. -/
def answerIv (version : Version) (secret freshIv : Block) : Block :=
  if version.usesTweakedCipher then freshIv else secret

/-- A host that can draw its entropy answers every decoded encrypted request. -/
theorem encodeEncrypted_of_draws {δ : Type} (D : Digests) (decoded : DecodedRequest) (plan : ResponsePlan)
    {ciphers : Ciphers} {host : EntropySource δ} {s s' : δ} {schedule : KeySchedule}
    {secret freshIv salt : Block} {out : List UInt8} (hsecret : decoded.sharedSecret = some secret)
    (hschedule : ciphers.schedule decoded.version = some schedule)
    (hdraws : Draws host s (responseDraws decoded.version freshIv salt) s')
    (hout : maxResponseLen ≤ out.length) :
    encode D decoded plan ciphers host s out =
      (.ok ((encryptedResponseBytes D decoded.version decoded.declared plan schedule secret
          (answerIv decoded.version secret freshIv) salt).length,
        encryptedResponseBytes D decoded.version decoded.declared plan schedule secret
            (answerIv decoded.version secret freshIv) salt ++
          out.drop (encryptedResponseBytes D decoded.version decoded.declared plan schedule secret
            (answerIv decoded.version secret freshIv) salt).length), s') := by
  have hroom := (length_encryptedResponseBytes_le D decoded.version decoded.declared plan schedule secret
    (answerIv decoded.version secret freshIv) salt).trans hout
  cases hv : decoded.version with
  | v4 => rw [hv] at hschedule; cases hschedule
  | v5 =>
    rw [hv] at hdraws
    obtain ⟨next, hsalt, rfl⟩ := hdraws
    have hiv : responseIv host decoded.version secret s = (some (answerIv decoded.version secret freshIv), s) := by
      rw [hv]
      rfl
    simp only [encode, hv]
    rw [encodeEncrypted_eq D plan hsecret hschedule hiv hsalt hroom, hv]
  | v6 =>
    rw [hv] at hdraws
    obtain ⟨next, hfresh, last, hsalt, rfl⟩ := hdraws
    have hiv : responseIv host decoded.version secret s =
        (some (answerIv decoded.version secret freshIv), next) := by
      rw [hv]
      exact hfresh
    simp only [encode, hv]
    rw [encodeEncrypted_eq D plan hsecret hschedule hiv hsalt hroom, hv]

/-- Every draw succeeds. -/
def EntropySource.Works {ε : Type} (rng : EntropySource ε) : Prop :=
  ∀ entropy n, ∃ bytes next, rng.fill entropy n = (some bytes, next)

/-- A decoded request is plaintext, or carries the secret and has a schedule. -/
theorem decode_encrypted {stub : List UInt8} {ciphers : Ciphers} {decoded : DecodedRequest}
    (h : decode stub ciphers = .ok decoded) :
    decoded.version = .v4 ∨ ∃ secret schedule, decoded.sharedSecret = some secret ∧
      ciphers.schedule decoded.version = some schedule := by
  unfold decode at h
  split at h
  · cases h
  next version declared hdispatch =>
    split at h
    next hnone =>
      left
      unfold decodeV4 at h
      split_ifs at h
      simp only at h
      split at h
      · cases h
      · cases h
        rfl
    next schedule hschedule =>
      right
      repeat' split at h
      all_goals cases h
      exact ⟨_, schedule, rfl, hschedule⟩

/-- The length of an answer, which the ePID varies. -/
def answerLen (version : Version) (epid : EPid) : ℕ :=
  match version with
  | .v4 => responseHeadLen + epid.encodedLen + v4PostEpidLen + macLen
  | .v5 | .v6 =>
    unencryptedPrefixLen + encryptedPlaintextLen version epid + Cbc.paddingLen (encryptedPlaintextLen version epid)

theorem answerLen_le (version : Version) (epid : EPid) : answerLen version epid ≤ 296 := by
  have hepid := epid.encodedLen_le
  obtain ⟨_, hhead, htail, _⟩ := sizes
  have hplain := encryptedPlaintextLen_le version epid
  have hpad := Cbc.paddingLen_le (encryptedPlaintextLen version epid)
  simp only [pidBufferLen, pidBufferUnits] at hepid
  cases version <;> simp only [answerLen, hhead, v4PostEpidLen, macLen, unencryptedPrefixLen] <;> omega

section
variable {ε : Type} (D : Digests) {decoded : DecodedRequest} (plan : ResponsePlan) {ciphers : Ciphers}
  {rng : EntropySource ε} {entropy entropy' : ε}

/-- What was encoded was encoded with a vector and a salt. -/
theorem draws_of_encodeEncrypted {out : List UInt8} {written : ℕ × List UInt8}
    (h : encodeEncrypted D decoded plan ciphers rng entropy out = (.ok written, entropy')) :
    ∃ secret iv salt middle, responseIv rng decoded.version secret entropy = (some iv, middle) ∧
      rng.fill middle 16 = (some salt, entropy') := by
  unfold encodeEncrypted at h
  dsimp only at h
  split at h
  next secret schedule _ _ =>
    split at h
    · cases h
    · split at h
      · cases h
      · split at h
        · cases h
        next iv middle hiv =>
          split at h
          · cases h
          · split at h
            · cases h
            next salt last hsalt =>
              refine ⟨secret, iv, salt, middle, hiv, ?_⟩
              repeat' split at h
              all_goals cases h
              exact hsalt
  · cases h

theorem draws_of_encode {out : List UInt8} {written : ℕ × List UInt8}
    (h : encode D decoded plan ciphers rng entropy out = (.ok written, entropy')) :
    ∃ freshIv salt, Draws rng entropy (responseDraws decoded.version freshIv salt) entropy' := by
  unfold encode at h
  cases hversion : decoded.version with
  | v4 =>
    rw [hversion] at h
    exact ⟨Vector.replicate 16 0, Vector.replicate 16 0, congrArg Prod.snd h⟩
  | v5 =>
    rw [hversion] at h
    obtain ⟨secret, iv, salt, middle, hiv, hsalt⟩ := draws_of_encodeEncrypted D plan h
    rw [hversion] at hiv
    cases hiv
    exact ⟨salt, salt, entropy', hsalt, rfl⟩
  | v6 =>
    rw [hversion] at h
    obtain ⟨secret, iv, salt, middle, hiv, hsalt⟩ := draws_of_encodeEncrypted D plan h
    rw [hversion] at hiv
    exact ⟨iv, salt, middle, hiv, entropy', hsalt, rfl⟩

/-- A request that was decoded is answered by a source that yields the draws, in a
payload that gives the count back. -/
theorem encode_of_draws {stub : List UInt8} (hdecode : decode stub ciphers = .ok decoded) {freshIv salt : Block}
    (hdraws : Draws rng entropy (responseDraws decoded.version freshIv salt) entropy') {out : List UInt8}
    (hout : maxResponseLen ≤ out.length) :
    ∃ response : List UInt8, response.length = answerLen decoded.version plan.epid ∧
      encode D decoded plan ciphers rng entropy out =
        (.ok (response.length, response ++ out.drop response.length), entropy') ∧
      ∀ scratch : List UInt8, response.length ≤ scratch.length → ∃ fields,
        decodeResponse decoded.version response (ciphers.schedule decoded.version) scratch = .ok fields ∧
          fields.count = plan.count := by
  have hdeclared := (dispatch_eq_ok (dispatch_of_decode hdecode)).1
  rcases decode_encrypted hdecode with hv4 | ⟨secret, schedule, hsecret, hschedule⟩
  · rw [hv4] at hdraws hdeclared ⊢
    have hsame : entropy = entropy' := hdraws
    refine ⟨v4ResponseBytes decoded.declared plan ciphers, ?_, ?_, fun scratch _ => ?_⟩
    · rw [v4ResponseBytes, List.length_append, length_bodyBytes, Vector.length_toList]
      rfl
    · have hroom := (length_v4ResponseBytes_le decoded.declared plan ciphers).trans hout
      simp only [encode, hv4]
      rw [encodeV4_eq decoded plan ciphers hroom, hsame]
    · exact ⟨plannedV4 plan ciphers, by rw [hdeclared]; exact decodeResponseV4_eq plan ciphers, rfl⟩
  · have hv : decoded.version ≠ .v4 := by
      intro hv
      rw [hv] at hschedule
      cases hschedule
    refine ⟨encryptedResponseBytes D decoded.version decoded.declared plan schedule secret
      (answerIv decoded.version secret freshIv) salt, ?_, ?_, fun scratch hscratch => ?_⟩
    · rw [length_encryptedResponseBytes]
      cases hversion : decoded.version with
      | v4 => exact absurd hversion hv
      | v5 | v6 => rfl
    · exact encodeEncrypted_of_draws D decoded plan hsecret hschedule hdraws hout
    · rw [hdeclared] at hscratch ⊢
      have hfields := decodeResponseEncrypted_eq D decoded.version plan schedule secret
        (answerIv decoded.version secret freshIv) salt hscratch
      refine ⟨plannedEncrypted D decoded.version plan schedule secret (answerIv decoded.version secret freshIv) salt,
        ?_, ?_⟩
      · rw [← hfields, hschedule]
        cases hversion : decoded.version with
        | v4 => exact absurd hversion hv
        | v5 | v6 => rfl
      · cases decoded.version <;> rfl

/-- A source that works answers every request that was decoded, in a payload with
room to spare. -/
theorem encode_of_works (entropy : ε) {stub : List UInt8} (hdecode : decode stub ciphers = .ok decoded)
    (hworks : rng.Works) :
    ∃ response rest entropy', response.length ≤ 296 ∧
      encode D decoded plan ciphers rng entropy (List.replicate maxResponseLen 0) =
        (.ok (response.length, response ++ rest), entropy') := by
  have hdraws : ∃ freshIv salt entropy', Draws rng entropy (responseDraws decoded.version freshIv salt) entropy' := by
    obtain ⟨first, entropy₁, h₁⟩ := hworks entropy 16
    obtain ⟨second, entropy₂, h₂⟩ := hworks entropy₁ 16
    cases decoded.version with
    | v4 => exact ⟨first, first, entropy, rfl⟩
    | v5 => exact ⟨first, first, entropy₁, entropy₁, h₁, rfl⟩
    | v6 => exact ⟨first, second, entropy₂, entropy₁, h₁, entropy₂, h₂, rfl⟩
  obtain ⟨freshIv, salt, entropy', hdraws⟩ := hdraws
  obtain ⟨response, hlen, hencode, -⟩ := encode_of_draws D plan hdecode hdraws
    (List.length_replicate (n := maxResponseLen) (a := (0 : UInt8))).ge
  exact ⟨response, _, entropy', hlen ▸ answerLen_le _ _, hencode⟩

end

/-! ### Both halves against each other -/

theorem clientView_encrypted {version : Version} (body : RequestBody) {ciphers : Ciphers}
    {schedule : KeySchedule} (requestIv : Block) (hschedule : ciphers.schedule version = some schedule) :
    clientView version body ciphers (encryptedRequestBytes version.toProtocolVersion body schedule requestIv) =
      { version
        clientMachineId := body.clientMachineId.toGuid
        clientTime := body.clientTime
        requestIv := some requestIv
        sharedSecret := some (schedule.decryptBlock requestIv)
        headerVersion := version.toProtocolVersion.toWire
        responseHeaderVersion := version.toProtocolVersion.toWire } := by
  have hv : version ≠ .v4 := by
    rintro rfl
    cases hschedule
  have hiv : range (encryptedRequestBytes version.toProtocolVersion body schedule requestIv) 4 20 =
      some requestIv.toList := by
    rw [encryptedRequestBytes, ← List.append_assoc]
    exact range_append _ _ _ (by simp) (by simp)
  simp only [clientView, if_neg hv, hiv, Option.map_some, decode_bytes_toList, hschedule, Option.bind_some,
    clientSecret_eq]

theorem plannedV4_echoes {sent : Sent} (plan : ResponsePlan) (ciphers : Ciphers)
    (hversion : sent.version = .v4) (hmachine : sent.clientMachineId = plan.clientMachineId)
    (htime : sent.clientTime = plan.clientTime)
    (hheader : sent.headerVersion = sent.version.toProtocolVersion.toWire)
    (hresponse : sent.responseHeaderVersion = sent.version.toProtocolVersion.toWire) :
    Echoes sent plan (plannedV4 plan ciphers) := by
  have hsize := expectedSize_v4 plan ciphers (plannedV4 plan ciphers) rfl Version.v4.toProtocolVersion
  refine ⟨hmachine, htime, hheader, hresponse, ?_, Or.inl rfl, rfl, rfl, rfl, rfl, ?_⟩
  · rw [hversion]
    rfl
  · rw [hversion]
    exact hsize

theorem plannedEncrypted_echoes (D : Digests) (sent : Sent) (plan : ResponsePlan) (schedule : KeySchedule)
    (secret iv salt : Block) (hversion : sent.version ≠ .v4)
    (hmachine : sent.clientMachineId = plan.clientMachineId) (htime : sent.clientTime = plan.clientTime)
    (hheader : sent.headerVersion = sent.version.toProtocolVersion.toWire)
    (hresponse : sent.responseHeaderVersion = sent.version.toProtocolVersion.toWire) :
    Echoes sent plan (plannedEncrypted D sent.version plan schedule secret iv salt) := by
  have hbytes : (plannedEncrypted D sent.version plan schedule secret iv salt).pidBytes =
      plan.epid.wireBytes := by
    cases hv : sent.version <;> rfl
  have hsize := expectedSize_encrypted D hversion plan schedule secret iv salt _ hbytes
    sent.version.toProtocolVersion
  refine ⟨hmachine, htime, hheader, hresponse, ?_, Or.inr ?_, ?_, ?_, hbytes, ?_, ?_⟩
  all_goals cases hv : sent.version <;> first | rfl | (rw [hv] at hsize; exact hsize)

theorem plannedEncrypted_proves (D : Digests) (sent : Sent) (plan : ResponsePlan) (schedule : KeySchedule)
    (requestIv secret iv salt : Block) (hiv : sent.requestIv = some requestIv)
    (hsecret : sent.sharedSecret = some secret) (htime : sent.clientTime = plan.clientTime) :
    Proves D sent (plannedEncrypted D sent.version plan schedule secret iv salt) requestIv secret salt := by
  refine ⟨hiv, hsecret, ?_, ⟨_, Cbc.paddingLen_le (encryptedPlaintextLen sent.version plan.epid), ?_, ?_⟩, ?_⟩
  · cases hv : sent.version <;> rfl
  · cases hv : sent.version <;> rfl
  · cases hv : sent.version <;> rfl
  · intro hv
    rw [hv, htime]
    exact ⟨rfl, rfl⟩

/-- The client's verdicts on an encrypted answer to its own request. -/
theorem outcome_answer_eq_fail (D : Digests) {version : Version} (body : RequestBody) {ciphers : Ciphers}
    {schedule : KeySchedule} (plan : ResponsePlan) (requestIv freshIv salt : Block)
    (macKey : Option (List UInt8 → Block)) (hschedule : ciphers.schedule version = some schedule)
    (hmachine : plan.clientMachineId = body.clientMachineId.toGuid) (htime : plan.clientTime = body.clientTime)
    (c : Check) :
    (check D
        (clientView version body ciphers
          (encryptedRequestBytes version.toProtocolVersion body schedule requestIv))
        (plannedEncrypted D version plan schedule (schedule.decryptBlock requestIv)
          (answerIv version (schedule.decryptBlock requestIv) freshIv) salt) macKey).outcome c = .fail ↔
      VectorsCollide ciphers version requestIv freshIv c := by
  have hv : version ≠ .v4 := by
    rintro rfl
    cases hschedule
  rw [clientView_encrypted body requestIv hschedule]
  generalize hsent : Sent.mk version body.clientMachineId.toGuid body.clientTime (some requestIv)
    (some (schedule.decryptBlock requestIv)) version.toProtocolVersion.toWire
    version.toProtocolVersion.toWire = sent
  have hversion : sent.version = version := by rw [← hsent]
  have hechoes := plannedEncrypted_echoes D sent plan schedule (schedule.decryptBlock requestIv)
    (answerIv version (schedule.decryptBlock requestIv) freshIv) salt (hversion ▸ hv)
    (by rw [← hsent, hmachine]) (by rw [← hsent, htime]) (by rw [← hsent]) (by rw [← hsent])
  have hproves := plannedEncrypted_proves D sent plan schedule requestIv (schedule.decryptBlock requestIv)
    (answerIv version (schedule.decryptBlock requestIv) freshIv) salt (by rw [← hsent]) (by rw [← hsent])
    (by rw [← hsent, htime])
  rw [hversion] at hechoes hproves
  have hwire : (plannedEncrypted D version plan schedule (schedule.decryptBlock requestIv)
      (answerIv version (schedule.decryptBlock requestIv) freshIv) salt).responseIv =
        some (schedule.encryptBlock (answerIv version (schedule.decryptBlock requestIv) freshIv)) := by
    cases version <;> rfl
  rw [outcome_encrypted_eq_fail hechoes hproves (hversion ▸ hv) hwire c, hversion]
  cases version with
  | v4 => exact absurd rfl hv
  | v5 =>
    have hecho : schedule.encryptBlock (answerIv .v5 (schedule.decryptBlock requestIv) freshIv) = requestIv :=
      schedule.encryptBlock_decryptBlock requestIv
    cases c <;> simp [VectorRuleBroken, VectorsCollide, hecho]
  | v6 =>
    cases hschedule
    cases c <;> simp [VectorRuleBroken, VectorsCollide, answerIv, Version.usesTweakedCipher]

/-- Every request a client frames is read by the host; the answer fits the
response buffer, carries the plan, and passes every check of the client save
where the vectors themselves collide. -/
theorem exchange_checks {ε δ : Type} (D : Digests) (ciphers : Ciphers) (version : Version)
    (body : RequestBody) (hversion : body.version = version.toProtocolVersion.toWire)
    (client : EntropySource ε) (host : EntropySource δ) (c c' : ε) (s s' : δ)
    (requestIv freshIv salt : Block) (hclient : Draws client c (requestDraws version requestIv) c')
    (hhost : Draws host s (responseDraws version freshIv salt) s') (epid : EPid) (count : UInt32)
    (intervals : Intervals) (hardwareId : Vector UInt8 8) (requestOut responseOut : List UInt8)
    (hrequestOut : framedRequestLen version ≤ requestOut.length)
    (hresponseOut : responseOut.length = maxResponseLen) :
    ∃ stub decoded response,
      encodeRequest version body ciphers client c requestOut =
        (.ok (stub.length, stub ++ requestOut.drop stub.length), c') ∧
      decode stub ciphers = .ok decoded ∧ decoded.request = .fromBody body ∧
      encode D decoded (echoPlan decoded.request epid count intervals hardwareId) ciphers host s responseOut =
        (.ok (response.length, response ++ responseOut.drop response.length), s') ∧
      ∀ scratch : List UInt8, response.length ≤ scratch.length → ∃ fields,
        decodeResponse version response (ciphers.schedule version) scratch = .ok fields ∧
        fields.pidBytes = (epid.units ++ [0]).flatMap u16.encode ∧
        fields.clientMachineId = decoded.request.clientMachineId ∧
        fields.clientTime = decoded.request.clientTime ∧ fields.count = count ∧
        fields.activationInterval = intervals.activation ∧ fields.renewalInterval = intervals.renewal ∧
        (version = .v6 → fields.hardwareId = some hardwareId) ∧
        ∀ check', (check D (clientView version body ciphers stub) fields (some ciphers.mac.tag)).outcome
          check' = .fail ↔ VectorsCollide ciphers version requestIv freshIv check' := by
  by_cases hv : version = .v4
  · subst hv
    cases hclient
    cases hhost
    obtain ⟨plan, hplan⟩ : ∃ plan, plan = echoPlan (.fromBody body) epid count intervals hardwareId := ⟨_, rfl⟩
    have hroom := (length_v4ResponseBytes_le Version.v4.toProtocolVersion plan ciphers).trans hresponseOut.ge
    refine ⟨v4RequestBytes body ciphers, decodedV4 body, v4ResponseBytes Version.v4.toProtocolVersion plan
      ciphers, ?_, decode_v4RequestBytes body ciphers hversion, rfl, ?_, ?_⟩
    · rw [length_v4RequestBytes]
      exact encodeRequest_v4_eq body ciphers client c hrequestOut
    · have hencode := encodeV4_eq (decodedV4 body) plan ciphers hroom
      rw [hplan] at hencode ⊢
      exact congrArg (·, s) hencode
    · intro scratch _
      refine ⟨plannedV4 plan ciphers, decodeResponseV4_eq plan ciphers, ?_⟩
      subst hplan
      refine ⟨rfl, rfl, rfl, rfl, rfl, rfl, (fun h6 => by cases h6), ?_⟩
      intro check'
      refine iff_of_false (outcome_v4_ne_fail ciphers.mac.tag
        (plannedV4_echoes _ ciphers rfl rfl rfl rfl rfl) rfl rfl rfl check') ?_
      cases check' <;> exact id
  · obtain ⟨schedule, hschedule⟩ : ∃ schedule, ciphers.schedule version = some schedule := by
      cases version with
      | v4 => exact absurd rfl hv
      | v5 => exact ⟨_, rfl⟩
      | v6 => exact ⟨_, rfl⟩
    have hdraw : requestDraws version requestIv = [requestIv] := by
      cases version with
      | v4 => exact absurd rfl hv
      | v5 => rfl
      | v6 => rfl
    rw [hdraw] at hclient
    obtain ⟨next, hiv, rfl⟩ := hclient
    have hframed : framedRequestLen version = requestV5Len := by
      cases version with
      | v4 => exact absurd rfl hv
      | v5 => rfl
      | v6 => rfl
    refine ⟨encryptedRequestBytes version.toProtocolVersion body schedule requestIv,
      decodedEncrypted version body (schedule.decryptBlock requestIv),
      encryptedResponseBytes D version version.toProtocolVersion
        (echoPlan (.fromBody body) epid count intervals hardwareId) schedule (schedule.decryptBlock requestIv)
        (answerIv version (schedule.decryptBlock requestIv) freshIv) salt, ?_,
      decode_encryptedRequestBytes body requestIv hschedule, rfl, ?_, ?_⟩
    · rw [length_encryptedRequestBytes, ← hframed]
      exact encodeRequest_encrypted_eq body hschedule hiv hrequestOut
    · exact encodeEncrypted_of_draws D (decodedEncrypted version body (schedule.decryptBlock requestIv)) _ rfl
        hschedule hhost hresponseOut.ge
    · intro scratch hscratch
      have hfields := decodeResponseEncrypted_eq D version
        (echoPlan (.fromBody body) epid count intervals hardwareId) schedule (schedule.decryptBlock requestIv)
        (answerIv version (schedule.decryptBlock requestIv) freshIv) salt hscratch
      refine ⟨_, ?read, ?_, ?_, ?_, ?_, ?_, ?_, ?hardware,
        outcome_answer_eq_fail D body (echoPlan (.fromBody body) epid count intervals hardwareId) requestIv
          freshIv salt (some ciphers.mac.tag) hschedule rfl rfl⟩
      case read =>
        rw [← hfields, hschedule]
        cases version with
        | v4 => exact absurd rfl hv
        | v5 => rfl
        | v6 => rfl
      case hardware =>
        rintro rfl
        rfl
      all_goals cases version <;> rfl

/-! ### A version 6 exchange -/

/-- A source that yields the blocks it was given, in order. -/
def listed : EntropySource (List Block) where
  fill blocks n :=
    (blocks.head?.map fun block => (Kmsrs.Layout.bytes n).decode block.toList, blocks.tail)

theorem listed_fill (b : Block) (bs : List Block) : listed.fill (b :: bs) 16 = (some b, bs) := by
  simp [listed, decode_bytes_toList]

theorem draws_listed (bs : List Block) : Draws listed bs bs [] := by
  induction bs with
  | nil => rfl
  | cons b bs ih => exact ⟨bs, listed_fill b bs, ih⟩

def sampleBody : RequestBody := RequestBody.layout.decode ([0, 0, 6, 0] ++ (List.range 232).map UInt8.ofNat)

def sampleEpid : EPid where
  units := "03612-04919-000-012345-03-1033-26100.0000-3662024".toList.map fun c => UInt16.ofNat c.toNat
  le_max := by decide +kernel
  ne_zero := by decide +kernel

def sampleRequestIv : Block := Vector.ofFn fun i => UInt8.ofNat (i + 1)

def sampleSalt : Block := Vector.ofFn fun i => UInt8.ofNat (i + 0x20)

/-- Drawn so that the vector on the wire is sixteen times `0x5A`. -/
def sampleFreshIv : Block := Ciphers.new.v6.decryptBlock (Vector.replicate 16 0x5A)

def saltDigest : List UInt8 :=
  [0x36, 0xDB, 0x1A, 0xDC, 0x80, 0x7A, 0xC5, 0x0E, 0x4C, 0x85, 0xBD, 0x86, 0xA1, 0x74, 0xB4, 0xAA,
   0x26, 0x01, 0x54, 0xE4, 0xF1, 0x72, 0xA3, 0x65, 0x96, 0x98, 0x94, 0x5D, 0x7B, 0x16, 0xD0, 0x84]

/-- Of the slot that the client time of `sampleBody` falls in. -/
def slotDigest : List UInt8 :=
  [0x29, 0x08, 0xD4, 0x7E, 0x61, 0x81, 0x22, 0x0D, 0x61, 0x2A, 0xB8, 0x32, 0xA1, 0x3F, 0x4A, 0x6A,
   0x32, 0x97, 0x6B, 0x2F, 0xC7, 0xE7, 0x84, 0x60, 0x6F, 0x3B, 0x79, 0x61, 0x87, 0x9A, 0x48, 0x4B]

/-- Of the answer to `sampleBody`, under the key of its slot. -/
def answerDigest : List UInt8 :=
  [0x56, 0xFA, 0xC4, 0x89, 0x87, 0x51, 0x53, 0x09, 0x7C, 0x92, 0xCF, 0x09, 0xDC, 0x3F, 0xAE, 0xB5,
   0x19, 0xC2, 0x47, 0x0D, 0x0C, 0xC6, 0xA7, 0xCB, 0xC3, 0x0C, 0x8A, 0xEA, 0x5B, 0x89, 0x55, 0x11]

/-- The digests of what one exchange hashes; any other input stands for itself. -/
def sampleDigests : Digests where
  sha256 data := (Kmsrs.Layout.bytes 32).decode
    (if data = sampleSalt.toList then saltDigest
    else if data = u64.encode (V6.timeSlot sampleBody.clientTime .current) then slotDigest else data)
  hmac key data := (Kmsrs.Layout.bytes 32).decode
    (if key.toList.take 16 = slotDigest.drop 16 then answerDigest else data)

/-- The two vectors of the sample are apart, and neither is all zero. -/
theorem sample_vectors (c : Check) : ¬VectorsCollide Ciphers.new .v6 sampleRequestIv sampleFreshIv c := by
  have hwire : Ciphers.new.v6.encryptBlock sampleFreshIv = Vector.replicate 16 0x5A :=
    KeySchedule.encryptBlock_decryptBlock _ _
  have hrequest : (Vector.replicate 16 0x5A : Block) ≠ sampleRequestIv := by decide
  have hzero : (Vector.replicate 16 0x5A : Block) ≠ Vector.replicate 16 0 := by decide
  cases c with
  | ivsOk => exact fun h => hrequest (hwire.symm.trans h)
  | ivNotSuspicious =>
    rintro (h | h)
    · exact hrequest (hwire.symm.trans h)
    · exact hzero (hwire.symm.trans h)
  | _ => exact id

/-- The sample goes through from end to end, and no check of the client fails. -/
theorem exchange_checks_v6 :
    ∃ stub decoded response fields,
      encodeRequest .v6 sampleBody Ciphers.new listed [sampleRequestIv] (List.replicate 260 0) =
        (.ok (stub.length, stub ++ (List.replicate 260 0).drop stub.length), []) ∧
      decode stub Ciphers.new = .ok decoded ∧ decoded.request = .fromBody sampleBody ∧
      encode sampleDigests decoded
          (echoPlan decoded.request sampleEpid 50 .default (Vector.replicate 8 1)) Ciphers.new
          listed [sampleFreshIv, sampleSalt] (List.replicate 384 0) =
        (.ok (response.length, response ++ (List.replicate 384 0).drop response.length), []) ∧
      decodeResponse .v6 response (Ciphers.new.schedule .v6) response = .ok fields ∧
      fields.pidBytes = (sampleEpid.units ++ [0]).flatMap u16.encode ∧
      fields.clientMachineId = sampleBody.clientMachineId.toGuid ∧
      fields.clientTime = sampleBody.clientTime ∧ fields.count = 50 ∧
      fields.activationInterval = 120 ∧ fields.renewalInterval = 10080 ∧
      fields.hardwareId = some (Vector.replicate 8 1) ∧
      ∀ c, (check sampleDigests (clientView .v6 sampleBody Ciphers.new stub) fields
        (some Ciphers.new.mac.tag)).outcome c ≠ .fail := by
  obtain ⟨stub, decoded, response, hrequest, hdecode, hbody, hencode, hanswer⟩ :=
    exchange_checks sampleDigests Ciphers.new .v6 sampleBody (by decide +kernel) listed listed
      [sampleRequestIv] [] [sampleFreshIv, sampleSalt] [] sampleRequestIv sampleFreshIv sampleSalt
      (draws_listed _) (draws_listed _) sampleEpid 50 .default (Vector.replicate 8 1)
      (List.replicate 260 0) (List.replicate 384 0) (by rw [List.length_replicate]; decide)
      List.length_replicate
  obtain ⟨fields, hfields, hpid, hmachine, htime, hcount, hactivation, hrenewal, hhardware, hchecks⟩ :=
    hanswer response le_rfl
  rw [hbody] at hmachine htime
  exact ⟨stub, decoded, response, fields, hrequest, hdecode, hbody, hencode, hfields, hpid, hmachine, htime,
    hcount, hactivation, hrenewal, hhardware rfl, fun c hfail => sample_vectors c ((hchecks c).mp hfail)⟩

end Kmsrs.Kms
