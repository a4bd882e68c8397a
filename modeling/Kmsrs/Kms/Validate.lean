import Kmsrs.Kms.Response

/-! Checking a response against what was sent, one property at a time. Every
check is computed whatever the others say, and a property the version does not
have is not applicable rather than passed. -/

namespace Kmsrs.Kms

open Kmsrs.Layout Kmsrs.Crypto Kmsrs.Bytes

inductive Check where
  | hashOk
  | timeStampOk
  | clientMachineIdOk
  | versionOk
  | ivsOk
  | decryptSuccess
  | hmacSha256Ok
  | pidLengthOk
  | sizeOk
  | ivNotSuspicious
  | saltProofOk
  | decryptedIvOk
deriving DecidableEq, Repr

/-- Every check, in report order. -/
def Check.all : List Check :=
  [.versionOk, .clientMachineIdOk, .timeStampOk, .decryptSuccess, .hashOk, .ivsOk, .ivNotSuspicious,
    .saltProofOk, .hmacSha256Ok, .pidLengthOk, .sizeOk, .decryptedIvOk]

inductive Outcome where
  | pass
  | fail
  | notApplicable
deriving DecidableEq, Repr

/-- One outcome per check, in report order. -/
abbrev Outcomes := Vector Outcome 12

namespace Outcomes

theorem idxOf_lt (check : Check) : Check.all.idxOf check < 12 := by
  cases check <;> decide

def set (outcomes : Outcomes) (check : Check) (outcome : Outcome) : Outcomes :=
  Vector.set outcomes (Check.all.idxOf check) outcome (idxOf_lt check)

def get (outcomes : Outcomes) (check : Check) : Outcome :=
  have h := idxOf_lt check
  outcomes[Check.all.idxOf check]

theorem idxOf_inj {a b : Check} (h : Check.all.idxOf a = Check.all.idxOf b) : a = b := by
  have hmem : a ∈ Check.all := by cases a <;> decide
  exact (List.idxOf_inj hmem).mp h

theorem get_set (outcomes : Outcomes) (a b : Check) (outcome : Outcome) :
    (set outcomes a outcome).get b = if a = b then outcome else outcomes.get b := by
  simp only [get, set, Vector.getElem_set]
  by_cases h : a = b
  · rw [if_pos h, if_pos (by rw [h])]
  · rw [if_neg h, if_neg fun hidx => h (idxOf_inj hidx)]

end Outcomes

/-- The full result of checking one response. -/
structure Checks where
  outcomes : Outcomes
  expectedSize : ℕ
  actualSize : ℕ

def Checks.outcome (checks : Checks) (check : Check) : Outcome := checks.outcomes.get check

/-- Every check that failed, in report order. -/
def Checks.failures (checks : Checks) : List Check :=
  Check.all.filter fun check => checks.outcome check = .fail

/-- Whether every applicable check passed. -/
def Checks.allPassed (checks : Checks) : Bool := !checks.outcomes.toList.any (· = .fail)

/-- What the client sent. -/
structure Sent where
  version : Version
  clientMachineId : Guid
  clientTime : UInt64
  requestIv : Option Block
  sharedSecret : Option Block
  headerVersion : UInt32
  responseHeaderVersion : UInt32

def verdict (holds : Bool) : Outcome := if holds then .pass else .fail

/-! ### The single checks -/

/-- Even, non-empty, within the field, of the declared size, and a NUL only at
the end. -/
def pidIsWellFormed (response : DecodedResponse) : Bool :=
  let bytes := response.pidBytes
  if bytes.length % 2 ≠ 0 ∨ bytes.length = 0 then false
  else if (maxEpidUnits + 1) * 2 < bytes.length then false
  else if response.pidSize.toNat ≠ bytes.length then false
  else
    let units := u16.chunksExact bytes
    match units.getLast? with
    | none => false
    | some last => if last ≠ 0 then false else (units.take (bytes.length / 2 - 1)).all (· != 0)

def expectedSize (version : Version) (response : DecodedResponse) : ℕ :=
  let pidLen := response.pidBytes.length
  match version with
  | .v4 => responseHeadLen + pidLen + v4PostEpidLen + macLen
  | .v5 | .v6 =>
    let post := if version = .v6 then v6PostEpidLen else v5PostEpidLen
    let plaintext := 16 + responseHeadLen + pidLen + post
    unencryptedPrefixLen + (Cbc.paddedLen plaintext).getD plaintext

def versionOutcome (sent : Sent) (response : DecodedResponse) : Outcome :=
  let wire := sent.version.toProtocolVersion.toWire
  verdict (response.innerVersion.toWire = wire ∧ sent.headerVersion = wire ∧
    sent.responseHeaderVersion = wire ∧ response.outerVersion.all (·.toWire = wire))

/-- Decryption itself has succeeded by now; what is left is the padding. -/
def decryptOutcome (sent : Sent) (response : DecodedResponse) : Outcome :=
  if sent.version = .v4 then .notApplicable
  else verdict (response.paddingLen.any fun len =>
    response.padding.length = len ∧ response.padding.all (·.toNat = len))

def hashOutcome (sent : Sent) (response : DecodedResponse) (macKey : Option (List UInt8 → Block)) : Outcome :=
  match sent.version, response.mac, macKey with
  | .v4, some mac, some tag => verdict (tag response.macMessage = mac)
  | .v4, _, _ => .fail
  | _, _, _ => .notApplicable

def ivsOutcome (sent : Sent) (response : DecodedResponse) : Outcome :=
  match sent.version, response.responseIv, sent.requestIv with
  | .v5, some responseIv, some requestIv => verdict (responseIv = requestIv)
  | .v6, some responseIv, some requestIv => verdict (responseIv ≠ requestIv)
  | .v4, _, _ => .notApplicable
  | _, _, _ => .fail

def ivNotSuspiciousOutcome (sent : Sent) (response : DecodedResponse) : Outcome :=
  match sent.version, response.responseIv, sent.requestIv with
  | .v5, some responseIv, some _ => verdict (responseIv ≠ Vector.replicate 16 0)
  | .v6, some responseIv, some requestIv =>
    verdict (responseIv ≠ requestIv ∧ responseIv ≠ Vector.replicate 16 0)
  | .v4, _, _ => .notApplicable
  | _, _, _ => .fail

/-- The salt is recovered with the secret and hashed again. -/
def saltProofOutcome (D : Digests) (sent : Sent) (response : DecodedResponse) : Outcome :=
  match response.saltProof, sent.sharedSecret with
  | some proof, some secret => verdict (D.sha256 (xorInto proof.randomXoredIvs secret).toList = proof.hash)
  | none, _ => if sent.version = .v4 then .notApplicable else .fail
  | _, _ => .fail

def decryptedIvOutcome (sent : Sent) (response : DecodedResponse) : Outcome :=
  match sent.version, response.decryptedRequestIv, sent.sharedSecret with
  | .v6, some carried, some secret => verdict (carried = secret)
  | .v6, _, _ => .fail
  | _, _, _ => .notApplicable

def hmacOutcome (D : Digests) (sent : Sent) (response : DecodedResponse) : Outcome :=
  match sent.version, response.hmac with
  | .v6, some hmac =>
    verdict (([.current, .previous, .next] : List V6.SlotOffset).any fun offset =>
      V6.tag D sent.clientTime offset response.hmacMessage = hmac)
  | .v6, none => .fail
  | _, _ => .notApplicable

def checkCrypto (D : Digests) (outcomes : Outcomes) (sent : Sent) (response : DecodedResponse)
    (macKey : Option (List UInt8 → Block)) : Outcomes :=
  (((((outcomes.set .hashOk (hashOutcome sent response macKey)).set .ivsOk (ivsOutcome sent response)).set
    .ivNotSuspicious (ivNotSuspiciousOutcome sent response)).set .saltProofOk
      (saltProofOutcome D sent response)).set .decryptedIvOk (decryptedIvOutcome sent response)).set
        .hmacSha256Ok (hmacOutcome D sent response)

def check (D : Digests) (sent : Sent) (response : DecodedResponse) (macKey : Option (List UInt8 → Block)) :
    Checks :=
  let expected := expectedSize sent.version response
  let outcomes : Outcomes := Vector.replicate 12 .notApplicable
  let outcomes := outcomes.set .versionOk (versionOutcome sent response)
  let outcomes := outcomes.set .clientMachineIdOk (verdict (response.clientMachineId = sent.clientMachineId))
  let outcomes := outcomes.set .timeStampOk (verdict (response.clientTime = sent.clientTime))
  let outcomes := outcomes.set .sizeOk (verdict (response.wireLen = expected))
  let outcomes := outcomes.set .pidLengthOk (verdict (pidIsWellFormed response))
  let outcomes := outcomes.set .decryptSuccess (decryptOutcome sent response)
  { outcomes := checkCrypto D outcomes sent response macKey
    expectedSize := expected
    actualSize := response.wireLen }

/-- Each check reports its own property and no other. -/
theorem outcome_check (D : Digests) (sent : Sent) (response : DecodedResponse)
    (macKey : Option (List UInt8 → Block)) (c : Check) :
    (check D sent response macKey).outcome c =
      match c with
      | .versionOk => versionOutcome sent response
      | .clientMachineIdOk => verdict (response.clientMachineId = sent.clientMachineId)
      | .timeStampOk => verdict (response.clientTime = sent.clientTime)
      | .sizeOk => verdict (response.wireLen = expectedSize sent.version response)
      | .pidLengthOk => verdict (pidIsWellFormed response)
      | .decryptSuccess => decryptOutcome sent response
      | .hashOk => hashOutcome sent response macKey
      | .ivsOk => ivsOutcome sent response
      | .ivNotSuspicious => ivNotSuspiciousOutcome sent response
      | .saltProofOk => saltProofOutcome D sent response
      | .decryptedIvOk => decryptedIvOutcome sent response
      | .hmacSha256Ok => hmacOutcome D sent response := by
  cases c <;> simp [Checks.outcome, check, checkCrypto, Outcomes.get_set]

@[simp] theorem verdict_eq_fail {holds : Bool} : verdict holds = .fail ↔ holds = false := by
  cases holds <;> simp [verdict]

/-! ### An ePID as written is well formed -/

theorem pidIsWellFormed_of_epid (epid : EPid) {response : DecodedResponse}
    (hbytes : response.pidBytes = epid.wireBytes) (hsize : response.pidSize = epid.pidSize) :
    pidIsWellFormed response = true := by
  have hmax := epid.encodedLen_le
  have hlen := epid.length_wireBytes
  have hcap : (maxEpidUnits + 1) * 2 = 128 := rfl
  have hbuffer : pidBufferLen = 128 := rfl
  have hunits : u16.chunksExact epid.wireBytes = epid.units ++ [0] :=
    u16.chunksExact_flatMap (by decide) _
  have hinterior : epid.wireBytes.length / 2 - 1 = epid.units.length := by
    rw [hlen, EPid.encodedLen]
    omega
  have hodd : ¬ (epid.wireBytes.length % 2 ≠ 0 ∨ epid.wireBytes.length = 0) := by
    rw [hlen, EPid.encodedLen]
    omega
  have hdeclared : ¬ epid.pidSize.toNat ≠ epid.wireBytes.length := by
    rw [hlen, EPid.toNat_pidSize]
    simp
  simp only [pidIsWellFormed, hbytes, hsize, hunits, hinterior, if_neg hodd, if_neg hdeclared]
  rw [if_neg (by omega)]
  simpa using epid.ne_zero

end Kmsrs.Kms
