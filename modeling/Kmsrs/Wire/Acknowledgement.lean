import Kmsrs.Wire.Bind

/-! The bytes of an acknowledgement and of a refusal: written whole when they
fit the buffer, and of the length that their header declares. -/

namespace Kmsrs.Wire.Bind

open Kmsrs.Layout Kmsrs.Bytes Kmsrs.Kms

/-! ### Refusal -/

def nakBytes (callId : UInt32) (reason : NakReason) : List UInt8 :=
  (nakFields callId reason (UInt16.ofNat nakLen)).flatten

theorem length_nakBytes (callId : UInt32) (reason : NakReason) : (nakBytes callId reason).length = nakLen := by
  simp [nakBytes, nakFields, nakLen, supportedVersions, headerLen]

theorem writeNak_eq (callId : UInt32) (reason : NakReason) (out : List UInt8) :
    writeNak callId reason out =
      if nakLen ≤ out.length then .ok (nakLen, nakBytes callId reason ++ out.drop nakLen)
      else .error (.bufferTooSmall nakLen out.length) := by
  have hlen := length_nakBytes callId reason
  unfold writeNak
  by_cases hroom : nakLen ≤ out.length
  · have hwrites := (writes_putAll (nakFields callId reason (UInt16.ofNat nakLen))).start out
      (hlen.trans_le hroom)
    simp only [if_neg (Nat.not_lt.mpr hroom), if_pos hroom, u16TryFrom_eq_some (show nakLen < 2 ^ 16 by decide),
      hwrites]
    rw [← nakBytes, hlen]
  · simp only [if_pos (Nat.lt_of_not_le hroom), if_neg hroom]

/-! ### Acknowledgement -/

def ackBytes (parameters : AckParameters) (noise : List UInt8) (decision : BindDecision) : List UInt8 :=
  (parameters.headFields (UInt16.ofNat (parameters.ackLen decision.results.length))).flatten ++
    (tailFields noise decision).flatten

variable {ε : Type} {rng : EntropySource ε} {entropy : ε} {parameters : AckParameters}

theorem length_headFields (fragLength : UInt16) :
    (parameters.headFields fragLength).flatten.length = parameters.beforePadding := by
  unfold AckParameters.headFields AckParameters.beforePadding AckParameters.addressLen
  cases hempty : parameters.secondaryAddress.isEmpty
  · simp [ackPrefixLen, headerLen]
    omega
  · simp [ackPrefixLen, headerLen]

theorem length_resultFields (result : ContextResult) : (resultFields result).flatten.length = resultLen := by
  simp [resultFields, resultLen, WireGuid.layout, Layout.iso]

theorem length_tailFields (noise : List UInt8) (decision : BindDecision) :
    (tailFields noise decision).flatten.length = noise.length + 4 + decision.results.length * resultLen := by
  have hresults : ((decision.results.items.flatMap resultFields).flatten).length =
      decision.results.length * resultLen := by
    unfold ArrayVec.length
    induction decision.results.items with
    | nil => simp
    | cons result results ih =>
      simp only [List.flatMap_cons, List.flatten_append, List.length_append, length_resultFields, ih,
        List.length_cons]
      ring
  rw [tailFields, List.flatten_append, List.length_append, hresults]
  simp

theorem length_ackBytes {noise : List UInt8} (decision : BindDecision) (h : noise.length = parameters.padding) :
    (ackBytes parameters noise decision).length = parameters.ackLen decision.results.length := by
  rw [ackBytes, List.length_append, length_headFields, length_tailFields, h, AckParameters.ackLen]
  omega

/-- An address that fits its field leaves the whole far below the length limit. -/
theorem ackLen_le (h : parameters.addressLen ≤ maxSecondaryAddressLen) (decision : BindDecision) :
    parameters.ackLen decision.results.length ≤ 36 + decision.results.length * resultLen := by
  simp only [AckParameters.ackLen, AckParameters.padding, alignPadding, AckParameters.beforePadding, headerLen,
    ackPrefixLen, maxSecondaryAddressLen] at h ⊢
  omega

theorem ackLen_lt (h : parameters.addressLen ≤ maxSecondaryAddressLen) (decision : BindDecision) :
    parameters.ackLen decision.results.length < 2 ^ 16 := by
  have hle := ackLen_le h decision
  have hcap := decision.results.le_cap
  simp only [ArrayVec.length, maxContextItems, resultLen] at hle hcap ⊢
  omega

theorem length_drawNoise {noise : List UInt8} {padding : ℕ} {entropy' : ε}
    (h : drawNoise rng entropy padding = (some noise, entropy')) : noise.length = padding := by
  unfold drawNoise at h
  split at h
  next =>
    obtain ⟨drawn, -, rfl⟩ := Option.map_eq_some_iff.mp (Prod.mk.inj h).1
    exact Vector.length_toList
  next hzero =>
    cases h
    simp only [List.length_nil]
    omega

/-- Room and entropy are all it takes. -/
theorem writeAck_eq (h : parameters.addressLen ≤ maxSecondaryAddressLen) (decision : BindDecision)
    (out : List UInt8) : writeAck parameters decision rng entropy out =
      if parameters.ackLen decision.results.length ≤ out.length then
        match drawNoise rng entropy parameters.padding with
        | (none, entropy) => (.error .entropyUnavailable, entropy)
        | (some noise, entropy) =>
          (.ok (parameters.ackLen decision.results.length, ackBytes parameters noise decision ++
            out.drop (parameters.ackLen decision.results.length)), entropy)
      else (.error (.bufferTooSmall (parameters.ackLen decision.results.length) out.length), entropy) := by
  unfold writeAck
  rw [if_neg (Nat.not_lt.mpr h)]
  by_cases hroom : parameters.ackLen decision.results.length ≤ out.length
  · have hhead := (writes_putAll (parameters.headFields
      (UInt16.ofNat (parameters.ackLen decision.results.length)))).start out (by
        rw [length_headFields]
        unfold AckParameters.ackLen at hroom
        omega)
    simp only [if_neg (Nat.not_lt.mpr hroom), if_pos hroom, u16TryFrom_eq_some (ackLen_lt h decision), hhead]
    cases hnoise : drawNoise rng entropy parameters.padding with
    | mk drawn entropy' =>
      cases drawn with
      | none => rfl
      | some noise =>
        have hlen := length_ackBytes decision (length_drawNoise hnoise)
        have htail := writes_putAll (tailFields noise decision)
          (parameters.headFields (UInt16.ofNat (parameters.ackLen decision.results.length))).flatten
          (out.drop (parameters.headFields
            (UInt16.ofNat (parameters.ackLen decision.results.length))).flatten.length) (by
              rw [ackBytes, List.length_append] at hlen
              rw [List.length_drop]
              omega)
        simp only [htail, List.drop_drop, ← List.length_append]
        rw [← ackBytes, hlen]
  · simp only [if_pos (Nat.lt_of_not_le hroom), if_neg hroom]

end Kmsrs.Wire.Bind
