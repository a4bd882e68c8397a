import Kmsrs.Kms.Layout

/-! The host identity a response carries: at most 63 code units, none of them
zero, followed on the wire by the NUL that ends them. -/

namespace Kmsrs.Kms

open Kmsrs.Layout

def maxEpidUnits : ℕ := pidBufferUnits - 1

/-- The unused tail of the source's array is never read, so the name alone is
kept, with what the constructor guarantees of it. -/
structure EPid where
  units : List UInt16
  le_max : units.length ≤ maxEpidUnits
  ne_zero : ∀ unit ∈ units, unit ≠ 0
deriving DecidableEq

inductive EPidError where
  | tooLong (units limit : ℕ)
  | interiorNul
  | notBasicMultilingualPlane
deriving DecidableEq

namespace EPid

def empty : EPid := ⟨[], Nat.zero_le _, by simp⟩

/-- `units.get_mut(len)` and the write through it. -/
def push (epid : EPid) (unit : UInt16) (h : unit ≠ 0) : Option EPid :=
  if hroom : epid.units.length + 1 ≤ maxEpidUnits then
    some ⟨epid.units ++ [unit], by simpa using hroom, by
      intro u hu
      rcases List.mem_append.mp hu with hu | hu
      · exact epid.ne_zero u hu
      · rw [List.mem_singleton.mp hu]
        exact h⟩
  else none

theorem unit_ne_zero {character : Char} (hnul : character.toNat ≠ 0) (hbmp : ¬ 0xFFFF < character.toNat) :
    UInt16.ofNat character.toNat ≠ 0 := by
  intro h
  have h0 := congrArg UInt16.toNat h
  rw [UInt16.toNat_ofNat_of_lt' (by simp only [UInt16.size]; omega)] at h0
  exact hnul h0

def parseLoop (total : ℕ) : EPid → List Char → Except EPidError EPid
  | epid, [] => .ok epid
  | epid, character :: characters =>
    if hnul : character.toNat = 0 then .error .interiorNul
    else if hbmp : 0xFFFF < character.toNat then .error .notBasicMultilingualPlane
    else
      match epid.push (UInt16.ofNat character.toNat) (unit_ne_zero hnul hbmp) with
      | none => .error (.tooLong total maxEpidUnits)
      | some longer => parseLoop total longer characters

def parse (text : List Char) : Except EPidError EPid := parseLoop text.length empty text

/-! ### On the wire -/

/-- `PidSize::for_units`: the NUL counts, so 64 units do not fit. -/
def pidSizeForUnits (units : ℕ) : Option UInt32 :=
  if workstationNameUnits ≤ units then none else some (UInt32.ofNat ((units + 1) * 2))

def pidSize (epid : EPid) : UInt32 := (pidSizeForUnits epid.units.length).getD 128

def encodedLen (epid : EPid) : ℕ := (epid.units.length + 1) * 2

/-- The units and their NUL, little-endian. -/
def wireBytes (epid : EPid) : List UInt8 := (epid.units ++ [0]).flatMap u16.encode

/-- Write the name over the front of `out`. -/
def encode (epid : EPid) (out : List UInt8) : Option (ℕ × List UInt8) :=
  if epid.encodedLen ≤ out.length then
    some (epid.encodedLen, epid.wireBytes ++ out.drop epid.encodedLen)
  else none

@[simp] theorem length_wireBytes (epid : EPid) : epid.wireBytes.length = epid.encodedLen := by
  rw [wireBytes, length_flatMap_encode, List.length_append, List.length_singleton, size_u16, encodedLen]

theorem encodedLen_le (epid : EPid) : epid.encodedLen ≤ pidBufferLen := by
  have h := epid.le_max
  simp only [encodedLen, pidBufferLen, maxEpidUnits, pidBufferUnits] at h ⊢
  omega

/-- The declared size is the size written. -/
theorem toNat_pidSize (epid : EPid) : epid.pidSize.toNat = epid.encodedLen := by
  have h := epid.le_max
  simp only [maxEpidUnits, pidBufferUnits] at h
  rw [pidSize, pidSizeForUnits, if_neg (by simp only [workstationNameUnits]; omega)]
  rw [Option.getD_some, UInt32.toNat_ofNat_of_lt' (by simp only [UInt32.size]; omega), encodedLen]

end EPid

end Kmsrs.Kms
