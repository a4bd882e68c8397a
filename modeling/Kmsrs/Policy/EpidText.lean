import Kmsrs.Db.DayCount
import Kmsrs.Policy.Epid

/-! An identity is read back from its text: the hyphens stand only between the fields, and
each field is the digits of its number. -/

namespace Kmsrs

namespace Text

/-- Zeros in front make no other number. -/
theorem ofDigitChars_padded (width n : ℕ) : Nat.ofDigitChars 10 (padded width n) 0 = n := by
  rw [padded, List.leftpad, Nat.ofDigitChars_append, Nat.ofDigitChars_replicate_zero, Nat.mul_zero, decimal,
    Nat.ofDigitChars_ten_toDigits]

theorem ofDigitChars_decimal (n : ℕ) : Nat.ofDigitChars 10 (decimal n) 0 = n := Nat.ofDigitChars_ten_toDigits

theorem count_eq_zero_of_digits {text : Text} (h : ∀ c ∈ text, c.isDigit) : text.count '.' = 0 :=
  List.count_eq_zero.mpr fun hdot => absurd (h '.' hdot) (by decide)

end Text

namespace Policy

open Kms Db Text

/-- What an identity says. -/
structure EpidFields where
  platformId : ℕ
  groupId : ℕ
  keyId : ℕ
  lcid : ℕ
  build : ℕ
  dayOfYear : ℕ
  year : ℕ
deriving DecidableEq

/-- Read the fields of an identity. -/
def readEpid (text : Text) : Option EpidFields :=
  let number := fun digits : Text => Nat.ofDigitChars 10 digits 0
  match text.splitOn '-' with
  | [platform, group, keyHigh, keyLow, _, lcid, claimed, date] =>
    some
      { platformId := number platform
        groupId := number group
        keyId := number keyHigh * 1000000 + number keyLow
        lcid := number lcid
        build := number (claimed.takeWhile (· ≠ '.'))
        dayOfYear := number (date.take 3)
        year := number (date.drop 3) }
  | _ => none

section
variable {build : HostBuild} {csvlk : Csvlk} {keyId : ℕ} {lcid : Lcid} {activated : Date}

theorem readEpid_formatEpid (hyear : 0 ≤ activated.year) (h : FieldsFit build csvlk keyId lcid activated) :
    readEpid (formatEpid build csvlk keyId lcid activated) = some
      { platformId := build.platformId.toNat
        groupId := csvlk.groupId.toNat
        keyId
        lcid := lcid.value.toNat
        build := build.build.toNat
        dayOfYear := activated.dayOfYear
        year := activated.year.toNat } := by
  have hday : (padded 3 activated.dayOfYear).length = 3 := (length_padded_eq_iff (by norm_num)).mpr h.dayOfYear
  have hbuild : (decimal build.build.toNat ++ ".0000".toList).takeWhile (· ≠ '.') = decimal build.build.toNat := by
    refine List.takeWhile_append_of_pos ?_ |>.trans ?_
    · intro c hc
      exact decide_eq_true fun hdot => absurd (hdot ▸ isDigit_decimal hc) (by decide)
    · rw [show (".0000".toList.takeWhile (· ≠ '.')) = [] from rfl, List.append_nil]
  have hkey : keyId / 1000000 * 1000000 + keyId % 1000000 = keyId := Nat.div_add_mod' keyId 1000000
  rw [readEpid, splitOn_formatEpid build csvlk keyId lcid activated hyear]
  simp only [ofDigitChars_padded, ofDigitChars_decimal, hbuild, hkey, List.take_left' hday, List.drop_left' hday]

/-- Digits and hyphens, and the one dot of the build. -/
theorem chars_formatEpid (hyear : 0 ≤ activated.year) :
    (∀ c ∈ formatEpid build csvlk keyId lcid activated, c.isDigit ∨ c = '-' ∨ c = '.') ∧
      (formatEpid build csvlk keyId lcid activated).count '.' = 1 := by
  have hpadded : ∀ width n, (padded width n).count '.' = 0 := fun _ _ => count_eq_zero_of_digits fun _ => isDigit_padded
  have hdecimal : ∀ n, (decimal n).count '.' = 0 := fun _ => count_eq_zero_of_digits fun _ => isDigit_decimal
  have hdigits : ∀ width n, ∀ c ∈ padded width n, c.isDigit ∨ c = '-' ∨ c = '.' := fun _ _ c hc => .inl (isDigit_padded hc)
  have hdigits' : ∀ n, ∀ c ∈ decimal n, c.isDigit ∨ c = '-' ∨ c = '.' := fun _ c hc => .inl (isDigit_decimal hc)
  have hchannel : licenseChannel.count '.' = 0 := by decide
  rw [formatEpid, paddedInt, if_neg (by omega)]
  constructor
  · refine forall_mem_intercalate (by decide) ?_
    simp only [List.forall_mem_cons, List.forall_mem_append]
    exact ⟨hdigits _ _, hdigits _ _, hdigits _ _, hdigits _ _, by decide, hdigits' _, ⟨hdigits' _, by decide⟩,
      ⟨hdigits _ _, hdigits _ _⟩, List.forall_mem_nil _⟩
  · simp [List.intercalate, hpadded, hdecimal, hchannel]

/-- What an identity on the wire is: its characters, a unit each, then a zero. -/
structure WellFormed (text : Text) (epid : EPid) : Prop where
  parsed : EPid.parse text = .ok epid
  units : epid.units = text.map fun c => UInt16.ofNat c.toNat
  short : epid.units.length ≤ 63
  chars : ∀ c ∈ text, c.isDigit ∨ c = '-' ∨ c = '.'
  dots : text.count '.' = 1
  encoded : ∀ out : List UInt8, 2 * (epid.units.length + 1) ≤ out.length → epid.encode out =
    some (2 * (epid.units.length + 1), (epid.units ++ [0]).flatMap Layout.u16.encode ++ out.drop (2 * (epid.units.length + 1)))

theorem wellFormed_formatEpid (hyear : 0 ≤ activated.year) (h : FieldsFit build csvlk keyId lcid activated) :
    ∃ epid, WellFormed (formatEpid build csvlk keyId lcid activated) epid := by
  obtain ⟨epid, hparse⟩ := exists_parse_formatEpid hyear h
  obtain ⟨hchars, hdots⟩ := @chars_formatEpid build csvlk keyId lcid _ hyear
  have hlength : epid.encodedLen = 2 * (epid.units.length + 1) := Nat.mul_comm _ _
  refine ⟨epid, hparse, (EPid.decodeLossy_of_parseLoop hparse).2, epid.le_max, hchars, hdots, fun out hout => ?_⟩
  rw [EPid.encode, hlength, if_pos hout, EPid.wireBytes]

/-- The fields of a valid date and of numbers that are short enough fit. -/
theorem fieldsFit_of_valid (hplatform : build.platformId.toNat < 10 ^ 5) (hgroup : csvlk.groupId.toNat < 10 ^ 5)
    (hlcid : lcid.value.toNat < 10 ^ 5) (hkey : keyId < 10 ^ 9) (hvalid : activated.Valid) (hfirst : 1601 ≤ activated.year)
    (hlast : activated.year ≤ 9999) : FieldsFit build csvlk keyId lcid activated := by
  have hday := Date.dayOfYear_eq hvalid (by omega) (by omega)
  have hlong := Date.daysBefore_add_day_le hvalid
  have hpos := (Date.valid_iff.mp hvalid).2.1
  refine ⟨hplatform, hgroup, hkey, hlcid, ?_, by omega⟩
  split_ifs at hlong <;> omega

/-- The identities that are made are well formed, and say what they were made of. -/
theorem epid_wellFormed (hplatform : build.platformId.toNat < 10 ^ 5) (hgroup : csvlk.groupId.toNat < 10 ^ 5)
    (hlcid : lcid.value.toNat < 10 ^ 5) (hkey : keyId < 10 ^ 9) (hvalid : activated.Valid) (hfirst : 1601 ≤ activated.year)
    (hlast : activated.year ≤ 9999) :
    ∃ epid, WellFormed (formatEpid build csvlk keyId lcid activated) epid ∧
      readEpid (decodeLossy epid.units) = some
        { platformId := build.platformId.toNat
          groupId := csvlk.groupId.toNat
          keyId
          lcid := lcid.value.toNat
          build := build.build.toNat
          dayOfYear := activated.dayOfYear
          year := activated.year.toNat } := by
  have hfit := fieldsFit_of_valid hplatform hgroup hlcid hkey hvalid hfirst hlast
  obtain ⟨epid, hformed⟩ := wellFormed_formatEpid (by omega) hfit
  refine ⟨epid, hformed, ?_⟩
  rw [EPid.decodeLossy_of_parse hformed.parsed]
  exact readEpid_formatEpid (by omega) hfit

end

/-- A build, a host key and a locale as they are in the tables. -/
def server2025Build : HostBuild := ⟨26100, 3612, some ⟨2024, 11, 1⟩, true, true, "Windows Server 2025"⟩

def server2025Key : Csvlk :=
  { activationId := Vector.replicate 16 0
    groupId := 4919
    description := "Windows Server 2025"
    application := none
    keyBlocks := [⟨0, 19999⟩]
    countedIds := [] }

def englishLcid : Lcid := ⟨1033, "en-US", "English", "United States"⟩

theorem epid_wellFormed_server2025 : ∃ epid,
    WellFormed (formatEpid server2025Build server2025Key 12345678 englishLcid ⟨2024, 12, 31⟩) epid ∧
      readEpid (decodeLossy epid.units) = some ⟨3612, 4919, 12345678, 1033, 26100, 366, 2024⟩ :=
  epid_wellFormed (by decide) (by decide) (by decide) (by decide) (by decide) (by decide) (by decide)

end Policy

end Kmsrs
