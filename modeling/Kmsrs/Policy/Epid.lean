import Kmsrs.Db.Hosts
import Kmsrs.Kms.EPid
import Kmsrs.Kms.WorkstationName
import Kmsrs.Lib.Display

/-! The text of an identity. Its fields have fixed widths, which hold just the numbers that
have no more digits. -/

namespace Kmsrs

namespace Kms

namespace EPid

theorem exists_parseLoop_eq_ok {total : ℕ} {text : Text} (h : ∀ c ∈ text, c.toNat ≠ 0 ∧ c.toNat ≤ 0xFFFF) (epid : EPid)
    (hroom : epid.units.length + text.length ≤ maxEpidUnits) : ∃ longer, parseLoop total epid text = .ok longer := by
  induction text generalizing epid with
  | nil => exact ⟨epid, rfl⟩
  | cons c text ih =>
    rw [List.forall_mem_cons] at h
    obtain ⟨⟨hnul, hbmp⟩, htext⟩ := h
    rw [List.length_cons] at hroom
    rw [parseLoop, dif_neg hnul, dif_neg (by omega), push, dif_pos (by omega)]
    exact ih htext ⟨epid.units ++ [UInt16.ofNat c.toNat], _, _⟩ (by simp; omega)

/-- A short text of characters with units is an identity. -/
theorem exists_parse_eq_ok {text : Text} (h : ∀ c ∈ text, c.toNat ≠ 0 ∧ c.toNat ≤ 0xFFFF) (hroom : text.length ≤ maxEpidUnits) :
    ∃ epid, parse text = .ok epid :=
  exists_parseLoop_eq_ok h empty (by simpa [empty] using hroom)

theorem decodeLossy_of_parseLoop {total : ℕ} {text : Text} {epid longer : EPid} (h : parseLoop total epid text = .ok longer) :
    (∀ c ∈ text, c.toNat ≤ 0xFFFF) ∧ longer.units = epid.units ++ text.map fun c => UInt16.ofNat c.toNat := by
  induction text generalizing epid with
  | nil =>
    cases h
    simp
  | cons c text ih =>
    rw [parseLoop] at h
    split_ifs at h with hnul hbmp
    rw [push] at h
    split_ifs at h with hroom
    obtain ⟨htext, hunits⟩ := ih h
    refine ⟨List.forall_mem_cons.mpr ⟨by omega, htext⟩, ?_⟩
    rw [hunits]
    simp

/-- An identity reads as the text it was made of. -/
theorem decodeLossy_of_parse {text : Text} {epid : EPid} (h : parse text = .ok epid) : decodeLossy epid.units = text := by
  obtain ⟨htext, hunits⟩ := decodeLossy_of_parseLoop h
  rw [hunits, empty, List.nil_append]
  exact decodeLossy_map htext

end EPid

end Kms

namespace Policy

open Kms Db Text

/-! ### Formatting -/

/-- The licence channel of every identity: volume. -/
def licenseChannel : Text := "03".toList

/-- `{:04}` of a signed number; the sign takes one place. -/
def paddedInt (width : ℕ) (n : ℤ) : Text := if n < 0 then '-' :: padded (width - 1) n.natAbs else padded width n.toNat

def formatEpid (build : HostBuild) (csvlk : Csvlk) (keyId : ℕ) (lcid : Lcid) (activated : Date) : Text :=
  ['-'].intercalate [padded 5 build.platformId.toNat, padded 5 csvlk.groupId.toNat, padded 3 (keyId / 1000000),
    padded 6 (keyId % 1000000), licenseChannel, decimal lcid.value.toNat, decimal build.build.toNat ++ ".0000".toList,
    padded 3 activated.dayOfYear ++ paddedInt 4 activated.year]

/-! ### The documented shape -/

/-- So many digits. -/
def isDigits (n : ℕ) (text : Text) : Bool := text.length = n && text.all Char.isDigit

/-- The platform and the group at five digits, the key at three and six, the channel, the
locale at one to five, the build that is claimed, and the day at three digits with the year
at four. -/
def shaped (build : HostBuild) (text : Text) : Bool :=
  match text.splitOn '-' with
  | [platform, group, keyHigh, keyLow, channel, lcid, claimed, date] =>
    isDigits 5 platform && isDigits 5 group && isDigits 3 keyHigh && isDigits 6 keyLow && channel = licenseChannel &&
      (1 ≤ lcid.length && isDigits (min 5 lcid.length) lcid) && claimed = decimal build.build.toNat ++ ".0000".toList &&
      isDigits (3 + 4) date
  | _ => false

theorem isDigits_decimal_iff {n width : ℕ} (hwidth : 0 < width) :
    isDigits (min width (decimal n).length) (decimal n) ↔ n < 10 ^ width := by
  have hdigits : (decimal n).all Char.isDigit := List.all_eq_true.mpr fun c hc => isDigit_decimal hc
  have hle := Nat.length_toDigits_le_iff (n := n) (by norm_num : 1 < 10) hwidth
  rw [isDigits, hdigits, Bool.and_true, decide_eq_true_eq, ← hle, decimal, eq_comm, min_eq_right_iff]

theorem isDigits_padded_iff {n width : ℕ} (hwidth : 0 < width) : isDigits width (padded width n) ↔ n < 10 ^ width := by
  have hdigits : (padded width n).all Char.isDigit := List.all_eq_true.mpr fun c hc => isDigit_padded hc
  rw [isDigits, hdigits, Bool.and_true, decide_eq_true_eq, length_padded_eq_iff hwidth]

theorem isDigits_padded_append_iff {a b m n : ℕ} (hm : 0 < m) (hn : 0 < n) :
    isDigits (m + n) (padded m a ++ padded n b) ↔ a < 10 ^ m ∧ b < 10 ^ n := by
  have hdigits : (padded m a ++ padded n b).all Char.isDigit := by
    rw [List.all_append, Bool.and_eq_true, List.all_eq_true, List.all_eq_true]
    exact ⟨fun c hc => isDigit_padded hc, fun c hc => isDigit_padded hc⟩
  have hfirst := le_length_padded m a
  have hsecond := le_length_padded n b
  rw [isDigits, hdigits, Bool.and_true, decide_eq_true_eq, List.length_append, ← length_padded_eq_iff hm,
    ← length_padded_eq_iff hn]
  omega

section
variable (build : HostBuild) (csvlk : Csvlk) (keyId : ℕ) (lcid : Lcid) (activated : Date)

theorem splitOn_formatEpid (hyear : 0 ≤ activated.year) : (formatEpid build csvlk keyId lcid activated).splitOn '-' =
    [padded 5 build.platformId.toNat, padded 5 csvlk.groupId.toNat, padded 3 (keyId / 1000000),
      padded 6 (keyId % 1000000), licenseChannel, decimal lcid.value.toNat, decimal build.build.toNat ++ ".0000".toList,
      padded 3 activated.dayOfYear ++ padded 4 activated.year.toNat] := by
  have hpadded : ∀ width n, '-' ∉ padded width n := fun width n h => absurd (isDigit_padded h) (by decide)
  have hdecimal : ∀ n, '-' ∉ decimal n := fun n h => absurd (isDigit_decimal h) (by decide)
  have hchannel : '-' ∉ licenseChannel := by decide
  have hsuffix : '-' ∉ ".0000".toList := by decide
  rw [splitOn_eq_iff]
  refine ⟨by simp, ?_, ?_⟩
  · simp only [List.forall_mem_cons, List.mem_append, not_or, hpadded, hdecimal, hchannel, hsuffix, not_false_eq_true, true_and,
      List.not_mem_nil, false_implies, implies_true]
  · rw [formatEpid, paddedInt, if_neg (by omega)]

/-- The fields that are wide enough. -/
structure FieldsFit : Prop where
  platform : build.platformId.toNat < 10 ^ 5
  group : csvlk.groupId.toNat < 10 ^ 5
  keyId : keyId < 10 ^ 9
  lcid : lcid.value.toNat < 10 ^ 5
  dayOfYear : activated.dayOfYear < 10 ^ 3
  year : activated.year < 10 ^ 4

theorem shaped_formatEpid_iff (hyear : 0 ≤ activated.year) :
    shaped build (formatEpid build csvlk keyId lcid activated) ↔ FieldsFit build csvlk keyId lcid activated := by
  have hpos : 1 ≤ (decimal lcid.value.toNat).length := Nat.length_toDigits_pos
  have hlow : keyId % 1000000 < 10 ^ 6 := Nat.mod_lt _ (by norm_num)
  have hhigh : keyId / 1000000 < 10 ^ 3 ↔ keyId < 10 ^ 9 := by omega
  rw [shaped, splitOn_formatEpid build csvlk keyId lcid activated hyear]
  simp only [Bool.and_eq_true, isDigits_padded_iff (Nat.succ_pos _), isDigits_decimal_iff (Nat.succ_pos _),
    isDigits_padded_append_iff (Nat.succ_pos _) (Nat.succ_pos _), hlow, hhigh, hpos, decide_true, and_true, true_and]
  constructor
  · rintro ⟨⟨⟨⟨hplatform, hgroup⟩, hkey⟩, hlcid⟩, hday, hlast⟩
    exact ⟨hplatform, hgroup, hkey, hlcid, hday, by omega⟩
  · rintro ⟨hplatform, hgroup, hkey, hlcid, hday, hlast⟩
    exact ⟨⟨⟨⟨hplatform, hgroup⟩, hkey⟩, hlcid⟩, hday, by omega⟩

variable {build csvlk keyId lcid activated} in
/-- What fits its fields fits the wire. -/
theorem exists_parse_formatEpid (hyear : 0 ≤ activated.year) (h : FieldsFit build csvlk keyId lcid activated) :
    ∃ epid, EPid.parse (formatEpid build csvlk keyId lcid activated) = .ok epid := by
  have hdigit : ∀ c : Char, c.isDigit → c.toNat ≠ 0 ∧ c.toNat ≤ 0xFFFF := by
    intro c hc
    obtain ⟨hzero, hnine⟩ := Char.isDigit_iff_toNat.mp hc
    exact ⟨ne_of_gt (lt_of_lt_of_le (by decide) hzero), hnine.trans (by decide)⟩
  have hpadded : ∀ width n, ∀ c ∈ padded width n, c.toNat ≠ 0 ∧ c.toNat ≤ 0xFFFF := fun _ _ c hc => hdigit c (isDigit_padded hc)
  have hdecimal : ∀ n, ∀ c ∈ decimal n, c.toNat ≠ 0 ∧ c.toNat ≤ 0xFFFF := fun _ c hc => hdigit c (isDigit_decimal hc)
  have hchannel : ∀ c ∈ licenseChannel, c.toNat ≠ 0 ∧ c.toNat ≤ 0xFFFF := by decide
  have hsuffix : ∀ c ∈ ".0000".toList, c.toNat ≠ 0 ∧ c.toNat ≤ 0xFFFF := by decide
  have hlength : ∀ width n, 0 < width → n < 10 ^ width → (padded width n).length = width := fun _ _ hpos hlt =>
    (length_padded_eq_iff hpos).mpr hlt
  have hlcid : (decimal lcid.value.toNat).length ≤ 5 := (Nat.length_toDigits_le_iff (by norm_num) (by norm_num)).mpr h.lcid
  have hbuild : (decimal build.build.toNat).length ≤ 10 :=
    (Nat.length_toDigits_le_iff (by norm_num) (by norm_num)).mpr (build.build.toNat_lt.trans (by norm_num))
  have hkey := h.keyId
  have hlast := h.year
  have hchannelLength : licenseChannel.length = 2 := rfl
  have hsuffixLength : ".0000".toList.length = 5 := rfl
  rw [formatEpid, paddedInt, if_neg (by omega)]
  apply EPid.exists_parse_eq_ok
  · refine forall_mem_intercalate (by decide) ?_
    simp only [List.forall_mem_cons, List.forall_mem_append]
    exact ⟨hpadded _ _, hpadded _ _, hpadded _ _, hpadded _ _, hchannel, hdecimal _, ⟨hdecimal _, hsuffix⟩,
      ⟨hpadded _ _, hpadded _ _⟩, List.forall_mem_nil _⟩
  · simp only [List.intercalate, List.intersperse_cons_cons, List.intersperse_singleton, List.flatten_cons, List.flatten_nil,
      List.length_append, List.length_cons, List.length_nil, hchannelLength, hsuffixLength, hlength 5 _ (by norm_num) h.platform,
      hlength 5 _ (by norm_num) h.group, hlength 3 (keyId / 1000000) (by norm_num) (by omega),
      hlength 6 (keyId % 1000000) (by norm_num) (by omega), hlength 3 _ (by norm_num) h.dayOfYear,
      hlength 4 activated.year.toNat (by norm_num) (by omega), maxEpidUnits, pidBufferUnits]
    omega

end

end Policy

end Kmsrs
