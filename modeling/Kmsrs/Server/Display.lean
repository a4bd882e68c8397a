import Kmsrs.Db.Build
import Kmsrs.Lib.Display
import Kmsrs.Os.Dhcp
import Kmsrs.Policy.Events

/-! Identifiers, addresses and states as the log writes them. -/

namespace Kmsrs

open Text

/-! ### Identifiers -/

namespace Kms.Guid

/-- The two lowercase digits of a byte. -/
def hexDigits (byte : UInt8) : Text := [Nat.digitChar (byte.toNat / 16), Nat.digitChar (byte.toNat % 16)]

/-- The canonical lowercase form, without braces. -/
def display (guid : Guid) : Text :=
  guid.toList.zipIdx.flatMap fun (byte, index) => (if index ∈ [4, 6, 8, 10] then ['-'] else []) ++ hexDigits byte

theorem hexByte_hexDigits (byte : UInt8) :
    Db.hexByte (Nat.digitChar (byte.toNat / 16)) (Nat.digitChar (byte.toNat % 16)) = some byte := by
  have hall : ∀ n < 256, Db.hexByte (Nat.digitChar (n / 16)) (Nat.digitChar (n % 16)) = some (.ofNat n) := by
    decide +kernel
  rw [hall byte.toNat byte.toNat_lt, UInt8.ofNat_toNat]

theorem hexBytes_flatMap (bytes : List UInt8) : Db.hexBytes (bytes.flatMap hexDigits) = some bytes := by
  induction bytes with
  | nil => rfl
  | cons byte bytes ih =>
    rw [List.flatMap_cons, hexDigits, List.cons_append, List.cons_append, List.nil_append, Db.hexBytes,
      hexByte_hexDigits, ih]
    rfl

theorem hexDigits_ne_hyphen (byte : UInt8) : ∀ c ∈ hexDigits byte, c ≠ '-' := by
  have hall : ∀ digit < 16, Nat.digitChar digit ≠ '-' := by decide
  have hlt := byte.toNat_lt
  simp only [hexDigits, List.forall_mem_cons, List.not_mem_nil, false_implies, implies_true, and_true]
  exact ⟨hall _ (by omega), hall _ (by omega)⟩

theorem filter_display (bytes : List (UInt8 × ℕ)) :
    (bytes.flatMap fun (byte, index) => (if index ∈ [4, 6, 8, 10] then ['-'] else []) ++ hexDigits byte).filter (· ≠ '-') =
      (bytes.map Prod.fst).flatMap hexDigits := by
  induction bytes with
  | nil => rfl
  | cons entry bytes ih =>
    have hdigits : (hexDigits entry.1).filter (· ≠ '-') = hexDigits entry.1 :=
      List.filter_eq_self.mpr fun c hc => decide_eq_true (hexDigits_ne_hyphen entry.1 c hc)
    have hhyphen : (if entry.2 ∈ [4, 6, 8, 10] then ['-'] else []).filter (· ≠ '-') = [] := by split_ifs <;> rfl
    rw [List.flatMap_cons, List.filter_append, List.filter_append, ih, hdigits, hhyphen, List.map_cons, List.flatMap_cons,
      List.nil_append]

/-- A displayed identifier reads back. -/
theorem parseGuid_display (guid : Guid) : Db.parseGuid (String.ofList guid.display) = some guid := by
  rw [Db.parseGuid, String.toList_ofList, display, filter_display, List.zipIdx_map_fst, hexBytes_flatMap]
  simp [Vector.toList]

theorem printable_display (guid : Guid) : Printable guid.display := by
  refine printable_flatMap fun entry _ => ?_
  have hlt := entry.1.toNat_lt
  rw [printable_append]
  refine ⟨by split_ifs <;> decide, printable_cons.mpr ⟨?_, printable_cons.mpr ⟨?_, printable_nil⟩⟩⟩
  · exact (digitChar_printable _ (by omega)).1
  · exact (digitChar_printable _ (by omega)).1

end Kms.Guid

/-! ### Addresses -/

namespace Policy.Access

/-- The words of an IPv6 address. -/
def segments (octets : Vector UInt8 16) : List ℕ :=
  (List.range 8).map fun i => 256 * (octets.toList.getD (2 * i) 0).toNat + (octets.toList.getD (2 * i + 1) 0).toNat

/-- Some words of an address that follow each other. -/
structure Span where
  start : ℕ
  len : ℕ

/-- The first of the longest runs of zeros, from the run found so far and the one
that goes on. -/
def longestZeros (longest current : Span) : ℕ → List ℕ → Span
  | _, [] => longest
  | index, segment :: segments =>
    if segment = 0 then
      let current : Span := ⟨if current.len = 0 then index else current.start, current.len + 1⟩
      longestZeros (if longest.len < current.len then current else longest) current (index + 1) segments
    else longestZeros longest ⟨0, 0⟩ (index + 1) segments

def displaySegments (segments : List ℕ) : Text := List.intercalate [':'] (segments.map hex)

/-- `Display` of an address: the longest run of zero words is left out. -/
def IpAddr.display : IpAddr → Text
  | .v4 octets => Os.Ipv4Addr.display octets
  | .v6 octets =>
    match toIpv4Mapped octets with
    | some mapped => "::ffff:".toList ++ Os.Ipv4Addr.display mapped
    | none =>
      let words := segments octets
      let zeros := longestZeros ⟨0, 0⟩ ⟨0, 0⟩ 0 words
      if 1 < zeros.len then
        displaySegments (words.take zeros.start) ++ "::".toList ++ displaySegments (words.drop (zeros.start + zeros.len))
      else displaySegments words

section Characters

variable {p : Char → Prop} (hdigit : ∀ digit < 16, p (Nat.digitChar digit)) (hdot : p '.') (hcolon : p ':')

include hdigit hdot in
theorem forall_mem_ipv4 (octets : Os.Ipv4Addr) : ∀ c ∈ octets.display, p c := by
  refine forall_mem_intercalate (List.forall_mem_singleton.mpr hdot) fun part hpart => ?_
  obtain ⟨octet, -, rfl⟩ := List.mem_map.mp hpart
  exact forall_mem_decimal hdigit _

include hdigit hcolon in
theorem forall_mem_displaySegments (segments : List ℕ) : ∀ c ∈ displaySegments segments, p c := by
  refine forall_mem_intercalate (List.forall_mem_singleton.mpr hcolon) fun part hpart => ?_
  obtain ⟨segment, -, rfl⟩ := List.mem_map.mp hpart
  exact forall_mem_hex hdigit segment

include hdigit hdot hcolon in
/-- An address is displayed in digits, points and colons. -/
theorem IpAddr.forall_mem_display (address : IpAddr) : ∀ c ∈ address.display, p c := by
  have hf : p 'f' := hdigit 15 (by norm_num)
  unfold IpAddr.display
  split
  · exact forall_mem_ipv4 hdigit hdot _
  · split
    · rw [String.toList_ofList, List.forall_mem_append]
      exact ⟨by simp [hcolon, hf], forall_mem_ipv4 hdigit hdot _⟩
    · dsimp only
      split_ifs
      · rw [String.toList_ofList, List.forall_mem_append, List.forall_mem_append]
        exact ⟨⟨forall_mem_displaySegments hdigit hcolon _, by simp [hcolon]⟩, forall_mem_displaySegments hdigit hcolon _⟩
      · exact forall_mem_displaySegments hdigit hcolon _

end Characters

theorem IpAddr.printable_display (address : IpAddr) : Printable address.display :=
  address.forall_mem_display (fun digit hlt => (digitChar_printable digit hlt).1) (by decide) (by decide)

example : (IpAddr.v6 #v[0x20, 1, 0x0D, 0xB8, 0, 0, 0, 0, 0, 1, 0, 0, 0, 0, 0, 0xA]).display = "2001:db8::1:0:0:a".toList := by
  decide +kernel

end Policy.Access

/-! ### States and reasons -/

/-- Text for the event log. -/
def Kms.LicenseStatus.description : Kms.LicenseStatus → Text
  | .unlicensed => "unlicensed".toList
  | .licensed => "licensed".toList
  | .outOfBoxGrace => "out-of-box grace".toList
  | .outOfToleranceGrace => "out-of-tolerance grace".toList
  | .nonGenuineGrace => "non-genuine grace".toList
  | .notification => "notification".toList
  | .extendedGrace => "extended grace".toList
  | .unrecognised _ => "unrecognised".toList

theorem Kms.LicenseStatus.printable_description (status : Kms.LicenseStatus) : Printable status.description := by
  cases status <;> exact printable_literal rfl (by decide)

/-- Whether the database knew the product. -/
def Policy.CsvlkSelection.wasResolved : Policy.CsvlkSelection → Bool
  | .resolved _ => true
  | .fallback _ => false

/-- `Debug` of a key kind. -/
def Db.KeyKind.debug : Db.KeyKind → Text
  | .kmsHost => "KmsHost".toList
  | .kmsClient => "KmsClient".toList
  | .multipleActivation => "MultipleActivation".toList
  | .retail => "Retail".toList
  | .originalEquipment => "OriginalEquipment".toList
  | .evaluation => "Evaluation".toList
  | .other => "Other".toList

/-- `Debug` of a refusal. -/
def Policy.Gate.Refusal.debug : Policy.Gate.Refusal → Text
  | .nonVolumeProduct kind => "NonVolumeProduct \x7b kind: ".toList ++ kind.debug ++ " \x7d".toList
  | .previewProduct => "PreviewProduct".toList
  | .applicationMismatch => "ApplicationMismatch".toList
  | .clockSkew skew => "ClockSkew \x7b skew: ".toList ++ debugDuration skew ++ " \x7d".toList

theorem Policy.Gate.Refusal.printable_debug (refusal : Policy.Gate.Refusal) : Printable refusal.debug := by
  cases refusal with
  | nonVolumeProduct kind =>
    refine printable_append.mpr ⟨printable_append.mpr ⟨printable_literal rfl (by decide), ?_⟩, printable_literal rfl (by decide)⟩
    cases kind <;> exact printable_literal rfl (by decide)
  | previewProduct => exact printable_literal rfl (by decide)
  | applicationMismatch => exact printable_literal rfl (by decide)
  | clockSkew skew =>
    exact printable_append.mpr ⟨printable_append.mpr ⟨printable_literal rfl (by decide), printable_debugDuration skew⟩,
      printable_literal rfl (by decide)⟩

def Policy.Events.Outcome.activation? : Policy.Events.Outcome → Option Policy.Events.Activation
  | .activated activation => some activation
  | .refused _ => none

end Kmsrs
