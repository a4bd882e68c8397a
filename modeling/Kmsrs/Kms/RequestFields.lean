import Kmsrs.Kms.Request
import Kmsrs.Kms.WorkstationName

/-! What the client puts in a request, and what the host reads of it. A name goes over the
wire as its units with zeros after them, and comes back as the text it was: no unit of a text
is an unpaired surrogate, and the room for the decoded name is enough for every 64 units. -/

namespace Kmsrs.Kms

/-! ### Encoding names -/

/-- `char::encode_utf16`: above the basic plane a character is two surrogates. -/
def encodeUtf16Char (c : Char) : List UInt16 :=
  if c.toNat ≤ 0xFFFF then [.ofNat c.toNat]
  else [.ofNat (0xD800 + (c.toNat - 0x10000) / 2 ^ 10), .ofNat (0xDC00 + (c.toNat - 0x10000) % 2 ^ 10)]

/-- `str::encode_utf16` -/
def encodeUtf16 (text : List Char) : List UInt16 := text.flatMap encodeUtf16Char

/-- A leading and a trailing surrogate are one character. -/
theorem decodeLossy_pair {leading trailing : UInt16} (hlow : 0xD800 ≤ leading.toNat) (hhigh : leading.toNat < 0xDC00)
    (hlow' : 0xDC00 ≤ trailing.toNat) (hhigh' : trailing.toNat < 0xE000) (rest : List UInt16) :
    decodeLossy (leading :: trailing :: rest) =
      Char.ofNat ((leading.toNat - 0xD800) * 2 ^ 10 + (trailing.toNat - 0xDC00) + 0x10000) :: decodeLossy rest := by
  have hsurrogate : isSurrogate leading = true := isSurrogate_iff.mpr ⟨hlow, by omega⟩
  have hpaired : ¬ (0xDC00 ≤ leading ∨ trailing < 0xDC00 ∨ 0xDFFF < trailing) := by
    simp only [UInt16.le_iff_toNat_le, UInt16.lt_iff_toNat_lt, UInt16.reduceToNat]
    omega
  have hmask : ∀ unit : UInt16, (unit &&& 0x3FF).toNat = unit.toNat % 2 ^ 10 := by
    intro unit
    rw [UInt16.toNat_and, show (0x3FF : UInt16).toNat = 2 ^ 10 - 1 from rfl, Nat.and_two_pow_sub_one_eq_mod]
  have hvalue : (leading &&& 0x3FF).toNat <<< 10 ||| (trailing &&& 0x3FF).toNat =
      (leading.toNat - 0xD800) * 2 ^ 10 + (trailing.toNat - 0xDC00) := by
    rw [hmask, hmask, ← Nat.shiftLeft_add_eq_or_of_lt (Nat.mod_lt _ (by norm_num)), Nat.shiftLeft_eq]
    omega
  rw [decodeLossy, decodeUtf16, hsurrogate, if_neg (by simp), if_neg hpaired, hvalue, List.map_cons,
    Option.getD_some, ← decodeLossy]

/-- What was encoded is decoded. -/
theorem decodeLossy_encodeUtf16 (text : List Char) : decodeLossy (encodeUtf16 text) = text := by
  induction text with
  | nil => rfl
  | cons c text ih =>
    rw [encodeUtf16, List.flatMap_cons, encodeUtf16Char, ← encodeUtf16]
    split_ifs with hbasic
    · obtain ⟨hunit, hplain⟩ := unit_of_basic hbasic
      rw [List.singleton_append, decodeLossy_cons hplain, hunit, ih, Char.ofNat_toNat]
    · have hvalid : c.toNat.isValidChar := c.valid
      simp only [Nat.isValidChar] at hvalid
      have hleading : (UInt16.ofNat (0xD800 + (c.toNat - 0x10000) / 2 ^ 10)).toNat = 0xD800 + (c.toNat - 0x10000) / 2 ^ 10 :=
        UInt16.toNat_ofNat_of_lt' (by simp only [UInt16.size]; omega)
      have htrailing : (UInt16.ofNat (0xDC00 + (c.toNat - 0x10000) % 2 ^ 10)).toNat = 0xDC00 + (c.toNat - 0x10000) % 2 ^ 10 :=
        UInt16.toNat_ofNat_of_lt' (by simp only [UInt16.size]; omega)
      have hchar : (c.toNat - 0x10000) / 2 ^ 10 * 2 ^ 10 + (c.toNat - 0x10000) % 2 ^ 10 + 0x10000 = c.toNat := by omega
      rw [List.cons_append, List.singleton_append, decodeLossy_pair (by omega) (by omega) (by omega) (by omega), hleading,
        htrailing, Nat.add_sub_cancel_left, Nat.add_sub_cancel_left, hchar, ih, Char.ofNat_toNat]

/-- Only a NUL has a zero among its units. -/
theorem ne_zero_of_mem_encodeUtf16 {text : List Char} (h : ∀ c ∈ text, c.toNat ≠ 0) : ∀ unit ∈ encodeUtf16 text, unit ≠ 0 := by
  intro unit hunit
  obtain ⟨c, hc, hmem⟩ := List.mem_flatMap.mp hunit
  have hvalid : c.toNat.isValidChar := c.valid
  simp only [Nat.isValidChar] at hvalid
  have hpos : ∀ n, 0 < n → n < 2 ^ 16 → UInt16.ofNat n ≠ 0 := by
    intro n hn hlt hzero
    have := congrArg UInt16.toNat hzero
    rw [UInt16.toNat_ofNat_of_lt' (by simpa [UInt16.size] using hlt)] at this
    exact absurd this hn.ne'
  rw [encodeUtf16Char] at hmem
  split_ifs at hmem with hbasic
  · rw [List.mem_singleton.mp hmem]
    exact hpos _ (Nat.pos_of_ne_zero (h c hc)) (by omega)
  · simp only [List.mem_cons, List.not_mem_nil, or_false] at hmem
    rcases hmem with rfl | rfl
    · exact hpos _ (by omega) (by omega)
    · exact hpos _ (by omega) (by omega)

/-! ### The fields of a request -/

/-- What a client asks with; the version that is declared may be another than the one it is
framed as. -/
structure RequestFields where
  version : Version
  declaredVersion : Option ProtocolVersion
  application : Guid
  sku : Guid
  kmsId : Guid
  clientMachineId : Guid
  previousClientMachineId : Guid
  requiredClients : UInt32
  licenseStatus : UInt32
  graceMinutes : UInt32
  virtualMachine : Bool
  workstationName : List Char
  clientTime : UInt64

/-- The client's errors; its others are about text that is not read here. -/
inductive ClientError where
  | workstationNameTooLong (units limit : ℕ)
deriving DecidableEq

namespace RequestFields

def declared (fields : RequestFields) : ProtocolVersion := fields.declaredVersion.getD fields.version.toProtocolVersion

/-- The units in the first places, and zeros in the others. -/
def nameField (units : List UInt16) : Vector UInt16 64 := Vector.ofFn fun i => units.getD i 0

/-- The body with the fields set in it. -/
def body (fields : RequestFields) : RequestBody where
  version := fields.declared.toWire
  isClientVm := if fields.virtualMachine then 1 else 0
  licenseStatus := fields.licenseStatus
  graceTime := fields.graceMinutes
  applicationId := .fromGuid fields.application
  skuId := .fromGuid fields.sku
  kmsCountedId := .fromGuid fields.kmsId
  clientMachineId := .fromGuid fields.clientMachineId
  requiredClients := fields.requiredClients
  clientTime := fields.clientTime
  previousClientMachineId := .fromGuid fields.previousClientMachineId
  workstationName := nameField (encodeUtf16 fields.workstationName)

/-- A name that is too long is refused, and one unit is left for the NUL. -/
def toBody (fields : RequestFields) : Except ClientError RequestBody :=
  let units := (encodeUtf16 fields.workstationName).length
  let limit := workstationNameUnits - 1
  if limit < units then .error (.workstationNameTooLong units limit) else .ok fields.body

end RequestFields

/-! ### Reading them back -/

theorem ProtocolVersion.fromWire_toWire (version : ProtocolVersion) : fromWire version.toWire = version := by
  obtain ⟨major, minor⟩ := version
  have hmajor := major.toNat_lt
  have hminor := minor.toNat_lt
  have hword : (ProtocolVersion.toWire ⟨major, minor⟩).toNat = major.toNat * 2 ^ 16 + minor.toNat := by
    simp only [toWire, UInt32.toNat_or, UInt32.toNat_shiftLeft, UInt16.toNat_toUInt32, UInt32.reduceToNat, Nat.reduceMod]
    rw [Nat.mod_eq_of_lt (by rw [Nat.shiftLeft_eq]; omega), ← Nat.shiftLeft_add_eq_or_of_lt hminor, Nat.shiftLeft_eq]
  rw [fromWire, mk.injEq]
  constructor
  · apply UInt16.toNat_inj.mp
    rw [UInt32.toNat_toUInt16, UInt32.toNat_shiftRight, hword, show (16 : UInt32).toNat % 32 = 16 from rfl,
      Nat.shiftRight_eq_div_pow]
    omega
  · apply UInt16.toNat_inj.mp
    rw [UInt32.toNat_toUInt16, hword]
    omega

def LicenseStatus.toWire : LicenseStatus → UInt32
  | .unlicensed => 0
  | .licensed => 1
  | .outOfBoxGrace => 2
  | .outOfToleranceGrace => 3
  | .nonGenuineGrace => 4
  | .notification => 5
  | .extendedGrace => 6
  | .unrecognised raw => raw

theorem LicenseStatus.toWire_fromWire (raw : UInt32) : (fromWire raw).toWire = raw := by
  rw [fromWire]
  split_ifs with h0 h1 h2 h3 h4 h5 h6
  all_goals simp only [toWire, *]

theorem getD_previousMachine (guid : Guid) : (previousMachine guid).getD .zero = guid := by
  rw [previousMachine]
  split_ifs with hzero
  · exact hzero.symm
  · rfl

/-- The name before its NUL is the whole text. -/
theorem text_decode_nameField {text : List Char} (hnul : ∀ c ∈ text, c.toNat ≠ 0) (hroom : (encodeUtf16 text).length ≤ 63) :
    (WorkstationName.decode (RequestFields.nameField (encodeUtf16 text))).text = text := by
  have hfield : (RequestFields.nameField (encodeUtf16 text)).toList =
      encodeUtf16 text ++ List.replicate (64 - (encodeUtf16 text).length) 0 := by
    refine List.ext_getElem (by simp; omega) fun i hi _ => ?_
    rcases lt_or_ge i (encodeUtf16 text).length with hlt | hge
    · rw [List.getElem_append_left hlt]
      simp [RequestFields.nameField, hlt]
    · rw [List.getElem_append_right hge, List.getElem_replicate]
      simp [RequestFields.nameField, hge]
  have hname : (encodeUtf16 text ++ List.replicate (64 - (encodeUtf16 text).length) 0).takeWhile (· ≠ 0) = encodeUtf16 text := by
    obtain ⟨more, hmore⟩ : ∃ more, 64 - (encodeUtf16 text).length = more + 1 := ⟨63 - (encodeUtf16 text).length, by omega⟩
    rw [List.takeWhile_append_of_pos fun unit hunit => decide_eq_true (ne_zero_of_mem_encodeUtf16 hnul unit hunit), hmore,
      List.replicate_succ, List.takeWhile_cons_of_neg (by simp), List.append_nil]
  rw [WorkstationName.text_decode, hfield, hname, decodeLossy_encodeUtf16]

/-- The host reads of the request what the client asked with. -/
structure SameFields (fields : RequestFields) (request : Request) : Prop where
  version : request.version = fields.declared
  application : request.application = fields.application
  sku : request.sku = fields.sku
  counted : request.counted = fields.kmsId
  clientMachineId : request.clientMachineId = fields.clientMachineId
  previousClientMachineId : request.previousClientMachineId.getD .zero = fields.previousClientMachineId
  requiredClients : request.requiredClients = fields.requiredClients
  licenseStatus : request.licenseStatus.toWire = fields.licenseStatus
  grace : request.grace = fields.graceMinutes
  clientKind : request.clientKind = if fields.virtualMachine then .virtualMachine else .bareMetal
  clientTime : request.clientTime = fields.clientTime
  workstationName : request.workstationName.text = fields.workstationName

theorem sameFields_body {fields : RequestFields} (hroom : (encodeUtf16 fields.workstationName).length ≤ 63)
    (hnul : ∀ c ∈ fields.workstationName, c.toNat ≠ 0) : SameFields fields (.fromBody fields.body) := by
  constructor
  · exact ProtocolVersion.fromWire_toWire _
  · exact WireGuid.toGuid_fromGuid _
  · exact WireGuid.toGuid_fromGuid _
  · exact WireGuid.toGuid_fromGuid _
  · exact WireGuid.toGuid_fromGuid _
  · simp only [Request.fromBody, getD_previousMachine]
    exact WireGuid.toGuid_fromGuid _
  · rfl
  · exact LicenseStatus.toWire_fromWire _
  · rfl
  · cases hvirtual : fields.virtualMachine <;> simp [Request.fromBody, RequestFields.body, hvirtual, ClientKind.fromWire]
  · rfl
  · simp only [Request.fromBody, RequestFields.body]
    exact text_decode_nameField hnul hroom

/-- A request that is sent is read back with every field, one with a name that is too long is
not sent, and every name that arrives is read up to its NUL. -/
theorem fields_survive :
    (∀ fields : RequestFields, (encodeUtf16 fields.workstationName).length ≤ 63 →
      (∀ c ∈ fields.workstationName, c.toNat ≠ 0) →
        ∃ body, fields.toBody = .ok body ∧ SameFields fields (.fromBody body)) ∧
    (∀ fields : RequestFields, 63 < (encodeUtf16 fields.workstationName).length →
      fields.toBody = .error (.workstationNameTooLong (encodeUtf16 fields.workstationName).length 63)) ∧
    ∀ units : Vector UInt16 64,
      (WorkstationName.decode units).text = decodeLossy (units.toList.takeWhile (· ≠ 0)) := by
  refine ⟨fun fields hroom hnul => ⟨fields.body, ?_, sameFields_body hroom hnul⟩, fun fields hlong => ?_,
    WorkstationName.text_decode⟩
  · exact if_neg (Nat.not_lt_of_le hroom)
  · exact if_pos hlong

end Kmsrs.Kms
