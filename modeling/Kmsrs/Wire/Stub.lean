import Kmsrs.Wire.Syntax

/-! Request and response stubs. The payload is a conformant array whose length
fields are four bytes wide in NDR32 and eight in NDR64; a response carries the
return code after it, and an error response only two zero length fields and the
code. -/

namespace Kmsrs.Wire.Stub

open Kmsrs.Layout Kmsrs.Bytes

/-- A referent identifier, not a size. -/
def conformantArrayReferent : UInt64 := 0x00020000

def kmsOpnum : UInt16 := 0

/-- Allocation hint, context, opnum. -/
def requestPrefixLen : ℕ := 8

/-- Allocation hint, context, cancel count and its reserved byte. -/
def responsePrefixLen : ℕ := 8

def lengthFieldWidth : TransferSyntax → ℕ
  | .ndr64 => 8
  | _ => 4

def requestDataOffset (transfer : TransferSyntax) : ℕ := requestPrefixLen + lengthFieldWidth transfer * 2
def responseDataOffset (transfer : TransferSyntax) : ℕ := responsePrefixLen + lengthFieldWidth transfer * 3

theorem lengthFieldWidth_eq (transfer : TransferSyntax) :
    lengthFieldWidth transfer = 4 ∨ lengthFieldWidth transfer = 8 := by
  cases transfer <;> simp [lengthFieldWidth]

/-! ### Length fields -/

def readLen (bytes : List UInt8) (offset width : ℕ) : Option UInt64 :=
  if width = 8 then u64.readAt bytes offset else (u32.readAt bytes offset).map UInt32.toUInt64

def writeLen (width : ℕ) (value : UInt64) : Writer := fun out cursor =>
  if width = 8 then putAt (u64.encode value) out cursor
  else (u32TryFrom value.toNat).bind fun value => putAt (u32.encode value) out cursor

/-- The bytes of a length field. -/
def lenBytes (width : ℕ) (value : UInt64) : List UInt8 :=
  if width = 8 then u64.encode value else u32.encode (UInt32.ofNat value.toNat)

theorem length_lenBytes (transfer : TransferSyntax) (value : UInt64) :
    (lenBytes (lengthFieldWidth transfer) value).length = lengthFieldWidth transfer := by
  rcases lengthFieldWidth_eq transfer with h | h <;> simp [h, lenBytes]

/-- A value of at most 32 bits has a field in either syntax. -/
theorem writes_writeLen (width : ℕ) (value : UInt64) (h : value.toNat < 2 ^ 32) :
    Writes (writeLen width value) (lenBytes width value) := by
  unfold writeLen lenBytes
  by_cases hw : width = 8
  · simp only [if_pos hw]
    exact writes_putAt _
  · simp only [if_neg hw, u32TryFrom, if_pos h, Option.bind_some]
    exact writes_putAt _

theorem readLen_append (width : ℕ) (p : List UInt8) (value : UInt64) (s : List UInt8) {offset : ℕ}
    (ho : offset = p.length) (h : value.toNat < 2 ^ 32) :
    readLen (p ++ lenBytes width value ++ s) offset width = some value := by
  unfold readLen lenBytes
  by_cases hw : width = 8
  · simp only [if_pos hw]
    exact u64.readAt_append p value s ho
  · simp only [if_neg hw]
    rw [u32.readAt_append p _ s ho, Option.map_some, Option.some_inj]
    apply UInt64.toNat_inj.mp
    rw [UInt32.toNat_toUInt64, UInt32.toNat_ofNat_of_lt' h]

/-! ### Requests -/

structure RequestStub where
  allocHint : UInt32
  contextId : UInt16
  opnum : UInt16
  declaredLength : UInt64
  declaredSizeIs : UInt64
  data : List UInt8
deriving DecidableEq

inductive StubError where
  | truncated (actual needed : ℕ)
  | unknownOperation (opnum : UInt16)
  | inconsistentLength (declaredLength declaredSizeIs : UInt64) (actual : ℕ)
deriving DecidableEq

def parseRequest (body : List UInt8) (transfer : TransferSyntax) : Except StubError RequestStub :=
  let width := lengthFieldWidth transfer
  let needed := requestDataOffset transfer
  if body.length < needed then .error (.truncated body.length needed)
  else
    let header := body.take needed
    let data := body.drop needed
    let allocHint := (u32.readAt header 0).getD 0
    let contextId := (u16.readAt header 4).getD 0
    let opnum := (u16.readAt header 6).getD 0
    if opnum ≠ kmsOpnum then .error (.unknownOperation opnum)
    else
      let declaredLength := (readLen header requestPrefixLen width).getD 0
      let declaredSizeIs := (readLen header (requestPrefixLen + width) width).getD 0
      -- Both length fields and the bytes present have to agree.
      if declaredLength ≠ declaredSizeIs ∨ data.length ≠ declaredLength.toNat then
        .error (.inconsistentLength declaredLength declaredSizeIs data.length)
      else .ok { allocHint, contextId, opnum, declaredLength, declaredSizeIs, data }

/-! ### Responses -/

def responseStubLen (transfer : TransferSyntax) (payloadLen : ℕ) : ℕ :=
  let unpadded := responseDataOffset transfer + payloadLen + 4
  unpadded + alignPadding unpadded

/-- The length fields are zero and `size_is` is left out. -/
def errorStubLen (transfer : TransferSyntax) : ℕ :=
  let unpadded := responsePrefixLen + lengthFieldWidth transfer * 2 + 4
  unpadded + alignPadding unpadded

structure ResponseStub where
  allocHint : UInt32
  contextId : UInt16
  payload : List UInt8
  result : UInt32
  padding : List UInt8
deriving DecidableEq

/-- The result is read from the last four bytes; what stands between it and the
payload is padding. -/
def parseResponse (body : List UInt8) (transfer : TransferSyntax) : Except StubError ResponseStub := do
  let width := lengthFieldWidth transfer
  let tooShort (needed : ℕ) := StubError.truncated body.length needed
  let allocHint ← (u32.readAt body 0).elim (.error (tooShort 4)) .ok
  let contextId ← (u16.readAt body 4).elim (.error (tooShort 6)) .ok
  let sizeIs ← (readLen body responsePrefixLen width).elim (.error (tooShort (responsePrefixLen + width))) .ok
  -- The referent is skipped.
  let cursor := responsePrefixLen + width + width
  let lengthIs ← (readLen body cursor width).elim (.error (tooShort (cursor + width))) .ok
  let cursor := cursor + width
  let declared := min lengthIs.toNat sizeIs.toNat
  let payloadEnd := cursor + declared
  if usizeMax < payloadEnd then .error (tooShort usizeMax)
  else
    let payload ← (range body cursor payloadEnd).elim (.error (tooShort payloadEnd)) .ok
    if body.length < 4 then .error (tooShort 4)
    else
      let resultAt := body.length - 4
      if resultAt < payloadEnd then .error (tooShort (payloadEnd + 4))
      else
        let padding := (range body payloadEnd resultAt).getD []
        let result ← (u32.readAt body resultAt).elim (.error (tooShort body.length)) .ok
        .ok { allocHint, contextId, payload, result, padding }

/-- The fields between the prefix and the return code. -/
def writeArray (width : ℕ) (result : UInt32) (payload : List UInt8) : Writer := fun out cursor =>
  if result ≠ 0 then do
    let (cursor, out) ← writeLen width 0 out cursor
    writeLen width 0 out cursor
  else do
    let payloadLen := UInt64.ofNat payload.length
    let (cursor, out) ← writeLen width payloadLen out cursor
    let (cursor, out) ← writeLen width conformantArrayReferent out cursor
    let (cursor, out) ← writeLen width payloadLen out cursor
    putAt payload out cursor

/-- Prefix, array and return code. -/
def writeFields (width : ℕ) (allocHint : UInt32) (contextId : UInt16) (result : UInt32)
    (payload : List UInt8) : Writer := fun out cursor => do
  let (cursor, out) ← putAll [u32.encode allocHint, u16.encode contextId, u16.encode 0] out cursor
  let (cursor, out) ← writeArray width result payload out cursor
  putAt (u32.encode result) out cursor

/-- A non-zero result leaves the payload out. -/
def stubLen (transfer : TransferSyntax) (result : UInt32) (payload : List UInt8) : ℕ :=
  if result ≠ 0 then errorStubLen transfer else responseStubLen transfer payload.length

def writeResponse (out : List UInt8) (transfer : TransferSyntax) (contextId : UInt16) (result : UInt32)
    (payload : List UInt8) : Option (ℕ × List UInt8) :=
  let total := stubLen transfer result payload
  (range out 0 total).bind fun region =>
    (u32TryFrom (total - responsePrefixLen)).bind fun allocHint =>
      (writeFields (lengthFieldWidth transfer) allocHint contextId result payload region 0).map
        fun (cursor, region) =>
          -- Whatever is left of the region is alignment, and zero.
          (total, region.take cursor ++ List.replicate (region.length - cursor) 0 ++ out.drop total)

/-! ### What is written -/

def arrayBytes (width : ℕ) (result : UInt32) (payload : List UInt8) : List UInt8 :=
  if result ≠ 0 then lenBytes width 0 ++ lenBytes width 0
  else
    let payloadLen := UInt64.ofNat payload.length
    lenBytes width payloadLen ++
      (lenBytes width conformantArrayReferent ++ (lenBytes width payloadLen ++ payload))

/-- The prefix of a response stub of `total` bytes. -/
def prefixBytes (total : ℕ) (contextId : UInt16) : List UInt8 :=
  [u32.encode (UInt32.ofNat (total - responsePrefixLen)), u16.encode contextId, u16.encode 0].flatten

def fieldBytes (width : ℕ) (total : ℕ) (contextId : UInt16) (result : UInt32) (payload : List UInt8) :
    List UInt8 := prefixBytes total contextId ++ (arrayBytes width result payload ++ u32.encode result)

def paddingLen (transfer : TransferSyntax) (result : UInt32) (payload : List UInt8) : ℕ :=
  stubLen transfer result payload -
    (responsePrefixLen + (arrayBytes (lengthFieldWidth transfer) result payload).length + 4)

def stubBytes (transfer : TransferSyntax) (contextId : UInt16) (result : UInt32) (payload : List UInt8) :
    List UInt8 :=
  fieldBytes (lengthFieldWidth transfer) (stubLen transfer result payload) contextId result payload ++
    List.replicate (paddingLen transfer result payload) 0

theorem writes_writeArray (width : ℕ) (result : UInt32) (payload : List UInt8)
    (h : result = 0 → payload.length < 2 ^ 32) :
    Writes (writeArray width result payload) (arrayBytes width result payload) := by
  unfold writeArray arrayBytes
  by_cases hr : result = 0
  · have hlen : (UInt64.ofNat payload.length).toNat < 2 ^ 32 := by
      have hpayload := h hr
      rw [UInt64.toNat_ofNat_of_lt' (hpayload.trans (by decide))]
      exact hpayload
    simp only [hr, ne_eq, not_true_eq_false, if_false]
    exact (writes_writeLen width _ hlen).seq ((writes_writeLen width _ (by decide)).seq
      ((writes_writeLen width _ hlen).seq (writes_putAt payload)))
  · simp only [ne_eq, hr, not_false_eq_true, if_true]
    exact (writes_writeLen width 0 (by decide)).seq (writes_writeLen width 0 (by decide))

theorem length_arrayBytes_error (transfer : TransferSyntax) {result : UInt32} (payload : List UInt8)
    (h : result ≠ 0) : (arrayBytes (lengthFieldWidth transfer) result payload).length =
      lengthFieldWidth transfer * 2 := by
  simp only [arrayBytes, if_pos h, List.length_append, length_lenBytes]
  omega

theorem length_arrayBytes_ok (transfer : TransferSyntax) (payload : List UInt8) :
    (arrayBytes (lengthFieldWidth transfer) 0 payload).length = lengthFieldWidth transfer * 3 + payload.length := by
  simp only [arrayBytes, ne_eq, not_true_eq_false, if_false, List.length_append, length_lenBytes]
  omega

theorem length_prefixBytes (total : ℕ) (contextId : UInt16) :
    (prefixBytes total contextId).length = responsePrefixLen := by
  simp [prefixBytes, responsePrefixLen]

/-- Both layouts fit what was reserved for them, with less than a word to spare. -/
theorem stubLen_eq (transfer : TransferSyntax) (result : UInt32) (payload : List UInt8) :
    stubLen transfer result payload =
      responsePrefixLen + (arrayBytes (lengthFieldWidth transfer) result payload).length + 4 +
        paddingLen transfer result payload := by
  unfold paddingLen
  by_cases hr : result = 0
  · subst hr
    rw [length_arrayBytes_ok]
    simp only [stubLen, ne_eq, not_true_eq_false, if_false, responseStubLen, responseDataOffset]
    omega
  · rw [length_arrayBytes_error transfer payload hr]
    simp only [stubLen, ne_eq, hr, not_false_eq_true, if_true, errorStubLen]
    omega

theorem length_fieldBytes (width total : ℕ) (contextId : UInt16) (result : UInt32) (payload : List UInt8) :
    (fieldBytes width total contextId result payload).length =
      responsePrefixLen + (arrayBytes width result payload).length + 4 := by
  rw [fieldBytes, List.length_append, List.length_append, length_prefixBytes, length_encode, size_u32,
    Nat.add_assoc]

theorem length_stubBytes (transfer : TransferSyntax) (contextId : UInt16) (result : UInt32)
    (payload : List UInt8) :
    (stubBytes transfer contextId result payload).length = stubLen transfer result payload := by
  rw [stubBytes, List.length_append, length_fieldBytes, List.length_replicate, ← stubLen_eq]

/-- The payload of a stub whose allocation hint fits is itself that short. -/
theorem payload_lt {transfer : TransferSyntax} {result : UInt32} {payload : List UInt8}
    (h : stubLen transfer result payload - responsePrefixLen < 2 ^ 32) (hr : result = 0) :
    payload.length < 2 ^ 32 := by
  subst hr
  rw [stubLen_eq, length_arrayBytes_ok] at h
  omega

theorem writes_writeFields (transfer : TransferSyntax) (contextId : UInt16) {result : UInt32}
    {payload : List UInt8} (h : stubLen transfer result payload - responsePrefixLen < 2 ^ 32) :
    Writes (writeFields (lengthFieldWidth transfer)
        (UInt32.ofNat (stubLen transfer result payload - responsePrefixLen)) contextId result payload)
      (fieldBytes (lengthFieldWidth transfer) (stubLen transfer result payload) contextId result payload) :=
  (writes_putAll _).seq ((writes_writeArray _ result payload (payload_lt h)).seq (writes_putAt _))

/-- A response is written whole, or not at all. -/
theorem writeResponse_eq (out : List UInt8) (transfer : TransferSyntax) (contextId : UInt16) (result : UInt32)
    (payload : List UInt8) : writeResponse out transfer contextId result payload =
      if stubLen transfer result payload ≤ out.length ∧
          stubLen transfer result payload - responsePrefixLen < 2 ^ 32 then
        some (stubLen transfer result payload, stubBytes transfer contextId result payload ++
          out.drop (stubLen transfer result payload))
      else none := by
  simp only [writeResponse, u32TryFrom]
  by_cases hroom : stubLen transfer result payload ≤ out.length
  · obtain ⟨region, hregion, hlen⟩ := exists_range_prefix hroom
    rw [hregion, Option.bind_some]
    by_cases hhint : stubLen transfer result payload - responsePrefixLen < 2 ^ 32
    · have hlength := length_fieldBytes (lengthFieldWidth transfer) (stubLen transfer result payload)
        contextId result payload
      have htotal := stubLen_eq transfer result payload
      have hwrites := (writes_writeFields transfer contextId hhint).start region (by omega)
      rw [if_pos hhint, Option.bind_some, hwrites, Option.map_some, if_pos ⟨hroom, hhint⟩]
      have htail : region.length - (fieldBytes (lengthFieldWidth transfer)
          (stubLen transfer result payload) contextId result payload).length =
            paddingLen transfer result payload := by omega
      simp only [List.take_left, List.length_append, List.length_drop, Nat.add_sub_cancel_left, htail,
        stubBytes]
    · rw [if_neg hhint, if_neg (fun h => hhint h.2), Option.bind_none]
  · rw [range_eq_none (by omega), Option.bind_none, if_neg (fun h => hroom h.1)]

/-! ### Reading it back -/

theorem u32_encode_zero : u32.encode 0 = List.replicate 4 0 := rfl

/-- A success stub, field by field, with the zero return code and the zero
alignment run together. -/
theorem stubBytes_ok (transfer : TransferSyntax) (contextId : UInt16) (payload : List UInt8) :
    stubBytes transfer contextId 0 payload =
      prefixBytes (stubLen transfer 0 payload) contextId ++
        (lenBytes (lengthFieldWidth transfer) (UInt64.ofNat payload.length) ++
          (lenBytes (lengthFieldWidth transfer) conformantArrayReferent ++
            (lenBytes (lengthFieldWidth transfer) (UInt64.ofNat payload.length) ++
              (payload ++ List.replicate (4 + paddingLen transfer 0 payload) 0)))) := by
  simp only [stubBytes, fieldBytes, arrayBytes, ne_eq, not_true_eq_false, if_false, u32_encode_zero,
    List.append_assoc, List.replicate_append_replicate]

theorem readAt_prefixBytes (total : ℕ) (contextId : UInt16) (rest : List UInt8) :
    u32.readAt (prefixBytes total contextId ++ rest) 0 = some (UInt32.ofNat (total - responsePrefixLen)) ∧
      u16.readAt (prefixBytes total contextId ++ rest) 4 = some contextId := by
  have hhint := u32.readAt_append [] (UInt32.ofNat (total - responsePrefixLen))
    (u16.encode contextId ++ (u16.encode 0 ++ rest)) rfl
  have hcontext := u16.readAt_append (u32.encode (UInt32.ofNat (total - responsePrefixLen))) contextId
    (u16.encode 0 ++ rest) rfl
  simp only [List.nil_append, List.append_assoc] at hhint hcontext
  simp only [prefixBytes, List.flatten_cons, List.flatten_nil, List.append_nil, List.append_assoc]
  exact ⟨hhint, hcontext⟩

section Success

variable {transfer : TransferSyntax} {payload : List UInt8}
  (h : stubLen transfer 0 payload - responsePrefixLen < 2 ^ 32) (contextId : UInt16)

include h

theorem toNat_payloadLen : (UInt64.ofNat payload.length).toNat = payload.length :=
  UInt64.toNat_ofNat_of_lt' ((payload_lt h rfl).trans (by decide))

theorem readLen_sizeIs :
    readLen (stubBytes transfer contextId 0 payload) responsePrefixLen (lengthFieldWidth transfer) =
      some (UInt64.ofNat payload.length) := by
  rw [stubBytes_ok, ← List.append_assoc]
  refine readLen_append _ _ _ _ (length_prefixBytes _ contextId).symm ?_
  rw [toNat_payloadLen h]
  exact payload_lt h rfl

theorem readLen_lengthIs :
    readLen (stubBytes transfer contextId 0 payload)
      (responsePrefixLen + lengthFieldWidth transfer + lengthFieldWidth transfer) (lengthFieldWidth transfer) =
        some (UInt64.ofNat payload.length) := by
  rw [stubBytes_ok, ← List.append_assoc, ← List.append_assoc, ← List.append_assoc]
  refine readLen_append _ _ _ _ ?_ ?_
  · simp only [List.length_append, length_prefixBytes, length_lenBytes]
  · rw [toNat_payloadLen h]
    exact payload_lt h rfl

omit h in
variable (transfer payload) in
theorem range_payload :
    range (stubBytes transfer contextId 0 payload)
      (responsePrefixLen + lengthFieldWidth transfer + lengthFieldWidth transfer + lengthFieldWidth transfer)
      (responsePrefixLen + lengthFieldWidth transfer + lengthFieldWidth transfer + lengthFieldWidth transfer +
        payload.length) = some payload := by
  rw [stubBytes_ok, ← List.append_assoc, ← List.append_assoc, ← List.append_assoc, ← List.append_assoc]
  refine range_append _ _ _ ?_ ?_ <;>
    simp only [List.length_append, length_prefixBytes, length_lenBytes]

omit h in
variable (transfer payload) in
/-- The last four bytes, and what stands between them and the payload. -/
theorem read_tail {payloadEnd : ℕ}
    (he : payloadEnd = responsePrefixLen + lengthFieldWidth transfer * 3 + payload.length) :
    range (stubBytes transfer contextId 0 payload) payloadEnd (payloadEnd + paddingLen transfer 0 payload) =
        some (List.replicate (paddingLen transfer 0 payload) 0) ∧
      u32.readAt (stubBytes transfer contextId 0 payload) (payloadEnd + paddingLen transfer 0 payload) =
        some 0 := by
  rw [stubBytes_ok]
  simp only [← List.append_assoc]
  generalize hfront : prefixBytes (stubLen transfer 0 payload) contextId ++ _ ++ _ ++ _ ++ payload = front
  have hlen : front.length = payloadEnd := by
    rw [← hfront, he]
    simp only [List.length_append, length_prefixBytes, length_lenBytes]
    omega
  rw [Nat.add_comm 4, ← List.replicate_append_replicate, ← List.append_assoc]
  constructor
  · exact range_append _ _ _ hlen.symm (by rw [hlen, List.length_replicate])
  · have hread := u32.readAt_append (front ++ List.replicate (paddingLen transfer 0 payload) 0) 0 []
      (by rw [List.length_append, List.length_replicate, hlen])
    rwa [List.append_nil] at hread

/-- Success reads back: the last word is zero whether it is the code or the
alignment after it. -/
theorem parseResponse_ok :
    parseResponse (stubBytes transfer contextId 0 payload) transfer =
      .ok
        { allocHint := UInt32.ofNat (stubLen transfer 0 payload - responsePrefixLen)
          contextId
          payload
          result := 0
          padding := List.replicate (paddingLen transfer 0 payload) 0 } := by
  obtain ⟨hhint, hcontext⟩ := readAt_prefixBytes (stubLen transfer 0 payload) contextId _
  rw [← stubBytes_ok] at hhint hcontext
  have htotal := length_stubBytes transfer contextId 0 payload
  have hwidth := lengthFieldWidth_eq transfer
  have hpayload := payload_lt h rfl
  rw [stubLen_eq, length_arrayBytes_ok] at htotal
  -- The end of the payload, as the reader's cursor reaches it.
  obtain ⟨payloadEnd, he⟩ : ∃ e, e = responsePrefixLen + lengthFieldWidth transfer +
    lengthFieldWidth transfer + lengthFieldWidth transfer + payload.length := ⟨_, rfl⟩
  have hend : payloadEnd = responsePrefixLen + lengthFieldWidth transfer * 3 + payload.length := by omega
  have hat : (stubBytes transfer contextId 0 payload).length - 4 =
      payloadEnd + paddingLen transfer 0 payload := by omega
  obtain ⟨hpadding, hresult⟩ := read_tail transfer payload contextId hend
  have hdata := range_payload transfer payload contextId
  have hmax : ¬ usizeMax < payloadEnd := by
    simp only [usizeMax, responsePrefixLen] at he ⊢
    omega
  rw [← he] at hdata
  simp only [parseResponse, hhint, hcontext, readLen_sizeIs h, readLen_lengthIs h, Option.elim_some, bind,
    Except.bind, toNat_payloadLen h, min_self, ← he, hdata, if_neg hmax, hat, hpadding, hresult,
    Option.getD_some]
  rw [if_neg (by omega), if_neg (by omega)]

end Success

/-- The reader wants three length fields and a return code, whatever they say. -/
theorem length_of_parseResponse {body : List UInt8} {transfer : TransferSyntax} {stub : ResponseStub}
    (h : parseResponse body transfer = .ok stub) : responseDataOffset transfer + 4 ≤ body.length := by
  by_contra hshort
  simp only [parseResponse, bind, Except.bind] at h
  repeat' split at h
  all_goals try cases h
  simp only [responseDataOffset] at hshort
  omega

/-- An error stub is shorter than that. -/
theorem errorStubLen_lt (transfer : TransferSyntax) : errorStubLen transfer < responseDataOffset transfer + 4 := by
  rcases lengthFieldWidth_eq transfer with h | h <;>
    simp only [errorStubLen, responseDataOffset, alignPadding, responsePrefixLen, h] <;> omega

theorem parseResponse_error (transfer : TransferSyntax) (contextId : UInt16) {result : UInt32}
    (payload : List UInt8) (hr : result ≠ 0) (stub : ResponseStub) :
    parseResponse (stubBytes transfer contextId result payload) transfer ≠ .ok stub := by
  intro h
  have hlong := length_of_parseResponse h
  have hshort := errorStubLen_lt transfer
  rw [length_stubBytes, stubLen, if_pos hr] at hlong
  omega

/-- The reader gives back what was written: context, code and payload, with zero
padding and an allocation hint that counts from the length fields on. -/
def ReadsBack (transfer : TransferSyntax) (contextId : UInt16) (result : UInt32) (payload : List UInt8)
    (written : ℕ × List UInt8) : Prop :=
  ∃ stub, parseResponse (written.2.take written.1) transfer = .ok stub ∧ stub.contextId = contextId ∧
    stub.result = result ∧ stub.payload = (if result = 0 then payload else []) ∧
    (∀ byte ∈ stub.padding, byte = 0) ∧ stub.allocHint.toNat = written.1 - responsePrefixLen

/-- Exactly the success stubs read back: the reader asks an error stub for a
third length field that the writer left out. -/
theorem readsBack_iff {out : List UInt8} {transfer : TransferSyntax} {contextId : UInt16} {result : UInt32}
    {payload : List UInt8} {written : ℕ × List UInt8}
    (h : writeResponse out transfer contextId result payload = some written) :
    ReadsBack transfer contextId result payload written ↔ result = 0 := by
  rw [writeResponse_eq] at h
  split at h
  next hfits =>
    cases h
    have hlen := length_stubBytes transfer contextId result payload
    unfold ReadsBack
    rw [List.take_left' hlen]
    constructor
    · rintro ⟨stub, hparse, -⟩
      by_contra hr
      exact parseResponse_error transfer contextId payload hr stub hparse
    · rintro rfl
      refine ⟨_, parseResponse_ok hfits.2 contextId, rfl, rfl, rfl, ?_, ?_⟩
      · intro byte hbyte
        exact List.eq_of_mem_replicate hbyte
      · exact UInt32.toNat_ofNat_of_lt' hfits.2
  next => cases h

theorem readsBack_three_bytes :
    ∃ written, writeResponse (List.replicate 41 0xff) .ndr64 1 0 [7, 8, 9] = some written ∧
      ReadsBack .ndr64 1 0 [7, 8, 9] written := by
  have h : writeResponse (List.replicate 41 0xff) .ndr64 1 0 [7, 8, 9] = some _ := rfl
  exact ⟨_, h, (readsBack_iff h).mpr rfl⟩

/-- A refusal with `InvalidData` is written and cannot be read. -/
theorem not_readsBack_invalidData :
    ∃ written, writeResponse (List.replicate 20 0) .ndr32 0 0x8007000D [] = some written ∧
      ¬ ReadsBack .ndr32 0 0x8007000D [] written := by
  refine ⟨_, rfl, ?_⟩
  rintro ⟨stub, hparse, -⟩
  exact absurd (length_of_parseResponse hparse) (by decide)

end Kmsrs.Wire.Stub
