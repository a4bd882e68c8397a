import Kmsrs.Wire.ClientBind

/-! The three byte orders of a GUID. The record, the loops of `guidToWire` and
the reads of `classify` are one bijection, so sixteen bytes that are no
negotiation name at most one syntax, and what a server writes for the syntax it
accepts is read back as that syntax. -/

namespace Kmsrs.Wire.Client

open Kmsrs.Layout Kmsrs.Kms Kmsrs.Wire.Bind

/-- Every sixteen bytes are the wire form of the GUID that they are read as. -/
theorem guidToWire_toGuid (wire : Vector UInt8 16) :
    guidToWire (WireGuid.layout.decode wire.toList).toGuid = wire := by
  apply Vector.toList_inj.mp
  rw [toList_guidToWire, WireGuid.fromGuid_toGuid]
  exact WireGuid.layout.encode_decode _ Vector.length_toList

theorem guidToWire_injective {guid other : Guid} (h : guidToWire guid = guidToWire other) : guid = other := by
  have hbytes := congrArg Vector.toList h
  rw [toList_guidToWire, toList_guidToWire] at hbytes
  have hfields := congrArg WireGuid.layout.decode hbytes
  rw [Layout.decode_encode, Layout.decode_encode] at hfields
  rw [← WireGuid.toGuid_fromGuid guid, hfields, WireGuid.toGuid_fromGuid]

variable {wire : Vector UInt8 16}

theorem classify_eq_ndr32_iff (h : wire.toList.take 8 ≠ btfnWirePrefix) :
    TransferSyntax.classify wire = .ndr32 ↔ wire = guidToWire Wire.ndr32 := by
  obtain ⟨guid, rfl⟩ : ∃ guid, wire = guidToWire guid := ⟨_, (guidToWire_toGuid wire).symm⟩
  rw [TransferSyntax.classify_guidToWire guid h]
  constructor
  · intro hclass
    split_ifs at hclass with h32
    rw [h32]
  · intro hwire
    rw [if_pos (guidToWire_injective hwire)]

theorem classify_eq_ndr64_iff (h : wire.toList.take 8 ≠ btfnWirePrefix) :
    TransferSyntax.classify wire = .ndr64 ↔ wire = guidToWire Wire.ndr64 := by
  obtain ⟨guid, rfl⟩ : ∃ guid, wire = guidToWire guid := ⟨_, (guidToWire_toGuid wire).symm⟩
  have hne : Wire.ndr64 ≠ Wire.ndr32 := by decide
  rw [TransferSyntax.classify_guidToWire guid h]
  constructor
  · intro hclass
    split_ifs at hclass with h32 h64
    rw [h64]
  · intro hwire
    have hguid := guidToWire_injective hwire
    rw [if_neg (by rw [hguid]; exact hne), if_pos hguid]

/-! ### What an acceptance carries -/

theorem eq_accept_of_answerTo {transfer : TransferSyntax} {guid : Guid} {taken : Bool} {item : ContextItem}
    (h : (answerTo transfer guid taken item).ackResult = ContextResult.acceptance) :
    ∃ version, answerTo transfer guid taken item = .accept guid version := by
  obtain ⟨hserves, rfl⟩ := ackResult_answerTo.mp h
  cases hbits : item.featureBits with
  | some bits => simp [serviceable, hbits] at hserves
  | none =>
    rcases @answerTo_cases transfer guid item hbits false with ⟨-, -, haccept⟩ | ⟨hpassed, -⟩
    · exact haccept
    · simp [hserves] at hpassed

/-- Only the syntax preferred is ever accepted. -/
theorem eq_accept_of_decide {request : BindRequest} {ndr64Enabled : Bool} {result : ContextResult}
    (hmem : result ∈ (Bind.decide request ndr64Enabled).results.items)
    (haccepted : result.ackResult = ContextResult.acceptance) :
    ∃ version, result = .accept (preferredGuid request ndr64Enabled) version := by
  rw [results_decide, List.mem_append] at hmem
  rcases hmem with hanswer | hrefused
  · obtain ⟨i, hi⟩ := List.mem_iff_getElem?.mp hanswer
    rw [getElem?_answersTo, Option.map_eq_some_iff] at hi
    obtain ⟨item, -, rfl⟩ := hi
    exact eq_accept_of_answerTo haccepted
  · rw [List.eq_of_mem_replicate hrefused] at haccepted
    exact absurd haccepted (by decide)

/-- The client reads one acceptance, wherever it stands, as the syntax preferred. -/
theorem readResults_accept (request : BindRequest) (ndr64Enabled : Bool) (version : UInt32) (front : List UInt8)
    {index : ℕ} (sawFeatureAck : Bool) (h : index < 2 ^ 16) :
    readResults (front ++ (resultFields (.accept (preferredGuid request ndr64Enabled) version)).flatten) 1 index
      front.length none sawFeatureAck =
        some (some ⟨UInt16.ofNat index, preferred request ndr64Enabled⟩, sawFeatureAck) := by
  have hread := readResults_append [.accept (preferredGuid request ndr64Enabled) version] front index none
    sawFeatureAck (by rw [List.length_singleton]; exact h)
  simp only [List.flatMap_cons, List.flatMap_nil, List.append_nil, List.length_singleton] at hread
  rw [hread]
  simp [scan, ContextResult.accept, ContextResult.acceptance, classify_preferredGuid]

/-- The orders agree on every GUID, the classifier knows a syntax by its wire
form alone, and an acceptance is read as the syntax that was accepted, by the
server's classifier and at whatever position by the client. -/
theorem byte_orders_agree :
    (∀ guid : Guid, (WireGuid.fromGuid guid).toGuid = guid ∧
      WireGuid.layout.encode (.fromGuid guid) = (guidToWire guid).toList) ∧
    (∀ wire : Vector UInt8 16, wire.toList.take 8 ≠ btfnWirePrefix →
      (TransferSyntax.classify wire = .ndr32 ↔ wire = guidToWire Wire.ndr32) ∧
      (TransferSyntax.classify wire = .ndr64 ↔ wire = guidToWire Wire.ndr64)) ∧
    ∀ (request : BindRequest) (ndr64Enabled : Bool),
      ∀ result ∈ (Bind.decide request ndr64Enabled).results.items, result.ackResult = ContextResult.acceptance →
        ∃ wire : Vector UInt8 16,
          (resultFields result).flatten = u16.encode result.ackResult ++ (u16.encode result.ackReason ++
            (wire.toList ++ u32.encode result.syntaxVersion)) ∧
          TransferSyntax.classify wire = preferred request ndr64Enabled ∧
          ∀ (front : List UInt8) (index : ℕ) (sawFeatureAck : Bool), index < 2 ^ 16 →
            readResults (front ++ (resultFields result).flatten) 1 index front.length none sawFeatureAck =
              some (some ⟨UInt16.ofNat index, preferred request ndr64Enabled⟩, sawFeatureAck) := by
  refine ⟨fun guid => ⟨WireGuid.toGuid_fromGuid guid, (toList_guidToWire guid).symm⟩,
    fun wire h => ⟨classify_eq_ndr32_iff h, classify_eq_ndr64_iff h⟩, ?_⟩
  intro request ndr64Enabled result hmem haccepted
  obtain ⟨version, rfl⟩ := eq_accept_of_decide hmem haccepted
  refine ⟨guidToWire (preferredGuid request ndr64Enabled), ?_, classify_preferredGuid request ndr64Enabled, ?_⟩
  · rw [flatten_resultFields, Layout.encode_bytes]
    rfl
  · exact fun front index sawFeatureAck hindex =>
      readResults_accept request ndr64Enabled version front sawFeatureAck hindex

end Kmsrs.Wire.Client
