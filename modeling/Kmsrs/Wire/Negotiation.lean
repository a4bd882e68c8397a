import Kmsrs.Wire.Results

/-! The choice a bind comes to, said without the scan that makes it, and the binds that
are left with no context although they have one to serve. -/

namespace Kmsrs.Wire.Bind

open Kmsrs.Kms

/-! ### Items -/

namespace ContextItem

/-- One of the syntaxes is feature negotiation. -/
def Negotiates (item : ContextItem) : Prop :=
  ∃ offered ∈ item.offered.items, ∃ bits, offered.transfer = .featureNegotiation bits

def Offers (item : ContextItem) (transfer : TransferSyntax) : Prop :=
  ∃ offered ∈ item.offered.items, offered.transfer = transfer

/-- The first negotiation the item offers asks for these bits. -/
def Requests (item : ContextItem) (bits : FeatureBits) : Prop :=
  ∃ before version after, item.offered.items = before ++ ⟨.featureNegotiation bits, version⟩ :: after ∧
    ∀ offered ∈ before, ∀ other, offered.transfer ≠ .featureNegotiation other

/-- The item offers a syntax, first under this version. -/
def OffersAs (item : ContextItem) (transfer : TransferSyntax) (version : UInt32) : Prop :=
  ∃ before after, item.offered.items = before ++ ⟨transfer, version⟩ :: after ∧
    ∀ offered ∈ before, offered.transfer ≠ transfer

/-- An item of the KMS interface that can be served in a syntax. -/
def Remains (item : ContextItem) (transfer : TransferSyntax) : Prop :=
  item.namesKmsInterface = true ∧ ¬ item.Negotiates ∧ item.Offers transfer

variable {item : ContextItem} {transfer : TransferSyntax}

theorem featureBits_eq_some_iff {bits : FeatureBits} : item.featureBits = some bits ↔ item.Requests bits := by
  rw [featureBits, List.findSome?_eq_some_iff]
  constructor
  · rintro ⟨before, ⟨transfer, version⟩, after, hitems, hbits, hbefore⟩
    refine ⟨before, version, after, ?_, fun offered hoffered other hother => ?_⟩
    · cases transfer with
      | featureNegotiation requested => rw [hitems, Option.some.inj hbits]
      | ndr32 => cases hbits
      | ndr64 => cases hbits
      | unknown => cases hbits
    · have hnone := hbefore offered hoffered
      rw [hother] at hnone
      cases hnone
  · rintro ⟨before, version, after, hitems, hbefore⟩
    refine ⟨before, _, after, hitems, rfl, fun offered hoffered => ?_⟩
    split
    next other hother => exact absurd hother (hbefore offered hoffered other)
    next => rfl

theorem featureBits_eq_none_iff : item.featureBits = none ↔ ¬ item.Negotiates := by
  rw [featureBits, List.findSome?_eq_none_iff]
  constructor
  · rintro h ⟨offered, hoffered, bits, hbits⟩
    have hnone := h offered hoffered
    rw [hbits] at hnone
    cases hnone
  · intro h offered hoffered
    split
    next bits hbits => exact absurd ⟨offered, hoffered, bits, hbits⟩ h
    next => rfl

theorem offerFor_eq_some_iff {version : UInt32} :
    item.offerFor transfer = some ⟨transfer, version⟩ ↔ item.OffersAs transfer version := by
  rw [offerFor, List.find?_eq_some_iff_append]
  simp only [OffersAs, decide_true, true_and, Bool.not_eq_true', decide_eq_false_iff_not, ne_eq]

theorem offerFor_eq_none_iff : item.offerFor transfer = none ↔ ¬ item.Offers transfer := by
  rw [offerFor, List.find?_eq_none]
  simp only [decide_eq_true_eq, Offers, not_exists, not_and]

/-- What is found for a syntax is of that syntax. -/
theorem transfer_of_offerFor {offered : OfferedSyntax} (h : item.offerFor transfer = some offered) :
    offered = ⟨transfer, offered.version⟩ := by
  obtain ⟨found, version⟩ := offered
  have hfound : found = transfer := by simpa using List.find?_some h
  rw [hfound]

end ContextItem

open ContextItem

theorem serviceable_iff {transfer : TransferSyntax} {item : ContextItem} :
    serviceable transfer item = true ↔ item.Remains transfer := by
  have hoffers : (item.offerFor transfer).isSome = true ↔ item.Offers transfer := by
    rw [← not_iff_not, ← offerFor_eq_none_iff, Bool.not_eq_true, Option.isSome_eq_false_iff, Option.isNone_iff_eq_none]
  rw [serviceable, Bool.and_eq_true, Bool.and_eq_true, Option.isNone_iff_eq_none, featureBits_eq_none_iff, hoffers,
    Remains, and_assoc, and_left_comm]

/-! ### The choice -/

/-- NDR64 if it is enabled and some item of the interface offers it, and NDR32 otherwise. -/
def Prefers (request : BindRequest) (ndr64Enabled : Bool) (transfer : TransferSyntax) : Prop :=
  let offersNdr64 := ndr64Enabled = true ∧
    ∃ item ∈ request.items.items, item.namesKmsInterface = true ∧ item.Offers .ndr64
  (offersNdr64 ∧ transfer = .ndr64) ∨ (¬ offersNdr64 ∧ transfer = .ndr32)

/-- Some item before this one is to be accepted instead. -/
def Preceded (request : BindRequest) (transfer : TransferSyntax) (i : ℕ) : Prop :=
  ∃ j < i, ∃ earlier, request.items.items[j]? = some earlier ∧ earlier.Remains transfer

def identity : TransferSyntax → Guid
  | .ndr64 => Wire.ndr64
  | _ => Wire.ndr32

/-- The answer to the item at a position, when this is the syntax preferred. Negotiation is
acknowledged, result 3, with the bits that are asked for and that the host supports: security
context multiplexing, bit 0, and keeping the connection on orphans, bit 1. -/
inductive Prescribed (request : BindRequest) (transfer : TransferSyntax) (i : ℕ) (item : ContextItem) :
    ContextResult → Prop
  | negotiated {bits : FeatureBits} : item.Requests bits →
      Prescribed request transfer i item ⟨3, bits.toUInt16 &&& 0x03, Guid.zero, 0⟩
  | foreign : ¬ item.Negotiates → item.namesKmsInterface = false →
      Prescribed request transfer i item ⟨2, 1, Guid.zero, 0⟩
  | accepted {version : UInt32} : ¬ item.Negotiates → item.namesKmsInterface = true →
      item.OffersAs transfer version → ¬ Preceded request transfer i →
      Prescribed request transfer i item ⟨0, 0, identity transfer, version⟩
  | unserved : ¬ item.Negotiates → item.namesKmsInterface = true →
      (¬ item.Offers transfer ∨ Preceded request transfer i) →
      Prescribed request transfer i item ⟨2, 2, Guid.zero, 0⟩

/-- A decision that answers every item as prescribed, and accepts one of them at most. -/
structure Negotiated (request : BindRequest) (ndr64Enabled : Bool) (transfer : TransferSyntax)
    (decision : BindDecision) : Prop where
  prefers : Prefers request ndr64Enabled transfer
  answers : ∀ i item, request.items.items[i]? = some item → ∀ result,
    decision.results.items[i]? = some result ↔ Prescribed request transfer i item result
  unique : ∀ (i j : ℕ) (result other : ContextResult), decision.results.items[i]? = some result → decision.results.items[j]? = some other →
    result.ackResult = ContextResult.acceptance → other.ackResult = ContextResult.acceptance → i = j
  context : ∀ accepted, decision.acceptedContext = some accepted ↔
    ∃ (i : ℕ) (item : ContextItem) (result : ContextResult), request.items.items[i]? = some item ∧ decision.results.items[i]? = some result ∧
    result.ackResult = ContextResult.acceptance ∧ accepted = ⟨item.contextId, transfer⟩

variable (request : BindRequest) (ndr64Enabled : Bool)

theorem offersNdr64_iff : offersNdr64 request ndr64Enabled = true ↔
    ndr64Enabled = true ∧ ∃ item ∈ request.items.items, item.namesKmsInterface = true ∧ item.Offers .ndr64 := by
  have hoffers (item : ContextItem) : (item.offerFor .ndr64).isSome = true ↔ item.Offers .ndr64 := by
    rw [← not_iff_not, ← offerFor_eq_none_iff, Bool.not_eq_true, Option.isSome_eq_false_iff, Option.isNone_iff_eq_none]
  simp only [offersNdr64, Bool.and_eq_true, List.any_eq_true, hoffers]

theorem prefers_preferred : Prefers request ndr64Enabled (preferred request ndr64Enabled) := by
  rw [Prefers, ← offersNdr64_iff, preferred]
  by_cases h : offersNdr64 request ndr64Enabled = true
  · exact .inl ⟨h, if_pos h⟩
  · exact .inr ⟨h, if_neg h⟩

theorem identity_preferred : identity (preferred request ndr64Enabled) = preferredGuid request ndr64Enabled := by
  rw [preferred, preferredGuid]
  split_ifs <;> rfl

/-- The bits acknowledged are those of the request among the two supported. -/
theorem negotiate_eq (bits : FeatureBits) : ContextResult.negotiate bits = ⟨3, bits.toUInt16 &&& 0x03, Guid.zero, 0⟩ := by
  have hbits : bits.acknowledged.toUInt16 = bits.toUInt16 &&& 0x03 := UInt8.toUInt16_and bits 0x03
  rw [ContextResult.negotiate, hbits]
  rfl

theorem preceded_iff (transfer : TransferSyntax) (i : ℕ) :
    (request.items.items.take i).any (serviceable transfer) = true ↔ Preceded request transfer i := by
  rw [List.any_eq_true]
  constructor
  · rintro ⟨earlier, hmem, hserviceable⟩
    obtain ⟨j, hj, rfl⟩ := List.mem_take_iff_getElem.mp hmem
    exact ⟨j, by omega, _, List.getElem?_eq_getElem (by omega), serviceable_iff.mp hserviceable⟩
  · rintro ⟨j, hj, earlier, hget, hremains⟩
    obtain ⟨hlt, rfl⟩ := List.getElem?_eq_some_iff.mp hget
    exact ⟨_, List.mem_take_iff_getElem.mpr ⟨j, by omega, rfl⟩, serviceable_iff.mpr hremains⟩

/-- The answer of the scan is the prescribed one. -/
theorem answerTo_eq_iff (transfer : TransferSyntax) (i : ℕ) (item : ContextItem) (result : ContextResult) :
    answerTo transfer (identity transfer) ((request.items.items.take i).any (serviceable transfer)) item = result ↔
      Prescribed request transfer i item result := by
  have hnone : item.featureBits = none ↔ _ := featureBits_eq_none_iff
  have hoffer : item.offerFor transfer = none ↔ _ := offerFor_eq_none_iff
  constructor
  · rintro rfl
    unfold answerTo
    cases hbits : item.featureBits with
    | some bits =>
      dsimp only
      rw [negotiate_eq]
      exact .negotiated (featureBits_eq_some_iff.mp hbits)
    | none =>
      have hnegotiates := hnone.mp hbits
      cases hkms : item.namesKmsInterface with
      | false => exact .foreign hnegotiates hkms
      | true =>
        cases hfound : item.offerFor transfer with
        | none => exact .unserved hnegotiates hkms (.inl (hoffer.mp hfound))
        | some offered =>
          rw [transfer_of_offerFor hfound] at hfound
          have hoffers := offerFor_eq_some_iff.mp hfound
          cases htaken : (request.items.items.take i).any (serviceable transfer) with
          | false =>
            refine .accepted hnegotiates hkms hoffers fun hpreceded => ?_
            rw [(preceded_iff request transfer i).mpr hpreceded] at htaken
            cases htaken
          | true => exact .unserved hnegotiates hkms (.inr ((preceded_iff request transfer i).mp htaken))
  · unfold answerTo
    intro h
    cases h with
    | negotiated hrequests =>
      rw [featureBits_eq_some_iff.mpr hrequests]
      exact negotiate_eq _
    | foreign hnegotiates hkms =>
      rw [hnone.mpr hnegotiates, hkms]
      rfl
    | accepted hnegotiates hkms hoffers hfirst =>
      have htaken := mt (preceded_iff request transfer i).mp hfirst
      rw [Bool.not_eq_true] at htaken
      rw [hnone.mpr hnegotiates, hkms, offerFor_eq_some_iff.mpr hoffers, htaken]
      rfl
    | unserved hnegotiates hkms hwhy =>
      rw [hnone.mpr hnegotiates, hkms]
      rcases hwhy with hmissing | hpreceded
      · rw [hoffer.mpr hmissing]
        rfl
      · rw [(preceded_iff request transfer i).mpr hpreceded]
        cases item.offerFor transfer <;> rfl

/-- An acceptance answers the first item that remains. -/
theorem exists_of_accepted {i : ℕ} {result : ContextResult} (h : (decide request ndr64Enabled).results.items[i]? = some result)
    (haccepted : result.ackResult = ContextResult.acceptance) : ∃ item, request.items.items[i]? = some item ∧
      item.Remains (preferred request ndr64Enabled) ∧ ¬ Preceded request (preferred request ndr64Enabled) i := by
  cases hitem : request.items.items[i]? with
  | none =>
    have hlen := List.getElem?_eq_none_iff.mp hitem
    rw [results_decide, List.getElem?_append_right (by simpa using hlen)] at h
    have hrefused := List.eq_of_mem_replicate (List.mem_of_getElem? h)
    rw [hrefused] at haccepted
    exact absurd haccepted (by decide)
  | some item =>
    rw [getElem?_results_decide request ndr64Enabled hitem, Option.some.injEq] at h
    rw [← h, ackResult_answerTo, serviceable_iff] at haccepted
    refine ⟨item, rfl, haccepted.1, fun hpreceded => ?_⟩
    have htaken := (preceded_iff request _ i).mpr hpreceded
    rw [haccepted.2] at htaken
    cases htaken

/-- What a bind is answered with is the choice the protocol prescribes. -/
theorem negotiated_decide :
    Negotiated request ndr64Enabled (preferred request ndr64Enabled) (decide request ndr64Enabled) where
  prefers := prefers_preferred request ndr64Enabled
  answers i item hitem result := by
    rw [getElem?_results_decide request ndr64Enabled hitem, Option.some.injEq, ← identity_preferred]
    exact answerTo_eq_iff request _ i item result
  unique i j result other hi hj hresult hother := by
    obtain ⟨item, hitem, hremains, hfirst⟩ := exists_of_accepted request ndr64Enabled hi hresult
    obtain ⟨later, hlater, hstays, hearliest⟩ := exists_of_accepted request ndr64Enabled hj hother
    by_contra hne
    rcases Nat.lt_or_gt_of_ne hne with hlt | hgt
    · exact hearliest ⟨i, hlt, item, hitem, hremains⟩
    · exact hfirst ⟨j, hgt, later, hlater, hstays⟩
  context accepted := by
    rw [acceptedContext_iff]
    constructor
    · rintro ⟨htransfer, i, item, result, hitem, hid, hresult, hack⟩
      exact ⟨i, item, result, hitem, hresult, hack, by rw [hid, ← htransfer]⟩
    · rintro ⟨i, item, result, hitem, hresult, hack, rfl⟩
      exact ⟨rfl, i, item, result, hitem, rfl, hresult, hack⟩

/-! ### Whether there is anything to serve -/

/-- An item of the interface that this host can serve, whatever is preferred. -/
def ContextItem.Acceptable (ndr64Enabled : Bool) (item : ContextItem) : Prop :=
  item.namesKmsInterface = true ∧ ¬ item.Negotiates ∧ (item.Offers .ndr32 ∨ (ndr64Enabled = true ∧ item.Offers .ndr64))

/-- NDR64 is preferred for the sake of items that negotiate only, and an item that can be
served in NDR32 is passed over for it. -/
def Shadowed : Prop :=
  ndr64Enabled = true ∧
    (∃ item ∈ request.items.items, item.namesKmsInterface = true ∧ item.Negotiates ∧ item.Offers .ndr64) ∧
    (∀ item ∈ request.items.items, ¬ item.Remains .ndr64) ∧ ∃ item ∈ request.items.items, item.Remains .ndr32

theorem isSome_acceptedContext_iff : (decide request ndr64Enabled).acceptedContext.isSome = true ↔
    ∃ item ∈ request.items.items, item.Remains (preferred request ndr64Enabled) := by
  rw [acceptedContext_decide, Option.isSome_map, List.find?_isSome]
  simp only [serviceable_iff]

/-- Some item is accepted just when one is acceptable, unless the preference is shadowed. -/
theorem accepts_iff_acceptable_iff :
    ((decide request ndr64Enabled).acceptedContext.isSome = true ↔
      ∃ item ∈ request.items.items, item.Acceptable ndr64Enabled) ↔ ¬ Shadowed request ndr64Enabled := by
  rw [isSome_acceptedContext_iff]
  have hprefers := prefers_preferred request ndr64Enabled
  generalize preferred request ndr64Enabled = transfer at hprefers
  rcases hprefers with ⟨⟨henabled, item, hitem, hkms, hoffers⟩, rfl⟩ | ⟨hnone, rfl⟩
  · have hremains (item : ContextItem) (h : item.Remains .ndr64) : item.Acceptable ndr64Enabled :=
      ⟨h.1, h.2.1, .inr ⟨henabled, h.2.2⟩⟩
    constructor
    · rintro hiff ⟨-, -, hnothing, served, hserved, hndr32⟩
      obtain ⟨found, hfound, hndr64⟩ := hiff.mpr ⟨served, hserved, hndr32.1, hndr32.2.1, .inl hndr32.2.2⟩
      exact hnothing found hfound hndr64
    · intro hshadowed
      refine ⟨fun ⟨found, hfound, hndr64⟩ => ⟨found, hfound, hremains found hndr64⟩, ?_⟩
      rintro ⟨served, hserved, hnames, hnegotiates, hoffered⟩
      by_contra hnothing
      push Not at hnothing
      -- The item that has NDR64 preferred is not one that remains, so it negotiates.
      have hitself : item.Negotiates := by
        by_contra hnot
        exact hnothing item hitem ⟨hkms, hnot, hoffers⟩
      refine hshadowed ⟨henabled, ⟨item, hitem, hkms, hitself, hoffers⟩, hnothing, served, hserved, hnames, hnegotiates, ?_⟩
      rcases hoffered with hndr32 | ⟨-, hndr64⟩
      · exact hndr32
      · exact absurd ⟨hnames, hnegotiates, hndr64⟩ (hnothing served hserved)
  · constructor
    · rintro - ⟨henabled, ⟨item, hitem, hkms, -, hoffers⟩, -⟩
      exact hnone ⟨henabled, item, hitem, hkms, hoffers⟩
    · rintro -
      constructor
      · rintro ⟨item, hitem, hkms, hnegotiates, hoffers⟩
        exact ⟨item, hitem, hkms, hnegotiates, .inl hoffers⟩
      · rintro ⟨item, hitem, hkms, hnegotiates, hndr32 | ⟨henabled, hndr64⟩⟩
        · exact ⟨item, hitem, hkms, hnegotiates, hndr32⟩
        · exact absurd ⟨henabled, item, hitem, hkms, hndr64⟩ hnone

/-- A context of the KMS interface as it is framed, with the syntaxes it offers. -/
def framedItem (contextId : UInt16) (syntaxes : List (Vector UInt8 16)) : List UInt8 :=
  Layout.u16.encode contextId ++ [UInt8.ofNat syntaxes.length, 0] ++ (guidToWire kmsInterface).toList ++
    Layout.u32.encode 1 ++ syntaxes.flatMap fun wire => wire.toList ++ Layout.u32.encode 1

/-- One context offers NDR32, and the other NDR64 and feature negotiation. -/
def shadowedBody : List UInt8 :=
  Layout.u16.encode 5840 ++ Layout.u16.encode 5840 ++ Layout.u32.encode 0 ++ [2, 0, 0, 0] ++
    framedItem 0 [guidToWire Wire.ndr32] ++
    framedItem 1 [guidToWire Wire.ndr64, (Layout.bytes 16).decode (btfnWirePrefix ++ List.replicate 8 3)]

/-- The bind as it is read. -/
def shadowedRequest : BindRequest where
  maxXmitFrag := 5840
  maxRecvFrag := 5840
  assocGroup := 0
  declaredItems := 2
  items := ⟨[⟨0, kmsInterface, 1, 0, ⟨[⟨.ndr32, 1⟩], by decide⟩⟩,
    ⟨1, kmsInterface, 1, 0, ⟨[⟨.ndr64, 1⟩, ⟨.featureNegotiation 3, 1⟩], by decide⟩⟩], by decide⟩

/-- The context that offers NDR32 is not accepted, and so none is. -/
theorem nothing_accepted : parse shadowedBody = .ok shadowedRequest ∧
    (∃ item ∈ shadowedRequest.items.items, item.Acceptable true) ∧
    (decide shadowedRequest true).acceptedContext = none := by
  have hread : parse shadowedBody = .ok shadowedRequest := by decide +kernel
  refine ⟨hread, ⟨_, List.mem_cons_self, by decide +kernel, featureBits_eq_none_iff.mp rfl, .inl ?_⟩, by decide +kernel⟩
  exact ⟨⟨.ndr32, 1⟩, List.mem_cons_self, rfl⟩

end Kmsrs.Wire.Bind
