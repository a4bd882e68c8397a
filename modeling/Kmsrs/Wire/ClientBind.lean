import Kmsrs.Wire.Client

/-! The acknowledgement as the client reads it. The offset of the results is
worked out anew from the length of the address, relative to the PDU and not to
the body; the position of a result is the client's own number for the context.
For contexts numbered as they were offered, the client settles on the context
that was accepted. -/

namespace Kmsrs.Wire.Client

open Kmsrs.Layout Kmsrs.Bytes Kmsrs.Kms Kmsrs.Wire.Bind

/-- The context a server accepted, and what to frame stubs in. -/
structure Accepted where
  contextId : UInt16
  transfer : TransferSyntax
deriving DecidableEq

/-- What reading an acknowledgement may raise. -/
inductive Warning where
  | ndr64WithoutFeatureNegotiation
deriving DecidableEq

/-- The loop over the results, from the index and the cursor on: what was
accepted and whether negotiation was acknowledged. -/
def readResults (body : List UInt8) : ℕ → ℕ → ℕ → Option Accepted → Bool → Option (Option Accepted × Bool)
  | 0, _, _, accepted, sawFeatureAck => some (accepted, sawFeatureAck)
  | remaining + 1, index, cursor, accepted, sawFeatureAck =>
    (u16.readAt body cursor).bind fun ackResult =>
      if ackResult = 3 then readResults body remaining (index + 1) (cursor + resultLen) accepted true
      else if ackResult = 0 ∧ accepted.isNone then
        ((Layout.bytes 16).readAt body (cursor + 4)).bind fun wire =>
          (u16TryFrom index).bind fun contextId =>
            readResults body remaining (index + 1) (cursor + resultLen) (some ⟨contextId, .classify wire⟩) sawFeatureAck
      else readResults body remaining (index + 1) (cursor + resultLen) accepted sawFeatureAck

/-- The accepted context, if the acknowledgement can be read and accepts one, and
what was raised. -/
def readBindAck (body : List UInt8) : Option Accepted × List Warning :=
  let read : Option (Accepted × Bool) := do
    let addressLen ← u16.readAt body 8
    let afterAddress := 10 + addressLen.toNat
    let resultsAt := afterAddress + alignPadding (headerLen + afterAddress)
    let count ← body[resultsAt]?
    let (accepted, sawFeatureAck) ← readResults body count.toNat 0 (resultsAt + 4) none false
    let accepted ← accepted
    pure (accepted, sawFeatureAck)
  match read with
  | none => (none, [])
  | some (accepted, sawFeatureAck) =>
    (some accepted,
      if accepted.transfer = .ndr64 ∧ !sawFeatureAck then [.ndr64WithoutFeatureNegotiation] else [])

/-! ### The results, one by one -/

/-- The same loop over results that are already apart. -/
def scan : ℕ → Option Accepted → Bool → List ContextResult → Option Accepted × Bool
  | _, accepted, sawFeatureAck, [] => (accepted, sawFeatureAck)
  | index, accepted, sawFeatureAck, result :: results =>
    if result.ackResult = 3 then scan (index + 1) accepted true results
    else if result.ackResult = 0 ∧ accepted.isNone then
      scan (index + 1) (some ⟨UInt16.ofNat index, .classify (guidToWire result.transferSyntax)⟩) sawFeatureAck results
    else scan (index + 1) accepted sawFeatureAck results

theorem flatten_resultFields (result : ContextResult) :
    (resultFields result).flatten = u16.encode result.ackResult ++ (u16.encode result.ackReason ++
      ((Layout.bytes 16).encode (guidToWire result.transferSyntax) ++ u32.encode result.syntaxVersion)) := by
  simp [resultFields, toList_guidToWire]

/-- The cursor moves from one result to the next. -/
theorem readResults_append (results : List ContextResult) (front : List UInt8) (index : ℕ) (accepted : Option Accepted)
    (sawFeatureAck : Bool) (h : index + results.length ≤ 2 ^ 16) :
    readResults (front ++ (results.flatMap resultFields).flatten) results.length index front.length accepted
      sawFeatureAck = some (scan index accepted sawFeatureAck results) := by
  induction results generalizing front index accepted sawFeatureAck with
  | nil => rfl
  | cons result results ih =>
    rw [List.length_cons] at h
    have hsplit : front ++ ((result :: results).flatMap resultFields).flatten =
        (front ++ (resultFields result).flatten) ++ (results.flatMap resultFields).flatten := by
      simp
    have hcursor : front.length + resultLen = (front ++ (resultFields result).flatten).length := by
      rw [List.length_append, length_resultFields]
    have hnext := fun accepted sawFeatureAck =>
      ih (front ++ (resultFields result).flatten) (index + 1) accepted sawFeatureAck (by omega)
    have hack : u16.readAt (front ++ ((result :: results).flatMap resultFields).flatten) front.length =
        some result.ackResult := by
      rw [hsplit, flatten_resultFields]
      simp only [List.append_assoc]
      rw [← List.append_assoc]
      exact u16.readAt_append front _ _ rfl
    have hwire : (Layout.bytes 16).readAt (front ++ ((result :: results).flatMap resultFields).flatten)
        (front.length + 4) = some (guidToWire result.transferSyntax) := by
      have hread := (Layout.bytes 16).readAt_append
        (front ++ (u16.encode result.ackResult ++ u16.encode result.ackReason)) (guidToWire result.transferSyntax)
        (u32.encode result.syntaxVersion ++ (results.flatMap resultFields).flatten)
        (by simp : front.length + 4 = _)
      rw [hsplit, flatten_resultFields]
      simpa only [List.append_assoc] using hread
    rw [List.length_cons, readResults, hack, Option.bind_some, scan]
    split_ifs
    · rw [hsplit, hcursor]
      exact hnext accepted true
    · rw [hwire, Option.bind_some, u16TryFrom_eq_some (by omega), Option.bind_some, hsplit, hcursor]
      exact hnext _ sawFeatureAck
    · rw [hsplit, hcursor]
      exact hnext accepted sawFeatureAck

/-! ### What the client settles on -/

theorem classify_preferredGuid (request : BindRequest) (ndr64Enabled : Bool) :
    TransferSyntax.classify (guidToWire (preferredGuid request ndr64Enabled)) = preferred request ndr64Enabled := by
  unfold preferredGuid preferred
  split_ifs
  · decide +kernel
  · decide +kernel

/-- Negotiation is seen wherever it is acknowledged. -/
theorem scan_snd (results : List ContextResult) (index : ℕ) (accepted : Option Accepted) (sawFeatureAck : Bool) :
    (scan index accepted sawFeatureAck results).2 =
      (sawFeatureAck || results.any fun result => result.ackResult = ContextResult.negotiateAck) := by
  induction results generalizing index accepted sawFeatureAck with
  | nil => simp [scan]
  | cons result results ih =>
    rw [scan]
    split_ifs with hnegotiated
    · rw [ih]
      simp [hnegotiated, ContextResult.negotiateAck]
    · rw [ih]
      simp [hnegotiated, ContextResult.negotiateAck]
    · rw [ih]
      simp [hnegotiated, ContextResult.negotiateAck]

/-- Rejections change nothing. -/
theorem scan_replicate_reject (count index : ℕ) (accepted : Option Accepted) (sawFeatureAck : Bool) (reason : UInt16) :
    scan index accepted sawFeatureAck (List.replicate count (.reject reason)) = (accepted, sawFeatureAck) := by
  induction count generalizing index with
  | zero => rfl
  | succ count ih =>
    rw [List.replicate_succ, scan]
    exact ih (index + 1)

/-- An item that carries no negotiation is accepted or rejected. -/
theorem answerTo_cases {transfer : TransferSyntax} {guid : Guid} {item : ContextItem}
    (hbits : item.featureBits = none) (taken : Bool) :
    (serviceable transfer item = true ∧ taken = false ∧
        ∃ version, answerTo transfer guid taken item = .accept guid version) ∨
      ((serviceable transfer item = false ∨ taken = true) ∧
        ∃ reason, answerTo transfer guid taken item = .reject reason) := by
  unfold answerTo serviceable
  rw [hbits]
  cases item.namesKmsInterface with
  | false => exact .inr ⟨.inl rfl, _, rfl⟩
  | true =>
    cases item.offerFor transfer with
    | none => exact .inr ⟨.inl rfl, _, rfl⟩
    | some offered =>
      cases taken with
      | false => exact .inl ⟨rfl, rfl, _, rfl⟩
      | true => exact .inr ⟨.inr rfl, _, rfl⟩

/-- Among answers the first acceptance is the first serviceable item, and its
position is the item's own context ID. -/
theorem scan_answersTo {transfer : TransferSyntax} {guid : Guid} (hguid : .classify (guidToWire guid) = transfer)
    (items : List ContextItem) (index count : ℕ) (accepted : Option Accepted) (sawFeatureAck : Bool)
    (hids : ∀ j item, items[j]? = some item → item.contextId = UInt16.ofNat (index + j)) :
    (scan index accepted sawFeatureAck (answersTo transfer guid accepted.isSome items ++
        List.replicate count (.reject ContextResult.reasonTransferSyntax))).1 =
      (accepted <|> (items.find? (serviceable transfer)).map fun item => ⟨item.contextId, transfer⟩) := by
  induction items generalizing index accepted sawFeatureAck with
  | nil =>
    rw [answersTo, List.nil_append, scan_replicate_reject]
    simp
  | cons item items ih =>
    have hrest : ∀ j item', items[j]? = some item' → item'.contextId = UInt16.ofNat (index + 1 + j) := by
      intro j item' hitem
      rw [Nat.add_assoc, Nat.add_comm 1 j]
      exact hids (j + 1) item' hitem
    have hid : item.contextId = UInt16.ofNat index := hids 0 item rfl
    have hnext := fun accepted sawFeatureAck => ih (index + 1) accepted sawFeatureAck hrest
    rw [answersTo, List.cons_append, scan]
    cases hbits : item.featureBits with
    | some bits =>
      have hanswer : answerTo transfer guid accepted.isSome item = .negotiate bits := by simp [answerTo, hbits]
      have hskip : serviceable transfer item = false := by simp [serviceable, hbits]
      have hack : (ContextResult.negotiate bits).ackResult = 3 := rfl
      rw [hanswer, hskip, Bool.or_false, if_pos hack, hnext]
      simp [hskip]
    | none =>
      rcases answerTo_cases hbits accepted.isSome with ⟨hserves, hfree, version, hanswer⟩ | ⟨hpassed, reason, hanswer⟩
      · have hnone : accepted = none := by simpa using hfree
        subst hnone
        have hack : (ContextResult.accept guid version).ackResult = 0 := rfl
        rw [hanswer, hserves, Bool.or_true, if_neg (by simp [hack]), if_pos ⟨hack, rfl⟩]
        rw [show (ContextResult.accept guid version).transferSyntax = guid from rfl, hguid, ← hid]
        rw [show true = (some (⟨item.contextId, transfer⟩ : Accepted)).isSome from rfl, hnext]
        simp [hserves]
      · rw [hanswer, if_neg (by simp [ContextResult.reject, ContextResult.providerRejection]),
          if_neg (by simp [ContextResult.reject, ContextResult.providerRejection])]
        rcases hpassed with hskip | htaken
        · rw [hskip, Bool.or_false, hnext]
          simp [hskip]
        · rw [htaken, Bool.true_or, ← htaken, hnext]
          obtain ⟨earlier, rfl⟩ := Option.isSome_iff_exists.mp htaken
          simp

theorem scan_decide {request : BindRequest} (ndr64Enabled : Bool)
    (hids : ∀ i item, request.items.items[i]? = some item → item.contextId = UInt16.ofNat i) :
    (scan 0 none false (Bind.decide request ndr64Enabled).results.items).1 =
      (Bind.decide request ndr64Enabled).acceptedContext.map fun context => ⟨context.contextId, context.transfer⟩ := by
  rw [results_decide, acceptedContext_decide, Option.map_map]
  exact scan_answersTo (classify_preferredGuid request ndr64Enabled) request.items.items 0 _ none false
    (by simpa using hids)

/-! ### Finding the results -/

/-- The body of an acknowledgement up to its alignment. -/
def ackHead (parameters : AckParameters) : List UInt8 :=
  u16.encode parameters.maxXmitFrag ++ (u16.encode parameters.maxRecvFrag ++ (u32.encode parameters.assocGroup ++
    (u16.encode (UInt16.ofNat parameters.addressLen) ++
      if parameters.addressLen > 0 then parameters.secondaryAddress ++ [0] else [])))

theorem drop_ackBytes (parameters : AckParameters) (noise : List UInt8) (decision : BindDecision) :
    (ackBytes parameters noise decision).drop headerLen =
      (ackHead parameters ++ noise ++ [UInt8.ofNat decision.results.length, 0, 0, 0]) ++
        (decision.results.items.flatMap resultFields).flatten := by
  have hfields : ∀ fragLength, (parameters.headFields fragLength).flatten =
      RpcHeader.layout.encode (.forReply parameters.packetType parameters.replyFlags parameters.callId fragLength) ++
        ackHead parameters := by
    intro fragLength
    unfold AckParameters.headFields ackHead
    split_ifs <;> simp
  rw [ackBytes, hfields, List.append_assoc, List.drop_left' (by simp)]
  simp [tailFields]

theorem length_ackHead (parameters : AckParameters) : (ackHead parameters).length = 10 + parameters.addressLen := by
  unfold ackHead AckParameters.addressLen
  cases hempty : parameters.secondaryAddress.isEmpty <;> simp
  omega

/-- The reader finds the results where the writer put them. -/
theorem readBindAck_ackBytes {parameters : AckParameters} (haddress : parameters.addressLen ≤ maxSecondaryAddressLen)
    {noise : List UInt8} (hnoise : noise.length = parameters.padding) (decision : BindDecision) :
    readBindAck ((ackBytes parameters noise decision).drop headerLen) =
      match scan 0 none false decision.results.items with
      | (none, _) => (none, [])
      | (some accepted, sawFeatureAck) =>
        (some accepted,
          if accepted.transfer = .ndr64 ∧ !sawFeatureAck then [.ndr64WithoutFeatureNegotiation] else []) := by
  have hcap := decision.results.le_cap
  simp only [maxSecondaryAddressLen] at haddress
  simp only [maxContextItems] at hcap
  have hlen : (UInt16.ofNat parameters.addressLen).toNat = parameters.addressLen :=
    UInt16.toNat_ofNat_of_lt' (haddress.trans_lt (by decide))
  have hcount : (UInt8.ofNat decision.results.length).toNat = decision.results.items.length :=
    UInt8.toNat_ofNat_of_lt' (hcap.trans_lt (by decide))
  have hhead := length_ackHead parameters
  have hpadding : parameters.padding = alignPadding (headerLen + (10 + parameters.addressLen)) := by
    rw [AckParameters.padding, AckParameters.beforePadding, ackPrefixLen, Nat.add_assoc]
  obtain ⟨body, hbody⟩ : ∃ body, body = (ackBytes parameters noise decision).drop headerLen := ⟨_, rfl⟩
  have hread : u16.readAt body 8 = some (UInt16.ofNat parameters.addressLen) := by
    rw [hbody, drop_ackBytes, ackHead]
    have h := u16.readAt_append
      (u16.encode parameters.maxXmitFrag ++ u16.encode parameters.maxRecvFrag ++ u32.encode parameters.assocGroup)
      (UInt16.ofNat parameters.addressLen)
      ((if parameters.addressLen > 0 then parameters.secondaryAddress ++ [0] else []) ++ noise ++
        [UInt8.ofNat decision.results.length, 0, 0, 0] ++ (decision.results.items.flatMap resultFields).flatten)
      (by simp : 8 = _)
    simpa only [List.append_assoc] using h
  have hat : body[10 + parameters.addressLen + alignPadding (headerLen + (10 + parameters.addressLen))]? =
      some (UInt8.ofNat decision.results.length) := by
    rw [hbody, drop_ackBytes, ← hpadding, ← hnoise, ← hhead, ← List.length_append, List.append_assoc (_ ++ _),
      List.getElem?_append_right le_rfl]
    simp
  have hresults : readResults body decision.results.items.length 0
      (10 + parameters.addressLen + alignPadding (headerLen + (10 + parameters.addressLen)) + 4) none false =
        some (scan 0 none false decision.results.items) := by
    have hcursor : 10 + parameters.addressLen + alignPadding (headerLen + (10 + parameters.addressLen)) + 4 =
        (ackHead parameters ++ noise ++ [UInt8.ofNat decision.results.length, 0, 0, 0]).length := by
      simp only [List.length_append, hhead, hnoise, hpadding, List.length_cons, List.length_nil]
    rw [hcursor, hbody, drop_ackBytes]
    exact readResults_append decision.results.items _ 0 none false (by omega)
  rw [← hbody, readBindAck]
  simp only [hread, hlen, hat, hcount, hresults, Option.bind_eq_bind, Option.bind_some]
  cases hscan : scan 0 none false decision.results.items with
  | mk accepted sawFeatureAck =>
    cases accepted with
    | none => simp
    | some accepted => simp

/-- The client reads what was decided, whatever the port, the sizes and the
noise, provided that its contexts are numbered in the order they were offered. -/
theorem ack_read_as_decided {ε : Type} {request : BindRequest} {ndr64Enabled : Bool}
    (hids : ∀ i item, request.items.items[i]? = some item → item.contextId = UInt16.ofNat i)
    (port maxXmitFrag maxRecvFrag : UInt16) (callId assocGroup : UInt32) (clientFlags : PacketFlags)
    (rng : EntropySource ε) {entropy entropy' : ε} {out out' : List UInt8} {len : ℕ}
    (h : writeAck ⟨.bindAck, callId, assocGroup, maxXmitFrag, maxRecvFrag, (SecondaryAddress.forPort port).bytes,
      clientFlags⟩ (Bind.decide request ndr64Enabled) rng entropy out = (.ok (len, out'), entropy')) :
    (readBindAck ((out'.take len).drop headerLen)).1 =
        (Bind.decide request ndr64Enabled).acceptedContext.map (fun context => ⟨context.contextId, context.transfer⟩) ∧
      (Warning.ndr64WithoutFeatureNegotiation ∈ (readBindAck ((out'.take len).drop headerLen)).2 ↔
        (∃ context, (Bind.decide request ndr64Enabled).acceptedContext = some context ∧ context.transfer = .ndr64) ∧
          ∀ result ∈ (Bind.decide request ndr64Enabled).results.items, result.ackResult ≠ ContextResult.negotiateAck) := by
  have haddress : AckParameters.addressLen ⟨.bindAck, callId, assocGroup, maxXmitFrag, maxRecvFrag,
      (SecondaryAddress.forPort port).bytes, clientFlags⟩ ≤ maxSecondaryAddressLen := by
    have hfive := (SecondaryAddress.forPort port).le_five
    simp only [AckParameters.addressLen, maxSecondaryAddressLen]
    split_ifs <;> omega
  rw [writeAck_eq haddress] at h
  split_ifs at h with hroom
  · split at h
    · cases h
    next noise entropy'' hnoise =>
      cases h
      have hlen := length_drawNoise hnoise
      rw [List.take_left' (length_ackBytes _ hlen), readBindAck_ackBytes haddress hlen]
      have hfst := scan_decide ndr64Enabled hids
      have hsnd := scan_snd (Bind.decide request ndr64Enabled).results.items 0 none false
      revert hfst hsnd
      generalize scan 0 none false (Bind.decide request ndr64Enabled).results.items = scanned
      obtain ⟨accepted, sawFeatureAck⟩ := scanned
      rintro rfl rfl
      cases (Bind.decide request ndr64Enabled).acceptedContext with
      | none => simp
      | some context =>
        simp only [Option.map_some, true_and]
        split_ifs with hraised
        · simpa using hraised
        · simpa using hraised
  · cases h

/-- Offers of NDR32 and NDR64 on contexts 0 and 1, without negotiation. -/
def bothOffered : BindRequest where
  maxXmitFrag := 5840
  maxRecvFrag := 5840
  assocGroup := 0
  items := ⟨[⟨0, kmsInterface, 1, 0, ⟨[⟨.ndr32, 2⟩], by decide⟩⟩, ⟨1, kmsInterface, 1, 0, ⟨[⟨.ndr64, 1⟩], by decide⟩⟩],
    by decide⟩
  declaredItems := 2

/-- The acknowledgement of both offers, from a listener on port 1688. -/
def bothAcknowledged : Except AckError (ℕ × List UInt8) × Unit :=
  writeAck ⟨.bindAck, 2, 0x1234, 5840, 5840, (SecondaryAddress.forPort 1688).bytes, .complete⟩
    (Bind.decide bothOffered true) ⟨fun _ n => (some (Vector.replicate n 0x5A), ())⟩ () (List.replicate 96 0)

theorem ndr64_read_with_warning :
    ∃ len out', bothAcknowledged = (.ok (len, out'), ()) ∧
      (readBindAck ((out'.take len).drop headerLen)).1 = some ⟨1, .ndr64⟩ ∧
      Warning.ndr64WithoutFeatureNegotiation ∈ (readBindAck ((out'.take len).drop headerLen)).2 := by
  obtain ⟨⟨len, out'⟩, hwritten⟩ : ∃ written, bothAcknowledged.1 = .ok written :=
    exists_of_isOk (by decide +kernel)
  have hall : bothAcknowledged = (.ok (len, out'), ()) :=
    Prod.ext hwritten (Subsingleton.elim _ _)
  have hids : ∀ i item, bothOffered.items.items[i]? = some item → item.contextId = UInt16.ofNat i := by
    intro i item hitem
    match i with
    | 0 => cases hitem; rfl
    | 1 => cases hitem; rfl
    | i + 2 => cases hitem
  obtain ⟨haccepted, hraised⟩ := ack_read_as_decided hids 1688 5840 5840 2 0x1234 .complete _ hall
  use len, out', hall
  constructor
  · rw [haccepted]
    decide +kernel
  · rw [hraised]
    exact ⟨⟨⟨1, .ndr64⟩, by decide +kernel, rfl⟩, by decide +kernel⟩

end Kmsrs.Wire.Client
