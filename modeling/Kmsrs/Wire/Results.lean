import Kmsrs.Wire.Bind

/-! What a bind is answered with. Each proposed context is answered from the
item itself and from whether an earlier one was accepted; the first serviceable
item is the one accepted. Sixteen results are all there is room for. -/

namespace Kmsrs.Wire.Bind

open Kmsrs.Layout Kmsrs.Bytes Kmsrs.Kms

/-! ### What was read -/

section Read

variable {α β : Type} {reader reader' : Reader}

/-- A reader that succeeds went through its first part. -/
theorem bind_eq_ok {m : ReadM α} {f : α → ReadM β} {b : β} (h : (m >>= f) reader = .ok (b, reader')) :
    ∃ a middle, m reader = .ok (a, middle) ∧ f a middle = .ok (b, reader') := by
  cases hm : m reader with
  | error e =>
    simp only [bind, StateT.bind, Except.bind, hm] at h
    cases h
  | ok r =>
    refine ⟨r.1, r.2, rfl, ?_⟩
    simpa only [bind, StateT.bind, Except.bind, hm] using h

theorem take_eq_ok {len : ℕ} {slice : List UInt8} (h : Reader.take len reader = .ok (slice, reader')) :
    range reader.bytes reader.offset (reader.offset + len) = some slice ∧
      reader'.bytes = reader.bytes ∧ reader'.offset = reader.offset + len := by
  unfold Reader.take at h
  split at h
  · cases h
  next found hfound =>
    cases h
    exact ⟨hfound, rfl, rfl⟩

theorem field_eq_ok {L : Layout α} {a : α} (h : Reader.field L reader = .ok (a, reader')) :
    L.readAt reader.bytes reader.offset = some a ∧
      reader'.bytes = reader.bytes ∧ reader'.offset = reader.offset + L.size := by
  obtain ⟨slice, middle, htake, hpure⟩ := bind_eq_ok h
  obtain ⟨hrange, hmoved⟩ := take_eq_ok htake
  cases hpure
  exact ⟨by rw [readAt, hrange, Option.map_some], hmoved⟩

theorem map_eq_ok {m : ReadM α} {f : α → β} {b : β} (h : (f <$> m) reader = .ok (b, reader')) :
    ∃ a, m reader = .ok (a, reader') ∧ b = f a := by
  rw [map_eq_pure_bind] at h
  obtain ⟨a, middle, hm, hpure⟩ := bind_eq_ok h
  cases hpure
  exact ⟨a, hm, rfl⟩

/-- As many items as declared, up to the cap. -/
theorem length_readItems {remaining : ℕ} {items items' : ArrayVec ContextItem maxContextItems}
    (h : readItems remaining items reader = .ok (items', reader')) :
    items'.length = min (items.length + remaining) maxContextItems := by
  induction remaining generalizing items reader with
  | zero =>
    cases h
    exact (Nat.min_eq_left items'.le_cap).symm
  | succ remaining ih =>
    unfold readItems at h
    split at h
    next hfull =>
      cases h
      have hlen : items'.length = maxContextItems := by simpa [ArrayVec.isFull, ArrayVec.length] using hfull
      rw [hlen, Nat.min_eq_right (by omega)]
    next hfull =>
      have hroom : items.items.length + 1 ≤ maxContextItems := by
        have hle := items.le_cap
        have hne : items.items.length ≠ maxContextItems := by simpa [ArrayVec.isFull] using hfull
        omega
      obtain ⟨item, middle, -, hrest⟩ := bind_eq_ok h
      rw [ArrayVec.tryPush_eq_some item hroom] at hrest
      rw [ih hrest]
      simp only [ArrayVec.length, List.length_append, List.length_singleton]
      omega

end Read

theorem u8_of_readAt {bytes : List UInt8} {offset : ℕ} {byte : UInt8}
    (h : Layout.u8.readAt bytes offset = some byte) : byte = bytes.getD offset 0 := by
  unfold readAt range at h
  split at h
  next hfits =>
    cases h
    simp [Layout.u8, List.headD_eq_head?_getD, List.head?_take, List.head?_drop, List.getD_eq_getElem?_getD]
  next => cases h

/-- The count byte of the context list. -/
def contextCount (body : List UInt8) : UInt8 := body.getD 8 0

/-- An accepted body declares what its count byte says and carries that many
items, up to the cap. -/
theorem parse_eq_ok {body : List UInt8} {request : BindRequest} (h : parse body = .ok request) :
    request.declaredItems = (contextCount body).toNat ∧
      request.items.length = min request.declaredItems maxContextItems := by
  unfold parse at h
  cases hread : readBind ⟨body, 0⟩ with
  | error e => simp [hread, Except.map] at h
  | ok r =>
    obtain ⟨request', reader'⟩ := r
    simp only [hread, Except.map, Except.ok.injEq] at h
    subst h
    obtain ⟨_, r₁, h₁, hread⟩ := bind_eq_ok hread
    obtain ⟨_, r₂, h₂, hread⟩ := bind_eq_ok hread
    obtain ⟨_, r₃, h₃, hread⟩ := bind_eq_ok hread
    obtain ⟨declared, r₄, h₄, hread⟩ := bind_eq_ok hread
    obtain ⟨_, r₅, -, hread⟩ := bind_eq_ok hread
    obtain ⟨items, r₆, hitems, hread⟩ := bind_eq_ok hread
    cases hread
    obtain ⟨-, hb₁, ho₁⟩ := field_eq_ok h₁
    obtain ⟨-, hb₂, ho₂⟩ := field_eq_ok h₂
    obtain ⟨-, hb₃, ho₃⟩ := field_eq_ok h₃
    obtain ⟨count, hcount, rfl⟩ := map_eq_ok h₄
    obtain ⟨hbyte, -⟩ := field_eq_ok hcount
    rw [hb₃, hb₂, hb₁, ho₃, ho₂, ho₁] at hbyte
    have hlen := length_readItems hitems
    have hempty : (ArrayVec.empty : ArrayVec ContextItem maxContextItems).length = 0 := rfl
    rw [hempty, Nat.zero_add] at hlen
    refine ⟨?_, hlen⟩
    show count.toNat = (contextCount body).toNat
    rw [u8_of_readAt hbyte]
    rfl

/-! ### What was decided -/

/-- Names the interface, offers the syntax and is no negotiation. -/
def serviceable (transfer : TransferSyntax) (item : ContextItem) : Bool :=
  item.featureBits.isNone && item.namesKmsInterface && (item.offerFor transfer).isSome

/-- The answer to one item, given whether an earlier one was accepted. -/
def answerTo (transfer : TransferSyntax) (guid : Guid) (taken : Bool) (item : ContextItem) : ContextResult :=
  match item.featureBits with
  | some bits => .negotiate bits
  | none =>
    if !item.namesKmsInterface then .reject ContextResult.reasonAbstractSyntax
    else
      match item.offerFor transfer with
      | none => .reject ContextResult.reasonTransferSyntax
      | some offered =>
        if taken then .reject ContextResult.reasonTransferSyntax else .accept guid offered.version

def answersTo (transfer : TransferSyntax) (guid : Guid) : Bool → List ContextItem → List ContextResult
  | _, [] => []
  | taken, item :: items =>
    answerTo transfer guid taken item :: answersTo transfer guid (taken || serviceable transfer item) items

variable {transfer : TransferSyntax} {guid : Guid}

theorem decideItem_eq (accepted : Option AcceptedContext) (item : ContextItem) :
    decideItem transfer guid accepted item =
      (answerTo transfer guid accepted.isSome item,
        accepted <|> if serviceable transfer item then some ⟨item.contextId, transfer⟩ else none) := by
  unfold decideItem answerTo serviceable
  cases item.featureBits <;> cases item.namesKmsInterface <;> cases item.offerFor transfer <;>
    cases accepted <;> rfl

/-- Accepting is reserved for the first serviceable item. -/
theorem ackResult_answerTo {taken : Bool} {item : ContextItem} :
    (answerTo transfer guid taken item).ackResult = ContextResult.acceptance ↔
      serviceable transfer item = true ∧ taken = false := by
  unfold answerTo serviceable
  cases item.featureBits <;> cases item.namesKmsInterface <;> cases item.offerFor transfer <;>
    cases taken <;> simp [ContextResult.negotiate, ContextResult.reject, ContextResult.accept,
      ContextResult.acceptance, ContextResult.negotiateAck, ContextResult.providerRejection]

@[simp] theorem length_answersTo (taken : Bool) (items : List ContextItem) :
    (answersTo transfer guid taken items).length = items.length := by
  induction items generalizing taken with
  | nil => rfl
  | cons item items ih => simp [answersTo, ih]

/-- The answer at a position depends on the item there and on those before it. -/
theorem getElem?_answersTo (taken : Bool) (items : List ContextItem) (i : ℕ) :
    (answersTo transfer guid taken items)[i]? =
      items[i]?.map (answerTo transfer guid (taken || (items.take i).any (serviceable transfer))) := by
  induction items generalizing taken i with
  | nil => rfl
  | cons item items ih =>
    cases i with
    | zero => simp [answersTo]
    | succ i => simp [answersTo, ih, Bool.or_assoc]

variable (transfer guid) in
/-- With room for every answer, every item is answered and the first serviceable
one is accepted. -/
theorem decideItems_eq (items : List ContextItem) (results : ArrayVec ContextResult maxContextItems)
    (accepted : Option AcceptedContext) (h : results.items.length + items.length ≤ maxContextItems) :
    (decideItems transfer guid items results accepted).results.items =
        results.items ++ answersTo transfer guid accepted.isSome items ∧
      (decideItems transfer guid items results accepted).acceptedContext =
        (accepted <|> (items.find? (serviceable transfer)).map fun item => ⟨item.contextId, transfer⟩) := by
  induction items generalizing results accepted with
  | nil => simp [decideItems, answersTo]
  | cons item items ih =>
    simp only [List.length_cons] at h
    rw [decideItems, decideItem_eq, ArrayVec.tryPush_eq_some _ (by omega)]
    obtain ⟨hresults, haccepted⟩ := ih ⟨results.items ++ [answerTo transfer guid accepted.isSome item], by
      simp; omega⟩ (accepted <|> if serviceable transfer item then some ⟨item.contextId, transfer⟩ else none)
      (by simp; omega)
    refine ⟨hresults.trans ?_, haccepted.trans ?_⟩
    · cases accepted <;> cases hs : serviceable transfer item <;> simp [answersTo, hs]
    · cases accepted <;> cases hs : serviceable transfer item <;> simp [hs]

theorem refuseRest_eq (remaining : ℕ) (results : ArrayVec ContextResult maxContextItems) :
    (refuseRest remaining results).items = results.items ++
      List.replicate (min remaining (maxContextItems - results.items.length))
        (.reject ContextResult.reasonTransferSyntax) := by
  induction remaining generalizing results with
  | zero => simp [refuseRest]
  | succ remaining ih =>
    unfold refuseRest
    by_cases hroom : results.items.length + 1 ≤ maxContextItems
    · rw [ArrayVec.tryPush_eq_some _ hroom]
      have hcount : min (remaining + 1) (maxContextItems - results.items.length) =
          min remaining (maxContextItems - (results.items.length + 1)) + 1 := by omega
      simp only [ih, List.length_append, List.length_singleton, hcount, List.replicate_succ,
        List.append_assoc, List.singleton_append]
    · rw [ArrayVec.tryPush_eq_none _ (by omega)]
      have hcount : min (remaining + 1) (maxContextItems - results.items.length) = 0 := by omega
      simp [hcount]

section Decide

variable (request : BindRequest) (ndr64Enabled : Bool)

/-- The items' answers in order, then rejections while there is room. -/
theorem results_decide :
    (decide request ndr64Enabled).results.items =
      answersTo (preferred request ndr64Enabled) (preferredGuid request ndr64Enabled) false
          request.items.items ++
        List.replicate (min (request.declaredItems - request.items.length)
          (maxContextItems - request.items.length)) (.reject ContextResult.reasonTransferSyntax) := by
  have hitems := (decideItems_eq (preferred request ndr64Enabled) (preferredGuid request ndr64Enabled)
    request.items.items .empty none (by simpa using request.items.le_cap)).1
  simp only [decide, refuseRest_eq, hitems]
  simp [ArrayVec.length]

theorem acceptedContext_decide :
    (decide request ndr64Enabled).acceptedContext =
      (request.items.items.find? (serviceable (preferred request ndr64Enabled))).map fun item =>
        ⟨item.contextId, preferred request ndr64Enabled⟩ := by
  have hitems := (decideItems_eq (preferred request ndr64Enabled) (preferredGuid request ndr64Enabled)
    request.items.items .empty none (by simpa using request.items.le_cap)).2
  simpa [decide] using hitems

theorem length_results_decide :
    (decide request ndr64Enabled).results.length =
      min (max request.declaredItems request.items.length) maxContextItems := by
  have hle := request.items.le_cap
  simp only [ArrayVec.length, results_decide, List.length_append, length_answersTo, List.length_replicate]
  omega

/-- The result at the position of an item. -/
theorem getElem?_results_decide {i : ℕ} {item : ContextItem} (h : request.items.items[i]? = some item) :
    (decide request ndr64Enabled).results.items[i]? =
      some (answerTo (preferred request ndr64Enabled) (preferredGuid request ndr64Enabled)
        ((request.items.items.take i).any (serviceable (preferred request ndr64Enabled))) item) := by
  have hlt : i < request.items.items.length := (List.getElem?_eq_some_iff.mp h).1
  rw [results_decide, List.getElem?_append_left (by simpa using hlt), getElem?_answersTo, h]
  simp

theorem preferred_eq : preferred request ndr64Enabled = .ndr32 ∨
    (preferred request ndr64Enabled = .ndr64 ∧ ndr64Enabled = true) := by
  unfold preferred offersNdr64
  cases ndr64Enabled
  · simp
  · by_cases h : (request.items.items.any fun item =>
      item.namesKmsInterface && (item.offerFor .ndr64).isSome) = true <;> simp [h]

/-- A context is accepted exactly when its item's result says so. -/
theorem acceptedContext_iff (accepted : AcceptedContext) :
    (decide request ndr64Enabled).acceptedContext = some accepted ↔
      accepted.transfer = preferred request ndr64Enabled ∧
        ∃ (i : ℕ) (item : ContextItem) (result : ContextResult), request.items.items[i]? = some item ∧
          item.contextId = accepted.contextId ∧
          (decide request ndr64Enabled).results.items[i]? = some result ∧
          result.ackResult = ContextResult.acceptance := by
  rw [acceptedContext_decide, Option.map_eq_some_iff]
  constructor
  · rintro ⟨item, hfind, rfl⟩
    obtain ⟨hs, i, hi, hitem, hbefore⟩ := List.find?_eq_some_iff_getElem.mp hfind
    have hget : request.items.items[i]? = some item := by rw [List.getElem?_eq_getElem hi, hitem]
    refine ⟨rfl, i, item, _, hget, rfl, getElem?_results_decide request ndr64Enabled hget, ?_⟩
    refine ackResult_answerTo.mpr ⟨hs, ?_⟩
    rw [List.any_eq_false]
    intro earlier hmem
    obtain ⟨j, hj, rfl⟩ := List.mem_iff_getElem.mp hmem
    have hji : j < i := by simp at hj; omega
    simpa using hbefore j hji
  · rintro ⟨htransfer, i, item, result, hget, hid, hresult, hack⟩
    rw [getElem?_results_decide request ndr64Enabled hget, Option.some_inj] at hresult
    subst hresult
    obtain ⟨hs, hbefore⟩ := ackResult_answerTo.mp hack
    obtain ⟨hi, hitem⟩ := List.getElem?_eq_some_iff.mp hget
    refine ⟨item, List.find?_eq_some_iff_getElem.mpr ⟨hs, i, hi, hitem, ?_⟩, ?_⟩
    · intro j hj
      have hmem : request.items.items[j] ∈ request.items.items.take i :=
        List.mem_take_iff_getElem.mpr ⟨j, by omega, rfl⟩
      simpa using List.any_eq_false.mp hbefore _ hmem
    · rw [hid, ← htransfer]

/-- One result for each proposed context: as many as declared, at each item's
position the answer to that item, and past the cap a provider rejection each. -/
def OneResultEach (decision : BindDecision) : Prop :=
  decision.results.length = request.declaredItems ∧
    (∀ i item, request.items.items[i]? = some item → decision.results.items[i]? =
      some (answerTo (preferred request ndr64Enabled) (preferredGuid request ndr64Enabled)
        ((request.items.items.take i).any (serviceable (preferred request ndr64Enabled))) item)) ∧
    ∀ i, maxContextItems ≤ i → i < request.declaredItems →
      decision.results.items[i]? = some (.reject ContextResult.reasonTransferSyntax)

end Decide

/-- The results have the items' own capacity, so there is never room for a
rejection past it: the count byte decides. -/
theorem oneResultEach_iff {body : List UInt8} {request : BindRequest} (h : parse body = .ok request)
    (ndr64Enabled : Bool) : OneResultEach request ndr64Enabled (decide request ndr64Enabled) ↔
      (contextCount body).toNat ≤ maxContextItems := by
  obtain ⟨hdeclared, hitems⟩ := parse_eq_ok h
  have hlen := length_results_decide request ndr64Enabled
  rw [← hdeclared]
  constructor
  · rintro ⟨hcount, -, -⟩
    omega
  · intro hcap
    refine ⟨by omega, fun i item hi => getElem?_results_decide request ndr64Enabled hi, ?_⟩
    intro i hpast hi
    omega

/-- The body of a bind that proposes the KMS interface once under each ID, in one
transfer syntax. -/
def proposal (contextIds : List UInt16) (guid : Guid) : List UInt8 :=
  Layout.u16.encode 5840 ++ Layout.u16.encode 5840 ++ Layout.u32.encode 0 ++
    [UInt8.ofNat contextIds.length, 0, 0, 0] ++
    contextIds.flatMap fun contextId =>
      Layout.u16.encode contextId ++ [1, 0] ++ (guidToWire kmsInterface).toList ++ Layout.u32.encode 1 ++
        (guidToWire guid).toList ++ Layout.u32.encode 2

theorem exists_of_isOk {ε α : Type} {x : Except ε α} (h : x.isOk = true) : ∃ a, x = .ok a := by
  cases x with
  | error e => cases h
  | ok a => exact ⟨a, rfl⟩

theorem oneResultEach_two_contexts : ∃ request, parse (proposal [0, 1] Wire.ndr32) = .ok request ∧
    OneResultEach request true (decide request true) := by
  obtain ⟨request, h⟩ : ∃ request, parse (proposal [0, 1] Wire.ndr32) = .ok request :=
    exists_of_isOk (by decide +kernel)
  exact ⟨request, h, (oneResultEach_iff h true).mpr (by decide +kernel)⟩

/-- Seventeen proposed contexts parse and are answered with sixteen results. -/
theorem seventeen_contexts_sixteen_results :
    ∃ request, parse (proposal (List.replicate 17 0) Wire.ndr32) = .ok request ∧
      (decide request true).results.length = 16 ∧ ¬ OneResultEach request true (decide request true) := by
  obtain ⟨request, h⟩ : ∃ request, parse (proposal (List.replicate 17 0) Wire.ndr32) = .ok request :=
    exists_of_isOk (by decide +kernel)
  have hcount : (contextCount (proposal (List.replicate 17 0) Wire.ndr32)).toNat = 17 := by decide +kernel
  obtain ⟨hdeclared, hitems⟩ := parse_eq_ok h
  have hlen := length_results_decide request true
  have hcap : maxContextItems = 16 := rfl
  refine ⟨request, h, by omega, ?_⟩
  rintro ⟨hsame, -, -⟩
  omega

end Kmsrs.Wire.Bind
