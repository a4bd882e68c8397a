import Kmsrs.Wire.Reply

/-! What each handler does to the connection and to the caller's buffer. The
call-level handlers only log; a request also moves the reassembly, a bind the
phase; refusing the framing empties the inbound buffer and closes. -/

namespace Kmsrs.Wire

open Kmsrs.Layout Kmsrs.Bytes Kmsrs.Kms Kmsrs.Wire.Bind

/-- How much of the buffer a step asks to be sent. -/
def Step.len? : Step → Option ℕ
  | .send len | .sendThenClose len _ => some len
  | .needMore | .close _ => none

def Step.closes : Step → Bool
  | .sendThenClose _ _ | .close _ => true
  | .needMore | .send _ => false

/-- What a reply asks to be sent is one well-formed PDU within the buffer. -/
def Reply.WellFormed (request : RpcHeader) (out : List UInt8) (reply : Reply) : Prop :=
  ∀ len, reply.step.len? = some len → len ≤ out.length ∧ Answers request (reply.out.take len)

theorem Reply.wellFormed_of_bytes {request : RpcHeader} {out bytes rest : List UInt8} {connection : Connection}
    {step : Step} (hstep : step.len? = some bytes.length) (hroom : bytes.length ≤ out.length)
    (h : Answers request bytes) : Reply.WellFormed request out ⟨step, connection, bytes ++ rest⟩ := by
  intro len hlen
  obtain rfl : bytes.length = len := by simpa [hstep] using hlen
  rw [List.take_left]
  exact ⟨hroom, h⟩

theorem Reply.wellFormed_of_silent {request : RpcHeader} {out : List UInt8} {reply : Reply}
    (h : reply.step.len? = none) : Reply.WellFormed request out reply := by
  intro len hlen
  rw [h] at hlen
  cases hlen

/-- The phase after a bind that accepted a context, or none. -/
def Phase.accept (phase : Phase) : Option AcceptedContext → Phase
  | none => phase
  | some accepted =>
    match phase with
    | .unbound association => .bound ⟨association.assocGroup, ⟨(ArrayVec.empty.pushEvicting accepted).1⟩⟩
    | .bound association =>
      let kept := association.state.contexts.retain fun existing => existing.transfer ≠ accepted.transfer
      .bound { association with state := ⟨(kept.pushEvicting accepted).1⟩ }
    | .transitioning => .transitioning

/-- The host never refuses with the code of success under another name. -/
def Env.NamesRefusals {ε σ : Type} (env : Env ε σ) : Prop :=
  ∀ host request host', env.activate host request ≠ (.refuse (.other 0), host')

namespace Connection

/-- The same connection up to its log. -/
def Logged (connection connection' : Connection) : Prop :=
  ∃ events lost, connection' = { connection with events := events, lostEvents := lost }

theorem Logged.refl (connection : Connection) : Logged connection connection := ⟨_, _, rfl⟩

theorem Logged.trans {a b c : Connection} (h₁ : Logged a b) (h₂ : Logged b c) : Logged a c := by
  obtain ⟨_, _, rfl⟩ := h₁
  obtain ⟨events, lost, rfl⟩ := h₂
  exact ⟨events, lost, rfl⟩

theorem logged_record (connection : Connection) (event : ConnectionEvent) :
    Logged connection (connection.record event) := ⟨_, _, rfl⟩

theorem Logged.withPhase {a b : Connection} (h : Logged a b) (phase : Phase) :
    Logged { a with phase } { b with phase } := by
  obtain ⟨events, lost, rfl⟩ := h
  exact ⟨events, lost, rfl⟩

theorem Logged.phase {a b : Connection} (h : Logged a b) : b.phase = a.phase := by
  obtain ⟨_, _, rfl⟩ := h; rfl

theorem Logged.inbound {a b : Connection} (h : Logged a b) : b.inbound = a.inbound := by
  obtain ⟨_, _, rfl⟩ := h; rfl

theorem Logged.reassembly {a b : Connection} (h : Logged a b) : b.reassembly = a.reassembly := by
  obtain ⟨_, _, rfl⟩ := h; rfl

theorem Logged.reassemblingContext {a b : Connection} (h : Logged a b) :
    b.reassemblingContext = a.reassemblingContext := by
  obtain ⟨_, _, rfl⟩ := h; rfl

theorem Logged.ndr64Enabled {a b : Connection} (h : Logged a b) : b.ndr64Enabled = a.ndr64Enabled := by
  obtain ⟨_, _, rfl⟩ := h; rfl

variable (connection : Connection) (out : List UInt8) (callId : UInt32) (contextId : UInt16)

/-! ### Faults and refusals -/

theorem fault_eq (status : NcaStatus) : connection.fault out callId contextId status =
    if Fault.faultLen ≤ out.length then
      ⟨.send Fault.faultLen, connection.record (.faulted status),
        Fault.bytes callId contextId status ++ out.drop Fault.faultLen⟩
    else ⟨.close .faulted, connection.record (.faulted status), out⟩ := by
  unfold fault
  rw [Fault.write_eq]
  split_ifs <;> rfl

theorem nak_eq (reason : NakReason) : connection.nak out callId reason =
    if nakLen ≤ out.length then
      ⟨.sendThenClose nakLen .malformed,
        { connection.record (.rejected .unsupportedRpcVersion) with inbound := .empty },
        nakBytes callId reason ++ out.drop nakLen⟩
    else ⟨.close .malformed, { connection.record (.rejected .unsupportedRpcVersion) with inbound := .empty }, out⟩ := by
  unfold nak
  rw [writeNak_eq]
  split_ifs <;> rfl

theorem logged_fault (status : NcaStatus) :
    Logged connection (connection.fault out callId contextId status).connection := by
  rw [fault_eq]
  split_ifs <;> exact logged_record connection _

/-- A fault is sent or closes; it never waits. -/
theorem step_fault_ne (status : NcaStatus) : (connection.fault out callId contextId status).step ≠ .needMore := by
  rw [fault_eq]
  split_ifs <;> simp

theorem step_nak_ne (reason : NakReason) : (connection.nak out callId reason).step ≠ .needMore := by
  rw [nak_eq]
  split_ifs <;> simp

theorem wellFormed_fault (request : RpcHeader) (status : NcaStatus) :
    (connection.fault out request.callId contextId status).WellFormed request out := by
  rw [fault_eq]
  split_ifs with hroom
  · exact Reply.wellFormed_of_bytes (by simp [Step.len?]) (by simpa using hroom)
      (Fault.answers request contextId status)
  · exact Reply.wellFormed_of_silent rfl

theorem wellFormed_nak (request : RpcHeader) (reason : NakReason) :
    (connection.nak out request.callId reason).WellFormed request out := by
  rw [nak_eq]
  split_ifs with hroom
  · exact Reply.wellFormed_of_bytes (by simp [Step.len?, length_nakBytes]) (by simpa [length_nakBytes] using hroom)
      (answers_nakBytes request reason)
  · exact Reply.wellFormed_of_silent rfl

theorem logged_refuse (transfer : TransferSyntax) (result : HResult) :
    Logged connection (connection.refuse callId contextId transfer result out).connection := by
  unfold refuse
  simp only
  split <;> exact logged_record connection _

theorem step_refuse_ne (transfer : TransferSyntax) (result : HResult) :
    (connection.refuse callId contextId transfer result out).step ≠ .needMore := by
  unfold refuse
  simp only
  split <;> simp

/-- A response PDU that was written is well formed, unless it is a refusal with
the code of success. -/
theorem wellFormed_writeResponsePdu (request : RpcHeader) {transfer : TransferSyntax} {result : HResult}
    {payload out' : List UInt8} {len : ℕ} (hresult : result ≠ .other 0)
    (h : writeResponsePdu out request.callId contextId transfer result payload = some (len, out'))
    (connection : Connection) : Reply.WellFormed request out ⟨.send len, connection, out'⟩ := by
  rw [writeResponsePdu_eq] at h
  split_ifs at h with hfits
  cases h
  have hlen := length_responsePdu request.callId contextId transfer result payload
  exact Reply.wellFormed_of_bytes (by rw [hlen]; rfl) (hlen.trans_le hfits.2.1)
    (answers_responsePdu request contextId transfer hresult hfits.1)

theorem wellFormed_refuse (request : RpcHeader) (transfer : TransferSyntax) {result : HResult}
    (hresult : result ≠ .other 0) :
    (connection.refuse request.callId contextId transfer result out).WellFormed request out := by
  unfold refuse
  simp only
  split
  next hwrite => exact wellFormed_writeResponsePdu out contextId request hresult hwrite _
  next => exact Reply.wellFormed_of_silent rfl

/-! ### Answering a call -/

variable {ε σ : Type} (env : Env ε σ) (entropy : ε) (host : σ)

theorem logged_answer (transfer : TransferSyntax) (payload : List UInt8) :
    Logged connection (connection.answer env callId contextId transfer payload entropy host out).connection := by
  unfold answer
  split
  · exact logged_refuse connection out callId contextId transfer .invalidData
  · exact logged_refuse connection out callId contextId transfer .invalidData
  · exact logged_fault connection out callId contextId .protocolError
  · split
    · exact logged_refuse connection out callId contextId transfer _
    · simp only
      split
      · exact .refl connection
      · split
        · exact .refl connection
        · exact logged_record connection _

theorem step_answer_ne (transfer : TransferSyntax) (payload : List UInt8) :
    (connection.answer env callId contextId transfer payload entropy host out).step ≠ .needMore := by
  unfold answer
  split
  · exact step_refuse_ne connection out callId contextId transfer .invalidData
  · exact step_refuse_ne connection out callId contextId transfer .invalidData
  · exact step_fault_ne connection out callId contextId .protocolError
  · split
    · exact step_refuse_ne connection out callId contextId transfer _
    · simp only
      split
      · simp
      · split <;> simp

theorem wellFormed_answer (henv : env.NamesRefusals) (request : RpcHeader) (transfer : TransferSyntax)
    (payload : List UInt8) :
    (connection.answer env request.callId contextId transfer payload entropy host out).WellFormed request out := by
  unfold answer
  split
  · exact wellFormed_refuse connection out contextId request transfer (by simp)
  · exact wellFormed_refuse connection out contextId request transfer (by simp)
  · exact wellFormed_fault connection out contextId request .protocolError
  · split
    next result host' hrefuse =>
      refine wellFormed_refuse connection out contextId request transfer ?_
      rintro rfl
      exact henv _ _ _ hrefuse
    next =>
      simp only
      split
      · exact Reply.wellFormed_of_silent rfl
      · split
        · exact Reply.wellFormed_of_silent rfl
        next hwrite => exact wellFormed_writeResponsePdu out contextId request (by simp) hwrite _

theorem logged_handleStub (transfer : TransferSyntax) (assembled : List UInt8) :
    Logged connection
      (connection.handleStub env callId contextId transfer assembled entropy host out).connection := by
  unfold handleStub
  split
  · exact logged_fault connection out callId contextId .unknownInterface
  · exact logged_fault connection out callId contextId .protocolError
  · exact logged_answer connection out callId contextId env entropy host transfer _

theorem step_handleStub_ne (transfer : TransferSyntax) (assembled : List UInt8) :
    (connection.handleStub env callId contextId transfer assembled entropy host out).step ≠ .needMore := by
  unfold handleStub
  split
  · exact step_fault_ne connection out callId contextId .unknownInterface
  · exact step_fault_ne connection out callId contextId .protocolError
  · exact step_answer_ne connection out callId contextId env entropy host transfer _

theorem wellFormed_handleStub (henv : env.NamesRefusals) (request : RpcHeader) (transfer : TransferSyntax)
    (assembled : List UInt8) :
    (connection.handleStub env request.callId contextId transfer assembled entropy host out).WellFormed
      request out := by
  unfold handleStub
  split
  · exact wellFormed_fault connection out contextId request .unknownInterface
  · exact wellFormed_fault connection out contextId request .protocolError
  · exact wellFormed_answer connection out contextId env entropy host henv request transfer _

/-! ### Requests -/

/-- A fragment of a call on a context that is held. -/
def Serves (header : RpcHeader) (body : List UInt8) (contextId : UInt16) (transfer : TransferSyntax) : Prop :=
  ∃ association, connection.phase = .bound association ∧
    connection.fragmentContext header body = some contextId ∧ association.service contextId = .ok transfer

/-- What has been put together once this fragment is added. -/
def assembled (header : RpcHeader) (body : List UInt8) : List UInt8 :=
  (if header.flags.contains .firstFrag then [] else connection.reassembly.items) ++ body

theorem items_startReassembly (header : RpcHeader) (contextId : UInt16) (body : List UInt8) :
    (connection.startReassembly header contextId).reassembly.items ++ body =
      connection.assembled header body := by
  unfold startReassembly assembled
  split_ifs <;> rfl

theorem stopReassembly_startReassembly (header : RpcHeader) (contextId : UInt16)
    (reassembly : ArrayVec UInt8 maxStubLen) :
    { connection.startReassembly header contextId with reassembly }.stopReassembly =
      connection.stopReassembly := by
  unfold startReassembly stopReassembly
  split_ifs <;> rfl

/-- A request faults without effect, or it belongs to a call on a held context:
then it overflows the reassembly, extends it, or completes the call. -/
theorem handleRequest_cases (header : RpcHeader) (body : List UInt8) :
    (∃ contextId status, (∀ contextId transfer, ¬ connection.Serves header body contextId transfer) ∧
        connection.handleRequest env header body entropy host out =
          (connection.fault out header.callId contextId status).unasked entropy host) ∨
      ∃ contextId transfer, connection.Serves header body contextId transfer ∧
        ((maxStubLen < (connection.assembled header body).length ∧
            connection.handleRequest env header body entropy host out =
              (connection.overflowed out header.callId contextId).unasked entropy host) ∨
          (∃ reassembly : ArrayVec UInt8 maxStubLen, reassembly.items = connection.assembled header body ∧
            header.flags.contains .lastFrag = false ∧
            connection.handleRequest env header body entropy host out =
              (⟨.needMore, { connection.startReassembly header contextId with reassembly }, out⟩ :
                Reply).unasked entropy host) ∨
          ((connection.assembled header body).length ≤ maxStubLen ∧ header.flags.contains .lastFrag = true ∧
            connection.handleRequest env header body entropy host out =
              connection.stopReassembly.handleStub env header.callId contextId transfer
                (connection.assembled header body) entropy host out)) := by
  have hlength (contextId : UInt16) : (connection.startReassembly header contextId).reassembly.items.length +
      body.length = (connection.assembled header body).length := by
    rw [← items_startReassembly connection header contextId body, List.length_append]
  unfold handleRequest
  cases hphase : connection.phase with
  | unbound _ | transitioning =>
    refine .inl ⟨0, .unknownInterface, ?_, rfl⟩
    rintro _ _ ⟨association, hbound, -, -⟩
    rw [hphase] at hbound
    cases hbound
  | bound association =>
    cases hcontext : connection.fragmentContext header body with
    | none =>
      refine .inl ⟨0, .protocolError, ?_, rfl⟩
      rintro _ _ ⟨_, -, hsome, -⟩
      rw [hcontext] at hsome
      cases hsome
    | some contextId =>
      cases hservice : association.service contextId with
      | error status =>
        refine .inl ⟨contextId, status, ?_, by simp only [hservice]⟩
        rintro _ _ ⟨_, hbound, hsome, hok⟩
        rw [hphase] at hbound
        rw [hcontext] at hsome
        cases hbound
        cases hsome
        rw [hservice] at hok
        cases hok
      | ok transfer =>
        refine .inr ⟨contextId, transfer, ⟨association, hphase, hcontext, hservice⟩, ?_⟩
        simp only [hservice]
        by_cases hfits : (connection.assembled header body).length ≤ maxStubLen
        · rw [ArrayVec.tryExtendFromSlice_eq_some ((hlength contextId).trans_le hfits)]
          have hassembled := items_startReassembly connection header contextId body
          cases hlast : header.flags.contains .lastFrag with
          | false => exact .inr (.inl ⟨_, hassembled, rfl, rfl⟩)
          | true =>
            refine .inr (.inr ⟨hfits, rfl, ?_⟩)
            simp only [Bool.not_true, Bool.false_eq_true, if_false, hassembled,
              ArrayVec.tryExtendFromSlice_empty hfits, stopReassembly_startReassembly]
        · rw [ArrayVec.tryExtendFromSlice_eq_none (by rw [hlength contextId]; omega)]
          refine .inl ⟨Nat.lt_of_not_le hfits, ?_⟩
          have hstop := stopReassembly_startReassembly connection header contextId
            (connection.startReassembly header contextId).reassembly
          simp only [overflowed]
          rw [← hstop]

/-! ### Binds -/

theorem negotiate_eq (request : BindRequest) (h : connection.phase ≠ .transitioning) :
    ∃ connection' assocGroup,
      connection.negotiate request = some (connection', Bind.decide request connection.ndr64Enabled, assocGroup) ∧
        Logged { connection with
          phase := connection.phase.accept (Bind.decide request connection.ndr64Enabled).acceptedContext }
          connection' := by
  unfold negotiate
  cases hphase : connection.phase with
  | transitioning => exact absurd hphase h
  | unbound association =>
    cases haccepted : (Bind.decide request connection.ndr64Enabled).acceptedContext with
    | none =>
      refine ⟨connection, association.assocGroup, by simp [Association.bind, haccepted], ?_⟩
      rw [Phase.accept, ← hphase]
      exact .refl connection
    | some accepted =>
      refine ⟨_, association.assocGroup, by simp [Association.bind, haccepted]; rfl, ?_⟩
      exact (logged_record connection _).withPhase _
  | bound association =>
    cases haccepted : (Bind.decide request connection.ndr64Enabled).acceptedContext with
    | none =>
      refine ⟨connection, association.assocGroup, by simp [Association.alterContext, haccepted, ← hphase], ?_⟩
      rw [Phase.accept, ← hphase]
      exact .refl connection
    | some accepted =>
      refine ⟨_, association.assocGroup, by simp only [Association.alterContext, haccepted]; rfl, ?_⟩
      exact (logged_record connection _).withPhase _

theorem addressLen_ackParameters (header : RpcHeader) (request : BindRequest) (assocGroup : UInt32)
    (isAlter : Bool) :
    (connection.ackParameters header request assocGroup isAlter).addressLen ≤ maxSecondaryAddressLen := by
  have hlen := connection.secondaryAddress.le_five
  unfold ackParameters AckParameters.addressLen
  cases isAlter
  · simp only [Bool.false_eq_true, if_false, maxSecondaryAddressLen]
    split_ifs <;> omega
  · simp [maxSecondaryAddressLen]

/-- An acknowledgement, when there is room and entropy for it. -/
def acknowledge (rng : EntropySource ε) (parameters : AckParameters) (decision : BindDecision) : Reply × ε :=
  if parameters.ackLen decision.results.length ≤ out.length then
    match drawNoise rng entropy parameters.padding with
    | (none, entropy) => (⟨.close .refused, connection, out⟩, entropy)
    | (some noise, entropy) =>
      (⟨.send (parameters.ackLen decision.results.length), connection, ackBytes parameters noise decision ++
        out.drop (parameters.ackLen decision.results.length)⟩, entropy)
  else (⟨.close .refused, connection, out⟩, entropy)

theorem handleBind_eq (rng : EntropySource ε) (header : RpcHeader) (body : List UInt8) (isAlter : Bool) :
    connection.handleBind rng header body entropy out isAlter =
      match Bind.parse body with
      | .error _ => (connection.reject .unexpectedPacketType out, entropy)
      | .ok request =>
        match connection.negotiate request with
        | none => (⟨.close .malformed, connection, out⟩, entropy)
        | some (connection, decision, assocGroup) =>
          connection.acknowledge out entropy rng (connection.ackParameters header request assocGroup isAlter)
            decision := by
  unfold handleBind
  cases Bind.parse body with
  | error error => rfl
  | ok request =>
    dsimp only
    cases connection.negotiate request with
    | none => rfl
    | some negotiated =>
      obtain ⟨connection', decision, assocGroup⟩ := negotiated
      dsimp only
      rw [writeAck_eq (addressLen_ackParameters connection' header request assocGroup isAlter)]
      unfold acknowledge
      split_ifs
      · cases drawNoise rng entropy (connection'.ackParameters header request assocGroup isAlter).padding with
        | mk drawn entropy' => cases drawn <;> rfl
      · rfl

/-- A bind is rejected as malformed, or its decision moves the phase and is
acknowledged. -/
theorem handleBind_cases (rng : EntropySource ε) (header : RpcHeader) (body : List UInt8) (isAlter : Bool)
    (h : connection.phase ≠ .transitioning) :
    ((∃ error, Bind.parse body = .error error) ∧
        connection.handleBind rng header body entropy out isAlter =
          (connection.reject .unexpectedPacketType out, entropy)) ∨
      ∃ request connection' assocGroup, Bind.parse body = .ok request ∧
        Logged { connection with
          phase := connection.phase.accept (Bind.decide request connection.ndr64Enabled).acceptedContext }
          connection' ∧
        connection.handleBind rng header body entropy out isAlter =
          connection'.acknowledge out entropy rng
            (connection'.ackParameters header request assocGroup isAlter)
            (Bind.decide request connection.ndr64Enabled) := by
  rw [handleBind_eq]
  cases hparse : Bind.parse body with
  | error error => exact .inl ⟨⟨error, rfl⟩, rfl⟩
  | ok request =>
    obtain ⟨connection', assocGroup, hnegotiate, hlogged⟩ := negotiate_eq connection request h
    refine .inr ⟨request, connection', assocGroup, rfl, hlogged, ?_⟩
    simp only [hnegotiate]

end Connection

end Kmsrs.Wire
