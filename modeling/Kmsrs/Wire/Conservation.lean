import Kmsrs.Wire.Handlers

/-! One step, whatever the state: the inbound buffer is left alone, loses exactly
one PDU, or is emptied on the way out; and what is sent is one well-formed PDU
in answer to the one that was taken. -/

namespace Kmsrs.Wire.Connection

open Kmsrs.Layout Kmsrs.Bytes Kmsrs.Kms Kmsrs.Wire.Bind

variable {ε σ : Type} (env : Env ε σ) (connection : Connection) (entropy : ε) (host : σ) (out : List UInt8)

/-! ### What is sent -/

theorem wellFormed_handleRequest (henv : env.NamesRefusals) (header : RpcHeader) (body : List UInt8) :
    (connection.handleRequest env header body entropy host out).WellFormed header out := by
  rcases handleRequest_cases connection out env entropy host header body with
    ⟨contextId, status, -, h⟩ | ⟨contextId, transfer, -, ⟨-, h⟩ | ⟨reassembly, -, -, h⟩ | ⟨-, -, h⟩⟩
  · rw [h]
    exact wellFormed_fault connection out contextId header status
  · rw [h]
    exact wellFormed_fault _ out contextId header .protocolError
  · rw [h]
    exact Reply.wellFormed_of_silent rfl
  · rw [h]
    exact wellFormed_handleStub _ out contextId env entropy host henv header transfer _

theorem wellFormed_acknowledge (rng : EntropySource ε) {request : RpcHeader} {parameters : AckParameters}
    (decision : BindDecision) (haddress : parameters.addressLen ≤ maxSecondaryAddressLen)
    (hcall : parameters.callId = request.callId)
    (hflags : parameters.replyFlags = replyFlags request parameters.packetType)
    (htype : parameters.packetType ∈ PacketType.emitted)
    (hbind : parameters.packetType = .bindAck → request.packetType? = some .bind) :
    (connection.acknowledge out entropy rng parameters decision).1.WellFormed request out := by
  unfold acknowledge
  split_ifs with hroom
  · split
    · exact Reply.wellFormed_of_silent rfl
    next noise entropy' hnoise =>
      have hlen := length_ackBytes decision (length_drawNoise hnoise)
      exact Reply.wellFormed_of_bytes (by rw [hlen]; rfl) (hlen.trans_le hroom)
        (answers_ackBytes decision haddress (length_drawNoise hnoise) hcall hflags htype hbind)
  · exact Reply.wellFormed_of_silent rfl

/-- The parameters of an acknowledgement repeat the request where they should. -/
theorem replyFlags_ackParameters (header : RpcHeader) (request : BindRequest) (assocGroup : UInt32)
    (isAlter : Bool) :
    (connection.ackParameters header request assocGroup isAlter).replyFlags =
      replyFlags header (connection.ackParameters header request assocGroup isAlter).packetType := by
  cases isAlter <;> rfl

theorem wellFormed_handleBind (rng : EntropySource ε) (header : RpcHeader) (body : List UInt8) (isAlter : Bool)
    (hbind : isAlter = false → header.packetType? = some .bind) :
    (connection.handleBind rng header body entropy out isAlter).1.WellFormed header out := by
  by_cases htransition : connection.phase = .transitioning
  · unfold handleBind negotiate
    split
    · exact Reply.wellFormed_of_silent rfl
    · simp only [htransition]
      exact Reply.wellFormed_of_silent rfl
  · rcases handleBind_cases connection out entropy rng header body isAlter htransition with
      ⟨-, h⟩ | ⟨request, connection', assocGroup, -, -, h⟩
    · rw [h]
      exact Reply.wellFormed_of_silent rfl
    · rw [h]
      refine wellFormed_acknowledge _ entropy out rng _
        (addressLen_ackParameters connection' header request assocGroup isAlter) rfl
        (replyFlags_ackParameters connection' header request assocGroup isAlter) ?_ ?_
      · cases isAlter <;> simp [ackParameters, PacketType.emitted]
      · cases isAlter with
        | false => exact fun _ => hbind rfl
        | true => simp [ackParameters]

theorem wellFormed_dispatch (henv : env.NamesRefusals) (header : RpcHeader) (body : List UInt8) :
    (connection.dispatch env header body entropy host out).WellFormed header out := by
  unfold dispatch
  split_ifs
  · exact wellFormed_nak connection out header .protocolVersionNotSupported
  · exact wellFormed_fault _ out 0 header .protocolError
  · split
    next htype => exact wellFormed_handleBind connection entropy out env.rng header body false fun _ => htype
    next => exact wellFormed_handleBind connection entropy out env.rng header body true (by simp)
    next => exact wellFormed_handleRequest env connection entropy host out henv header body
    next => exact Reply.wellFormed_of_silent rfl

/-! ### What is taken -/

theorem inbound_handleRequest (header : RpcHeader) (body : List UInt8) :
    (connection.handleRequest env header body entropy host out).connection.inbound = connection.inbound := by
  rcases handleRequest_cases connection out env entropy host header body with
    ⟨contextId, status, -, h⟩ | ⟨contextId, transfer, -, ⟨-, h⟩ | ⟨reassembly, -, -, h⟩ | ⟨-, -, h⟩⟩
  · rw [h]
    exact (logged_fault connection out header.callId contextId status).inbound
  · rw [h]
    exact ((logged_record connection.stopReassembly _).trans (logged_fault _ out _ contextId _)).inbound
  · rw [h]
    show (connection.startReassembly header contextId).inbound = connection.inbound
    unfold startReassembly
    split_ifs <;> rfl
  · rw [h]
    exact (logged_handleStub connection.stopReassembly out header.callId contextId env entropy host transfer _).inbound

theorem connection_acknowledge (rng : EntropySource ε) (parameters : AckParameters) (decision : BindDecision) :
    (connection.acknowledge out entropy rng parameters decision).1.connection = connection := by
  unfold acknowledge
  split_ifs
  · split <;> rfl
  · rfl

theorem inbound_handleBind (rng : EntropySource ε) (header : RpcHeader) (body : List UInt8) (isAlter : Bool) :
    (connection.handleBind rng header body entropy out isAlter).1.connection.inbound = connection.inbound ∨
      ((connection.handleBind rng header body entropy out isAlter).1.connection.inbound = .empty ∧
        (connection.handleBind rng header body entropy out isAlter).1.step.closes = true) := by
  by_cases htransition : connection.phase = .transitioning
  · unfold handleBind negotiate
    split
    · exact .inr ⟨rfl, rfl⟩
    · simp only [htransition]
      exact .inl trivial
  · rcases handleBind_cases connection out entropy rng header body isAlter htransition with
      ⟨-, h⟩ | ⟨request, connection', assocGroup, -, hlogged, h⟩
    · rw [h]
      exact .inr ⟨rfl, rfl⟩
    · rw [h, connection_acknowledge]
      exact .inl hlogged.inbound

/-- A dispatched PDU never touches what is behind it, except to drop it all and
close. -/
theorem inbound_dispatch (header : RpcHeader) (body : List UInt8) :
    (connection.dispatch env header body entropy host out).connection.inbound = connection.inbound ∨
      ((connection.dispatch env header body entropy host out).connection.inbound = .empty ∧
        (connection.dispatch env header body entropy host out).step.closes = true) := by
  unfold dispatch
  split_ifs
  · rw [nak_eq]
    split_ifs <;> exact .inr ⟨rfl, rfl⟩
  · exact .inl ((logged_record connection _).trans (logged_fault _ out _ 0 _)).inbound
  · split
    · exact inbound_handleBind connection entropy out env.rng header body false
    · exact inbound_handleBind connection entropy out env.rng header body true
    · exact .inl (inbound_handleRequest env connection entropy host out header body)
    · exact .inr ⟨rfl, rfl⟩

theorem hasCompletePdu_of_none {connection : Connection} (h : Frame.next connection.inbound.items = none) :
    connection.hasCompletePdu = false := by
  unfold Frame.next at h
  unfold hasCompletePdu pduLen
  split at h
  next hnone => simp [hnone]
  next header rest hread =>
    simp only at h
    split_ifs at h with h₁ h₂ h₃
    simp only [hread, Option.map_some]
    exact decide_eq_false (Nat.not_le.mpr h₃)

/-! ### A step -/

/-- A step waits and takes nothing, takes the first PDU and nothing behind it, or
empties the buffer and closes. -/
theorem inbound_step (now : Instant) :
    (connection.hasCompletePdu = false ∧ (connection.step env now entropy host out).step = .needMore ∧
        (connection.step env now entropy host out).connection.inbound = connection.inbound) ∨
      (∃ header body rest, Frame.next connection.inbound.items = some (.pdu header body, rest) ∧
        (connection.step env now entropy host out).connection.inbound =
          connection.inbound.drop header.fragLength.toNat) ∨
      ((connection.step env now entropy host out).connection.inbound = .empty ∧
        (connection.step env now entropy host out).step.closes = true) := by
  cases hframe : Frame.next connection.inbound.items with
  | none =>
    rw [step_of_none env now entropy host out hframe]
    exact .inl ⟨hasCompletePdu_of_none hframe, rfl, rfl⟩
  | some found =>
    obtain ⟨frame, rest⟩ := found
    cases frame with
    | malformed reason =>
      rw [step_of_malformed env now entropy host out hframe]
      exact .inr (.inr ⟨rfl, rfl⟩)
    | pdu header body =>
      rw [step_of_pdu env now entropy host out hframe]
      rcases inbound_dispatch env (connection.consumed now header) entropy host out header body with h | h
      · exact .inr (.inl ⟨header, body, rest, rfl, h⟩)
      · exact .inr (.inr h)

theorem answers_step (henv : env.NamesRefusals) (now : Instant) {len : ℕ}
    (hlen : (connection.step env now entropy host out).step.len? = some len) :
    ∃ header body rest, Frame.next connection.inbound.items = some (.pdu header body, rest) ∧
      len ≤ out.length ∧ Answers header ((connection.step env now entropy host out).out.take len) := by
  cases hframe : Frame.next connection.inbound.items with
  | none =>
    rw [step_of_none env now entropy host out hframe] at hlen
    cases hlen
  | some found =>
    obtain ⟨frame, rest⟩ := found
    cases frame with
    | malformed reason =>
      rw [step_of_malformed env now entropy host out hframe] at hlen
      cases hlen
    | pdu header body =>
      rw [step_of_pdu env now entropy host out hframe] at hlen ⊢
      obtain ⟨hroom, hanswers⟩ :=
        wellFormed_dispatch env (connection.consumed now header) entropy host out henv header body len hlen
      exact ⟨header, body, rest, rfl, hroom, hanswers⟩

/-- Framing is conserved and every reply is well formed: from any state, into any
buffer, for any host that does not refuse with an unnamed zero. -/
theorem step_conserves (henv : env.NamesRefusals) (now : Instant) :
    ((connection.hasCompletePdu = false ∧ (connection.step env now entropy host out).step = .needMore ∧
          (connection.step env now entropy host out).connection.inbound = connection.inbound) ∨
        (∃ header behind, RpcHeader.layout.readFromPrefix connection.inbound.items = some (header, behind) ∧
          header.fragLength.toNat ≤ connection.inbound.length ∧
          (connection.step env now entropy host out).connection.inbound =
            connection.inbound.drop header.fragLength.toNat) ∨
        ((connection.step env now entropy host out).connection.inbound = .empty ∧
          (connection.step env now entropy host out).step.closes = true)) ∧
      ∀ len, (connection.step env now entropy host out).step.len? = some len →
        ∃ header behind, RpcHeader.layout.readFromPrefix connection.inbound.items = some (header, behind) ∧
          len ≤ out.length ∧ Answers header ((connection.step env now entropy host out).out.take len) := by
  constructor
  · rcases inbound_step env connection entropy host out now with
      h | ⟨header, body, rest, hframe, h⟩ | h
    · exact .inl h
    · obtain ⟨⟨behind, hread⟩, -, -, hfits, -, -⟩ := Frame.next_eq_pdu hframe
      exact .inr (.inl ⟨header, behind, hread, hfits, h⟩)
    · exact .inr (.inr h)
  · intro len hlen
    obtain ⟨header, body, rest, hframe, hroom, hanswers⟩ :=
      answers_step env connection entropy host out henv now hlen
    obtain ⟨⟨behind, hread⟩, -⟩ := Frame.next_eq_pdu hframe
    exact ⟨header, behind, hread, hroom, hanswers⟩

/-- A host that turns every client away, on a platform whose entropy never runs
out; no request it sees needs a digest. -/
def denying : Env Unit Unit where
  digests := ⟨fun _ => Vector.replicate 32 0, fun _ _ => Vector.replicate 32 0⟩
  rng := ⟨fun _ n => (some (Vector.replicate n 0x5a), ())⟩
  activate _ _ := (.refuse .accessDenied, ())

theorem denying_namesRefusals : denying.NamesRefusals := by
  intro _ _ _ h
  simp [denying] at h

/-- A connection that holds the header of a request and has seen no bind. -/
def unboundRequest : Connection :=
  { Connection.new 0 true with
    inbound := ⟨RpcHeader.layout.encode ⟨5, 0, 0, 3, dataRepresentation, 16, 0, 7⟩, by decide⟩ }

theorem step_conserves_unboundRequest :
    ∃ header behind, RpcHeader.layout.readFromPrefix unboundRequest.inbound.items = some (header, behind) ∧
      32 ≤ 32 ∧ Answers header ((unboundRequest.step denying 0 () () (List.replicate 32 0)).out.take 32) := by
  have hsent : (unboundRequest.step denying 0 () () (List.replicate 32 0)).step.len? = some 32 := by
    decide +kernel
  exact (step_conserves denying unboundRequest () () (List.replicate 32 0) denying_namesRefusals 0).2 32 hsent

/-- The fault in answer to it sets a flag that is neither a fragment flag nor the
multiplexing flag. -/
theorem fault_sets_didNotExecute :
    (unboundRequest.step denying 0 () () (List.replicate 32 0)).step = .send 32 ∧
      (RpcHeader.layout.readFromPrefix
          ((unboundRequest.step denying 0 () () (List.replicate 32 0)).out.take 32)).map
        (fun found => found.1.flags &&& ~~~(PacketFlags.complete ||| PacketFlags.concMpx)) =
        some PacketFlags.didNotExecute := by
  constructor <;> decide +kernel

end Kmsrs.Wire.Connection
