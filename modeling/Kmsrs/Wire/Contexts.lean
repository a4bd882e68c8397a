import Kmsrs.Wire.Dispatch
import Kmsrs.Wire.Results

/-! The contexts a connection holds. Only a bind or an alter context moves them,
by the one context it accepts; the syntaxes held stay pairwise different, so
there is always room for the next. -/

namespace Kmsrs.Wire

open Kmsrs.Layout Kmsrs.Bytes Kmsrs.Kms Kmsrs.Wire.Bind

def Phase.contexts : Phase → List AcceptedContext
  | .bound association => association.state.contexts.items
  | .unbound _ | .transitioning => []

namespace Connection

/-- What holds of a connection between steps. -/
structure Sound (connection : Connection) : Prop where
  settled : connection.phase ≠ .transitioning
  holds : ∀ association, connection.phase = .bound association →
    1 ≤ association.state.contexts.length ∧ association.state.contexts.length ≤ 2
  nodup : (connection.phase.contexts.map AcceptedContext.transfer).Nodup
  transfers : ∀ held ∈ connection.phase.contexts,
    held.transfer = .ndr32 ∨ (held.transfer = .ndr64 ∧ connection.ndr64Enabled = true)
  reassembling : connection.reassembly.items ≠ [] → connection.reassemblingContext ≠ none

variable {connection connection' : Connection}

theorem sound_new (assocGroup : UInt32) (ndr64Enabled : Bool) : Sound (Connection.new assocGroup ndr64Enabled) where
  settled := by simp [Connection.new]
  holds := by simp [Connection.new]
  nodup := List.nodup_nil
  transfers := by simp [Connection.new, Phase.contexts]
  reassembling := by simp [Connection.new]

/-- Soundness depends on the phase, the syntax switch and the reassembly alone. -/
theorem Sound.of_eq (h : Sound connection) (hphase : connection'.phase = connection.phase)
    (hndr64 : connection'.ndr64Enabled = connection.ndr64Enabled)
    (hreassembling : connection'.reassembly.items ≠ [] → connection'.reassemblingContext ≠ none) :
    Sound connection' where
  settled := hphase ▸ h.settled
  holds := hphase ▸ h.holds
  nodup := hphase ▸ h.nodup
  transfers := by
    rw [hphase, hndr64]
    exact h.transfers
  reassembling := hreassembling

theorem Sound.logged (h : Sound connection) (hlogged : Logged connection connection') : Sound connection' := by
  obtain ⟨events, lost, rfl⟩ := hlogged
  exact h.of_eq rfl rfl h.reassembling

theorem Sound.stopReassembly (h : Sound connection) : Sound connection.stopReassembly :=
  h.of_eq rfl rfl (by simp [Connection.stopReassembly])

/-! ### Accepting a context -/

/-- Of two syntaxes at most one is left beside the accepted one. -/
theorem Sound.length_filter_lt (h : Sound connection) {accepted : AcceptedContext}
    (ha : accepted.transfer = .ndr32 ∨ accepted.transfer = .ndr64) :
    (connection.phase.contexts.filter fun held => held.transfer ≠ accepted.transfer).length < 2 := by
  have hnodup : ((connection.phase.contexts.filter fun held => held.transfer ≠ accepted.transfer).map
      AcceptedContext.transfer).Nodup := h.nodup.sublist (List.filter_sublist.map _)
  have hother : ∀ held ∈ connection.phase.contexts.filter fun held => held.transfer ≠ accepted.transfer,
      held.transfer ≠ accepted.transfer ∧ (held.transfer = .ndr32 ∨ held.transfer = .ndr64) := by
    intro held hheld
    obtain ⟨hmem, hne⟩ := List.mem_filter.mp hheld
    exact ⟨by simpa using hne, (h.transfers held hmem).imp_right And.left⟩
  generalize connection.phase.contexts.filter (fun held => held.transfer ≠ accepted.transfer) = others
    at hnodup hother ⊢
  match others with
  | [] => simp
  | [_] => simp
  | first :: second :: rest =>
    have hdiffer : first.transfer ≠ second.transfer := by
      simp only [List.map_cons, List.nodup_cons, List.mem_cons, not_or] at hnodup
      exact hnodup.1.1
    obtain ⟨hne₁, h₁⟩ := hother first (by simp)
    obtain ⟨hne₂, h₂⟩ := hother second (by simp)
    rcases ha with ha | ha <;> rcases h₁ with h₁ | h₁ <;> rcases h₂ with h₂ | h₂ <;> simp_all

/-- Accepting drops the context of the same syntax and adds the new one last. -/
theorem Sound.contexts_accept (h : Sound connection) {accepted : AcceptedContext}
    (ha : accepted.transfer = .ndr32 ∨ accepted.transfer = .ndr64) :
    ∃ association, connection.phase.accept (some accepted) = .bound association ∧
      association.state.contexts.items =
        (connection.phase.contexts.filter fun held => held.transfer ≠ accepted.transfer) ++ [accepted] := by
  have hroom := h.length_filter_lt ha
  cases hphase : connection.phase with
  | transitioning => exact absurd hphase h.settled
  | unbound association =>
    refine ⟨_, rfl, ?_⟩
    rw [ArrayVec.pushEvicting_of_lt accepted (by simp)]
    rfl
  | bound association =>
    rw [hphase] at hroom
    refine ⟨_, rfl, ?_⟩
    simp only
    rw [ArrayVec.pushEvicting_of_lt accepted (by simpa [Phase.contexts] using hroom)]
    rfl

theorem Sound.accept (h : Sound connection) {accepted : Option AcceptedContext}
    (ha : ∀ context, accepted = some context →
      context.transfer = .ndr32 ∨ (context.transfer = .ndr64 ∧ connection.ndr64Enabled = true)) :
    Sound { connection with phase := connection.phase.accept accepted } := by
  cases accepted with
  | none => exact h.of_eq rfl rfl h.reassembling
  | some context =>
    obtain ⟨association, hphase, hitems⟩ := h.contexts_accept ((ha context rfl).imp_right And.left)
    refine ⟨?_, ?_, ?_, ?_, h.reassembling⟩
    · simp [hphase]
    · intro found hfound
      obtain rfl : association = found := by simpa [hphase] using hfound
      refine ⟨?_, association.state.contexts.le_cap⟩
      rw [ArrayVec.length, hitems, List.length_append]
      exact Nat.le_add_left 1 _
    · simp only [hphase, Phase.contexts, hitems, List.map_append, List.map_cons, List.map_nil]
      refine List.Nodup.append (h.nodup.sublist (List.filter_sublist.map _)) (by simp) ?_
      intro transfer hleft hright
      simp only [List.mem_map, List.mem_filter] at hleft
      obtain ⟨held, ⟨-, hne⟩, rfl⟩ := hleft
      simp_all
    · simp only [hphase, Phase.contexts, hitems]
      intro held hheld
      rcases List.mem_append.mp hheld with hheld | hheld
      · exact h.transfers held (List.mem_filter.mp hheld).1
      · rw [List.mem_singleton.mp hheld]
        exact ha context rfl

/-! ### Requests and binds -/

section
variable {ε σ : Type} (env : Env ε σ) (entropy : ε) (host : σ) (out : List UInt8)

variable (connection) in
/-- What a request cannot touch. -/
theorem settings_handleRequest (header : RpcHeader) (body : List UInt8) :
    (connection.handleRequest env header body entropy host out).connection.phase = connection.phase ∧
      (connection.handleRequest env header body entropy host out).connection.ndr64Enabled =
        connection.ndr64Enabled := by
  rcases handleRequest_cases connection out env entropy host header body with
    ⟨contextId, status, -, h⟩ | ⟨contextId, transfer, -, ⟨-, h⟩ | ⟨reassembly, -, -, h⟩ | ⟨-, -, h⟩⟩
  · rw [h]
    have hlogged := logged_fault connection out header.callId contextId status
    exact ⟨hlogged.phase, hlogged.ndr64Enabled⟩
  · rw [h]
    have hlogged := (logged_record connection.stopReassembly (.rejected .reassemblyOverflow)).trans
      (logged_fault _ out header.callId contextId .protocolError)
    exact ⟨hlogged.phase, hlogged.ndr64Enabled⟩
  · rw [h]
    show (connection.startReassembly header contextId).phase = _ ∧
      (connection.startReassembly header contextId).ndr64Enabled = _
    unfold startReassembly
    split_ifs <;> exact ⟨rfl, rfl⟩
  · rw [h]
    have hlogged := logged_handleStub connection.stopReassembly out header.callId contextId env entropy host
      transfer (connection.assembled header body)
    exact ⟨hlogged.phase, hlogged.ndr64Enabled⟩

theorem sound_handleRequest (hsound : Sound connection) (header : RpcHeader) (body : List UInt8) :
    Sound (connection.handleRequest env header body entropy host out).connection := by
  rcases handleRequest_cases connection out env entropy host header body with
    ⟨contextId, status, -, h⟩ | ⟨contextId, transfer, hserves, ⟨-, h⟩ | ⟨reassembly, -, -, h⟩ | ⟨-, -, h⟩⟩
  · rw [h]
    exact hsound.logged (logged_fault connection out header.callId contextId status)
  · rw [h]
    exact hsound.stopReassembly.logged ((logged_record _ _).trans (logged_fault _ out _ contextId _))
  · rw [h]
    -- a first fragment names the context; a later one is only served under a context already set
    obtain ⟨-, -, hcontext, -⟩ := hserves
    show Sound { connection.startReassembly header contextId with reassembly }
    unfold fragmentContext at hcontext
    unfold startReassembly
    split_ifs at hcontext ⊢ with hfirst
    · exact hsound.of_eq rfl rfl (by simp)
    · exact hsound.of_eq rfl rfl (by simp [hcontext])
  · rw [h]
    exact hsound.stopReassembly.logged
      (logged_handleStub connection.stopReassembly out header.callId contextId env entropy host transfer _)

/-- The host is asked only for the last fragment of a call on a held context. -/
theorem serves_of_asked {header : RpcHeader} {body : List UInt8} {request : Request}
    (hasked : (connection.handleRequest env header body entropy host out).asked = some request) :
    header.flags.contains .lastFrag = true ∧
      ∃ contextId transfer, connection.Serves header body contextId transfer := by
  rcases handleRequest_cases connection out env entropy host header body with
    ⟨contextId, status, -, h⟩ | ⟨contextId, transfer, hserves, ⟨-, h⟩ | ⟨reassembly, -, -, h⟩ | ⟨-, hlast, -⟩⟩
  · rw [h] at hasked
    cases hasked
  · rw [h] at hasked
    cases hasked
  · rw [h] at hasked
    cases hasked
  · exact ⟨hlast, contextId, transfer, hserves⟩

/-! ### A step -/

theorem Sound.touched (h : Sound connection) (now : Instant) : Sound (connection.touched now) :=
  h.of_eq rfl rfl h.reassembling

theorem Sound.consumed (h : Sound connection) (now : Instant) (header : RpcHeader) :
    Sound (connection.consumed now header) :=
  h.of_eq rfl rfl h.reassembling

/-- What a proposal can have accepted. -/
theorem transfer_of_accepted {request : BindRequest} {ndr64Enabled : Bool} {accepted : AcceptedContext}
    (h : (Bind.decide request ndr64Enabled).acceptedContext = some accepted) :
    accepted.transfer = .ndr32 ∨ (accepted.transfer = .ndr64 ∧ ndr64Enabled = true) := by
  rw [((acceptedContext_iff request ndr64Enabled accepted).mp h).1]
  exact preferred_eq request ndr64Enabled

theorem sound_dispatch (hsound : Sound connection) (header : RpcHeader) (body : List UInt8) :
    Sound (connection.dispatch env header body entropy host out).connection := by
  rcases dispatch_cases env entropy host out header body hsound.settled with
    ⟨-, -, reply, inbound, -, hlogged, h⟩ | ⟨request, connection', assocGroup, -, hlogged, h⟩ | ⟨-, h⟩
  · rw [h]
    have hsame : Sound { connection with inbound } := hsound.of_eq rfl rfl hsound.reassembling
    exact hsame.logged hlogged
  · rw [h, connection_acknowledged]
    exact (hsound.accept fun context hcontext => transfer_of_accepted hcontext).logged hlogged
  · rw [h]
    exact sound_handleRequest env entropy host out hsound header body

variable (connection) in
/-- The context accepted by the first frame of the buffer. Whether the
acknowledgement can also be written is not asked. -/
def accepts? : Option AcceptedContext :=
  match Frame.next connection.inbound.items with
  | some (.pdu header body, _) =>
    (proposal? header body).bind fun request =>
      (Bind.decide request connection.ndr64Enabled).acceptedContext
  | _ => none

theorem transfer_of_accepts {accepted : AcceptedContext} (h : connection.accepts? = some accepted) :
    accepted.transfer = .ndr32 ∨ accepted.transfer = .ndr64 := by
  unfold accepts? at h
  split at h
  next header body rest hframe =>
    obtain ⟨request, -, hdecision⟩ := Option.bind_eq_some_iff.mp h
    exact (transfer_of_accepted hdecision).imp_right And.left
  next => cases h

/-- A step moves the phase by the context it accepts, and otherwise not at all. -/
theorem settings_step (hsound : Sound connection) (now : Instant) :
    (connection.step env now entropy host out).connection.phase = connection.phase.accept connection.accepts? ∧
      (connection.step env now entropy host out).connection.ndr64Enabled = connection.ndr64Enabled := by
  unfold accepts?
  cases hframe : Frame.next connection.inbound.items with
  | none =>
    rw [step_of_none env now entropy host out hframe]
    exact ⟨rfl, rfl⟩
  | some found =>
    obtain ⟨frame, rest⟩ := found
    cases frame with
    | malformed reason =>
      rw [step_of_malformed env now entropy host out hframe]
      exact ⟨rfl, rfl⟩
    | pdu header body =>
      rw [step_of_pdu env now entropy host out hframe]
      dsimp only
      rcases dispatch_cases env entropy host out header body (hsound.consumed now header).settled with
        ⟨hnone, -, reply, inbound, -, hlogged, h⟩ | ⟨request, connection', assocGroup, hsome, hlogged, h⟩ |
        ⟨hrequests, h⟩
      · rw [h, hnone]
        exact ⟨hlogged.phase, hlogged.ndr64Enabled⟩
      · rw [h, connection_acknowledged, hlogged.phase, hsome]
        exact ⟨rfl, hlogged.ndr64Enabled⟩
      · rw [h, hrequests.proposal? body]
        exact settings_handleRequest _ env entropy host out header body

theorem sound_step (hsound : Sound connection) (now : Instant) :
    Sound (connection.step env now entropy host out).connection := by
  cases hframe : Frame.next connection.inbound.items with
  | none =>
    rw [step_of_none env now entropy host out hframe]
    exact hsound.touched now
  | some found =>
    obtain ⟨frame, rest⟩ := found
    cases frame with
    | malformed reason =>
      rw [step_of_malformed env now entropy host out hframe]
      exact hsound.of_eq rfl rfl hsound.reassembling
    | pdu header body =>
      rw [step_of_pdu env now entropy host out hframe]
      exact sound_dispatch env entropy host out (hsound.consumed now header) header body

/-- The host is asked only by a step that takes the last fragment of a call on a
held context. -/
theorem asked_step (hsound : Sound connection) (now : Instant) {request : Request}
    (hasked : (connection.step env now entropy host out).asked = some request) :
    ∃ header body rest contextId transfer,
      Frame.next connection.inbound.items = some (.pdu header body, rest) ∧ Requests header ∧
      header.flags.contains .lastFrag = true ∧ connection.Serves header body contextId transfer := by
  cases hframe : Frame.next connection.inbound.items with
  | none =>
    rw [step_of_none env now entropy host out hframe] at hasked
    cases hasked
  | some found =>
    obtain ⟨frame, rest⟩ := found
    cases frame with
    | malformed reason =>
      rw [step_of_malformed env now entropy host out hframe] at hasked
      cases hasked
    | pdu header body =>
      rw [step_of_pdu env now entropy host out hframe] at hasked
      rcases dispatch_cases env entropy host out header body (hsound.consumed now header).settled with
        ⟨-, -, reply, inbound, -, -, h⟩ | ⟨request, connection', assocGroup, -, -, h⟩ | ⟨hrequests, h⟩
      · rw [h] at hasked
        cases hasked
      · rw [h] at hasked
        cases hasked
      · rw [h] at hasked
        obtain ⟨hlast, contextId, transfer, hserves⟩ := serves_of_asked env entropy host out hasked
        exact ⟨header, body, rest, contextId, transfer, rfl, hrequests, hlast, hserves⟩

/-- A step on this outcome's buffer has a proposal for its first frame whose
decision accepts the context at its own item, and the acknowledgement of that
decision was emitted, unless the step closed because it could not be. -/
def Acknowledges (connection : Connection) (accepted : AcceptedContext) (reply : Reply) : Prop :=
  ∃ header body rest request, ∃ (i : ℕ) (item : ContextItem) (result : ContextResult),
    Frame.next connection.inbound.items = some (.pdu header body, rest) ∧
    proposal? header body = some request ∧
    request.items.items[i]? = some item ∧ item.contextId = accepted.contextId ∧
    (Bind.decide request connection.ndr64Enabled).results.items[i]? = some result ∧
    result.ackResult = ContextResult.acceptance ∧
    ((∃ parameters noise,
        reply.step = .send (ackBytes parameters noise (Bind.decide request connection.ndr64Enabled)).length ∧
        reply.out.take (ackBytes parameters noise (Bind.decide request connection.ndr64Enabled)).length =
          ackBytes parameters noise (Bind.decide request connection.ndr64Enabled)) ∨
      reply.step = .close .refused)

theorem acknowledges_step (hsound : Sound connection) (now : Instant) {accepted : AcceptedContext}
    (haccepts : connection.accepts? = some accepted) :
    connection.Acknowledges accepted (connection.step env now entropy host out).toReply := by
  unfold accepts? at haccepts
  split at haccepts
  next header body rest hframe =>
    obtain ⟨request, hrequest, hdecision⟩ := Option.bind_eq_some_iff.mp haccepts
    obtain ⟨-, i, item, result, hitem, hid, hresult, hack⟩ := (acceptedContext_iff _ _ _).mp hdecision
    refine ⟨header, body, rest, request, i, item, result, hframe, hrequest, hitem, hid, hresult, hack, ?_⟩
    rw [step_of_pdu env now entropy host out hframe]
    rcases dispatch_cases env entropy host out header body (hsound.consumed now header).settled with
      ⟨hnone, -⟩ | ⟨request', connection', assocGroup, hsome, -, h⟩ | ⟨hrequests, -⟩
    · rw [hnone] at hrequest
      cases hrequest
    · rw [hrequest] at hsome
      cases hsome
      rw [h]
      exact (step_acknowledge entropy out env.rng _ _).imp_left fun ⟨noise, hsent⟩ => ⟨_, noise, hsent⟩
    · rw [hrequests.proposal? body] at hrequest
      cases hrequest
  next => cases haccepts

/-- A context served is one of those held. -/
theorem Serves.mem {header : RpcHeader} {body : List UInt8} {contextId : UInt16} {transfer : TransferSyntax}
    (h : connection.Serves header body contextId transfer) :
    (⟨contextId, transfer⟩ : AcceptedContext) ∈ connection.phase.contexts := by
  obtain ⟨association, hphase, -, hservice⟩ := h
  unfold Association.service Association.syntaxFor at hservice
  cases hfind : association.state.contexts.items.find? fun context => context.contextId = contextId with
  | none =>
    rw [hfind] at hservice
    cases hservice
  | some held =>
    rw [hfind] at hservice
    obtain rfl : held.transfer = transfer := by simpa using hservice
    obtain rfl : held.contextId = contextId := by simpa using List.find?_some hfind
    rw [hphase]
    exact List.mem_of_find?_eq_some hfind

end

end Connection

end Kmsrs.Wire
