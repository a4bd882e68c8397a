import Kmsrs.Lib.Run
import Kmsrs.Wire.Contexts

/-! Runs of one connection: bytes received, steps taken and events read, in any
order. What is served in a run was accepted in it, and is served in the syntax
that was accepted unless the client reuses the context's ID. -/

namespace Kmsrs.Wire

open Kmsrs.Layout Kmsrs.Bytes Kmsrs.Kms Kmsrs.Wire.Bind Kmsrs.Wire.Connection

/-- A connection with the entropy and the host that its steps draw on. -/
structure Machine (ε σ : Type) where
  connection : Connection
  entropy : ε
  host : σ

/-- A call on a connection. Every step may be given a host, clock and buffer of
its own. -/
inductive Call (ε σ : Type) where
  | receive (bytes : List UInt8)
  | step (env : Env ε σ) (now : Instant) (out : List UInt8)
  | nextEvent

namespace Machine

variable {ε σ : Type}

def start (assocGroup : UInt32) (ndr64Enabled : Bool) (entropy : ε) (host : σ) : Machine ε σ :=
  ⟨.new assocGroup ndr64Enabled, entropy, host⟩

/-- The outcome of a step from here. -/
def stepped (machine : Machine ε σ) (env : Env ε σ) (now : Instant) (out : List UInt8) : Outcome ε σ :=
  machine.connection.step env now machine.entropy machine.host out

def after (outcome : Outcome ε σ) : Machine ε σ := ⟨outcome.connection, outcome.entropy, outcome.host⟩

/-- Bytes that overflow the buffer are not taken. -/
def next (machine : Machine ε σ) : Call ε σ → Machine ε σ
  | .receive bytes => { machine with connection := (machine.connection.receive bytes).getD machine.connection }
  | .step env now out => after (machine.stepped env now out)
  | .nextEvent => { machine with connection := machine.connection.nextEvent.2 }

/-! ### Soundness of every state -/

variable {machine : Machine ε σ} {past : List (Machine ε σ × Call ε σ)} {assocGroup : UInt32}
  {ndr64Enabled : Bool} {entropy : ε} {host : σ}

theorem settings_receive (connection : Connection) (bytes : List UInt8) :
    ((connection.receive bytes).getD connection).phase = connection.phase ∧
      ((connection.receive bytes).getD connection).ndr64Enabled = connection.ndr64Enabled := by
  unfold receive
  cases connection.inbound.tryExtendFromSlice bytes <;> exact ⟨rfl, rfl⟩

theorem sound_receive {connection : Connection} (h : Sound connection) (bytes : List UInt8) :
    Sound ((connection.receive bytes).getD connection) := by
  unfold receive
  cases connection.inbound.tryExtendFromSlice bytes with
  | none => exact h
  | some inbound => exact h.of_eq rfl rfl h.reassembling

theorem logged_nextEvent (connection : Connection) : Logged connection connection.nextEvent.2 := by
  unfold nextEvent
  split <;> exact ⟨_, _, rfl⟩

theorem sound_next (h : Sound machine.connection) (call : Call ε σ) : Sound (machine.next call).connection := by
  cases call with
  | receive bytes => exact sound_receive h bytes
  | step env now out => exact sound_step env machine.entropy machine.host out h now
  | nextEvent => exact h.logged (logged_nextEvent machine.connection)

theorem sound_run (h : Runs next (start assocGroup ndr64Enabled entropy host) past machine) :
    Sound machine.connection :=
  h.invariant (fun machine => Sound machine.connection) (sound_new assocGroup ndr64Enabled) fun _ call hsound =>
    sound_next hsound call

/-- The context that a call makes the connection accept. -/
def accepts? (machine : Machine ε σ) : Call ε σ → Option AcceptedContext
  | .step _ _ _ => machine.connection.accepts?
  | .receive _ | .nextEvent => none

theorem settings_next (h : Sound machine.connection) (call : Call ε σ) :
    (machine.next call).connection.phase = machine.connection.phase.accept (machine.accepts? call) ∧
      (machine.next call).connection.ndr64Enabled = machine.connection.ndr64Enabled := by
  cases call with
  | receive bytes => exact settings_receive machine.connection bytes
  | step env now out => exact settings_step env machine.entropy machine.host out h now
  | nextEvent =>
    have hlogged := logged_nextEvent machine.connection
    exact ⟨hlogged.phase, hlogged.ndr64Enabled⟩

theorem ndr64Enabled_run (h : Runs next (start assocGroup ndr64Enabled entropy host) past machine) :
    machine.connection.ndr64Enabled = ndr64Enabled :=
  (h.invariant (fun machine => Sound machine.connection ∧ machine.connection.ndr64Enabled = ndr64Enabled)
    ⟨sound_new assocGroup ndr64Enabled, rfl⟩ fun _ call hsound =>
      ⟨sound_next hsound.1 call, (settings_next hsound.1 call).2.trans hsound.2⟩).2

/-- The contexts held after a call that accepts one. -/
theorem contexts_next_of_accepts (h : Sound machine.connection) {call : Call ε σ} {accepted : AcceptedContext}
    (haccepts : machine.accepts? call = some accepted) :
    (machine.next call).connection.phase.contexts =
      (machine.connection.phase.contexts.filter fun held => held.transfer ≠ accepted.transfer) ++ [accepted] := by
  have htransfer : accepted.transfer = .ndr32 ∨ accepted.transfer = .ndr64 := by
    cases call with
    | receive _ | nextEvent => cases haccepts
    | step env now out => exact transfer_of_accepts haccepts
  obtain ⟨association, hphase, hitems⟩ := h.contexts_accept htransfer
  rw [(settings_next h call).1, haccepts, hphase]
  exact hitems

theorem contexts_next_of_none (h : Sound machine.connection) {call : Call ε σ}
    (hnone : machine.accepts? call = none) :
    (machine.next call).connection.phase.contexts = machine.connection.phase.contexts := by
  rw [(settings_next h call).1, hnone]
  rfl

/-! ### Nothing is served that was not accepted -/

/-- Every context held was accepted by an earlier step of the run. -/
theorem held_acknowledged (h : Runs next (start assocGroup ndr64Enabled entropy host) past machine) :
    ∀ held ∈ machine.connection.phase.contexts, ∃ before t env now out after,
      past = before ++ (t, .step env now out) :: after ∧
        t.connection.Acknowledges held (t.stepped env now out).toReply := by
  refine h.history (fun past machine => ∀ held ∈ machine.connection.phase.contexts, ∃ before t env now out after,
    past = before ++ (t, .step env now out) :: after ∧
      t.connection.Acknowledges held (t.stepped env now out).toReply) (by simp [start, Phase.contexts, Connection.new]) ?_
  intro past machine call hrun ih held hheld
  have hsound := sound_run hrun
  have hearlier (hmem : held ∈ machine.connection.phase.contexts) : ∃ before t env now out after,
      past ++ [(machine, call)] = before ++ (t, .step env now out) :: after ∧
        t.connection.Acknowledges held (t.stepped env now out).toReply := by
    obtain ⟨before, t, env, now, out, after, rfl, hack⟩ := ih held hmem
    exact ⟨before, t, env, now, out, after ++ [(machine, call)], by simp, hack⟩
  cases haccepts : machine.accepts? call with
  | none =>
    rw [contexts_next_of_none hsound haccepts] at hheld
    exact hearlier hheld
  | some accepted =>
    rw [contexts_next_of_accepts hsound haccepts] at hheld
    rcases List.mem_append.mp hheld with hkept | hnew
    · exact hearlier (List.mem_filter.mp hkept).1
    · obtain rfl := List.mem_singleton.mp hnew
      cases call with
      | receive _ | nextEvent => cases haccepts
      | step env now out =>
        exact ⟨past, machine, env, now, out, [], rfl,
          acknowledges_step env machine.entropy machine.host out hsound now haccepts⟩

/-- In every state of every run the connection is sound; and the host is asked
only by a step that takes the last fragment of a request, on a context that is
held and that an earlier step of the run accepted, in an acknowledgement that
was emitted or else closed the connection for want of it. -/
theorem served_was_accepted (h : Runs next (start assocGroup ndr64Enabled entropy host) past machine) :
    (Sound machine.connection ∧ machine.connection.ndr64Enabled = ndr64Enabled) ∧
      ∀ env now out request, (machine.stepped env now out).asked = some request →
        ∃ header body rest contextId transfer,
          Frame.next machine.connection.inbound.items = some (.pdu header body, rest) ∧
          header.packetType? = some .request ∧ header.flags.contains .lastFrag = true ∧
          machine.connection.fragmentContext header body = some contextId ∧
          ⟨contextId, transfer⟩ ∈ machine.connection.phase.contexts ∧
          ∃ before t env now out after, past = before ++ (t, .step env now out) :: after ∧
            t.connection.Acknowledges ⟨contextId, transfer⟩ (t.stepped env now out).toReply := by
  have hsound := sound_run h
  refine ⟨⟨hsound, ndr64Enabled_run h⟩, fun env now out request hasked => ?_⟩
  obtain ⟨header, body, rest, contextId, transfer, hframe, hrequests, hlast, hserves⟩ :=
    asked_step env machine.entropy machine.host out hsound now hasked
  obtain ⟨-, -, hcontext, -⟩ := id hserves
  exact ⟨header, body, rest, contextId, transfer, hframe, hrequests.2.2, hlast, hcontext, hserves.mem,
    held_acknowledged h _ hserves.mem⟩

/-- A PDU of its own length. -/
def framed (packetType : PacketType) (flags : PacketFlags) (callId : UInt32) (body : List UInt8) : List UInt8 :=
  RpcHeader.layout.encode
    ⟨5, 0, packetType.toWire, flags, dataRepresentation, UInt16.ofNat (headerLen + body.length), 0, callId⟩ ++ body

/-- The body of a version 4 request in NDR32, blank after its version word. -/
def blankCall (contextId : UInt16) : List UInt8 :=
  u32.encode 268 ++ u16.encode contextId ++ u16.encode 0 ++ u32.encode 252 ++ u32.encode 252 ++
    u32.encode Version.v4.toProtocolVersion.toWire ++ List.replicate 248 0

/-- A bind answered into a buffer of the given length, and then a request. -/
def boundThenCalled (room : ℕ) : List (Call Unit Unit) :=
  [.receive (framed .bind .complete 1 (proposal [0] Wire.ndr32)), .step denying 0 (List.replicate room 0),
    .receive (framed .request .complete 2 (blankCall 0))]

theorem served_was_accepted_after_bind :
    ∃ request, (((boundThenCalled 384).foldl next (start 0 false () ())).stepped denying 0
        (List.replicate 384 0)).asked = some request ∧
      ∃ contextId transfer, ⟨contextId, transfer⟩ ∈
        ((boundThenCalled 384).foldl next (start 0 false () ())).connection.phase.contexts := by
  have hasked : (((boundThenCalled 384).foldl next (start 0 false () ())).stepped denying 0
      (List.replicate 384 0)).asked.isSome = true := by decide +kernel
  obtain ⟨request, hrequest⟩ := Option.isSome_iff_exists.mp hasked
  obtain ⟨header, body, rest, contextId, transfer, -, -, -, -, hmem, -⟩ :=
    (served_was_accepted (Runs.of_path (boundThenCalled 384))).2 denying 0 (List.replicate 384 0) request hrequest
  exact ⟨request, hrequest, contextId, transfer, hmem⟩

/-- With no room for the acknowledgement the step closes, but the context is held:
a caller that steps on is asked to activate though nothing was ever emitted. -/
theorem served_without_acknowledgement :
    Runs next (start 0 false () ()) (path next (start 0 false () ()) (boundThenCalled 0))
        ((boundThenCalled 0).foldl next (start 0 false () ())) ∧
      ((path next (start 0 false () ()) (boundThenCalled 0)).all fun transition =>
        match transition.2 with
        | .step env now out => ((transition.1.stepped env now out).step.len?).isNone
        | .receive _ | .nextEvent => true) = true ∧
      (((boundThenCalled 0).foldl next (start 0 false () ())).stepped denying 0
        (List.replicate 384 0)).asked.isSome = true :=
  ⟨Runs.of_path (boundThenCalled 0), by decide +kernel, by decide +kernel⟩

/-! ### Served in the syntax that was accepted -/

/-- The syntax a request on a context is read in, if it is served. -/
def service? (machine : Machine ε σ) (contextId : UInt16) : Option TransferSyntax :=
  match machine.connection.phase with
  | .bound association => (association.service contextId).toOption
  | .unbound _ | .transitioning => none

theorem service?_eq (machine : Machine ε σ) (contextId : UInt16) :
    machine.service? contextId =
      (machine.connection.phase.contexts.find? fun held => held.contextId = contextId).map
        AcceptedContext.transfer := by
  unfold service?
  cases machine.connection.phase with
  | unbound _ | transitioning => rfl
  | bound association =>
    simp only [Association.service, Association.syntaxFor, Phase.contexts]
    cases association.state.contexts.items.find? fun held => held.contextId = contextId <;> rfl

/-- A held context is served as accepted when no other syntax is held under its
ID. -/
theorem service?_of_held {accepted : AcceptedContext} (hmem : accepted ∈ machine.connection.phase.contexts)
    (hown : ∀ held ∈ machine.connection.phase.contexts, held.contextId = accepted.contextId →
      held.transfer = accepted.transfer) :
    machine.service? accepted.contextId = some accepted.transfer := by
  rw [service?_eq]
  have hfound : (machine.connection.phase.contexts.find? fun held =>
      held.contextId = accepted.contextId).isSome = true := List.find?_isSome.mpr ⟨accepted, hmem, by simp⟩
  obtain ⟨held, hfind⟩ := Option.isSome_iff_exists.mp hfound
  rw [hfind]
  exact congrArg some (hown held (List.mem_of_find?_eq_some hfind) (by simpa using List.find?_some hfind))

/-- The context is held, and no other syntax is held under its ID. -/
def Owns (machine : Machine ε σ) (accepted : AcceptedContext) : Prop :=
  accepted ∈ machine.connection.phase.contexts ∧
    ∀ held ∈ machine.connection.phase.contexts, held.contextId = accepted.contextId →
      held.transfer = accepted.transfer

theorem owns_of_accepts (h : Sound machine.connection) {call : Call ε σ} {accepted : AcceptedContext}
    (haccepts : machine.accepts? call = some accepted)
    (hown : ∀ held ∈ machine.connection.phase.contexts, held.contextId = accepted.contextId →
      held.transfer = accepted.transfer) : (machine.next call).Owns accepted := by
  unfold Owns
  rw [contexts_next_of_accepts h haccepts]
  refine ⟨by simp, fun held hheld hid => ?_⟩
  rcases List.mem_append.mp hheld with hkept | hnew
  · exact hown held (List.mem_filter.mp hkept).1 hid
  · rw [List.mem_singleton.mp hnew]

/-- Accepting another context in the other syntax changes nothing for this one. -/
theorem Owns.next {accepted : AcceptedContext} (hsound : Sound machine.connection) (h : machine.Owns accepted)
    {call : Call ε σ} (hlater : ∀ later, machine.accepts? call = some later →
      later.contextId ≠ accepted.contextId ∧ later.transfer ≠ accepted.transfer) :
    (machine.next call).Owns accepted := by
  obtain ⟨hmem, hown⟩ := h
  unfold Owns
  cases haccepts : machine.accepts? call with
  | none =>
    rw [contexts_next_of_none hsound haccepts]
    exact ⟨hmem, hown⟩
  | some later =>
    obtain ⟨hid, htransfer⟩ := hlater later haccepts
    rw [contexts_next_of_accepts hsound haccepts]
    refine ⟨?_, fun held hheld heq => ?_⟩
    · exact List.mem_append_left _ (List.mem_filter.mpr ⟨hmem, by simpa using Ne.symm htransfer⟩)
    · rcases List.mem_append.mp hheld with hkept | hnew
      · exact hown held (List.mem_filter.mp hkept).1 heq
      · rw [List.mem_singleton.mp hnew] at heq
        exact absurd heq hid

/-- A context accepted under an ID that is not held in the other syntax is served
in its own syntax for as long as neither is accepted again; and only such a one
is, even at once. -/
theorem service_as_accepted_iff {before : List (Machine ε σ × Call ε σ)} {t : Machine ε σ} {call : Call ε σ}
    {accepted : AcceptedContext} (h : Runs next (start assocGroup ndr64Enabled entropy host) before t)
    (haccepts : t.accepts? call = some accepted) :
    (∀ after machine,
        Runs next (start assocGroup ndr64Enabled entropy host) (before ++ (t, call) :: after) machine →
        (∀ transition ∈ after, ∀ later, transition.1.accepts? transition.2 = some later →
          later.contextId ≠ accepted.contextId ∧ later.transfer ≠ accepted.transfer) →
        machine.service? accepted.contextId = some accepted.transfer) ↔
      ∀ held ∈ t.connection.phase.contexts, held.contextId = accepted.contextId →
        held.transfer = accepted.transfer := by
  have hsound := sound_run h
  constructor
  · intro hserved held hheld hid
    by_contra hother
    have hnow := hserved [] (t.next call) (h.snoc call) (by simp)
    -- the context of the other syntax survives, and is found first
    have hfound : ((t.connection.phase.contexts.filter fun held => held.transfer ≠ accepted.transfer).find?
        fun held => held.contextId = accepted.contextId).isSome = true :=
      List.find?_isSome.mpr ⟨held, List.mem_filter.mpr ⟨hheld, by simpa using hother⟩, by simpa using hid⟩
    obtain ⟨first, hfirst⟩ := Option.isSome_iff_exists.mp hfound
    rw [service?_eq, contexts_next_of_accepts hsound haccepts, List.find?_append, hfirst] at hnow
    have hdiffer := (List.mem_filter.mp (List.mem_of_find?_eq_some hfirst)).2
    simp only [Option.some_or, Option.map_some, Option.some.injEq] at hnow
    simp [hnow] at hdiffer
  · intro hown after machine hrun hlater
    obtain ⟨-, hmem, hkept⟩ := hrun.since (fun machine => Sound machine.connection ∧ machine.Owns accepted) rfl
      ⟨sound_next hsound call, owns_of_accepts hsound haccepts hown⟩ fun transition htransition hq =>
        ⟨sound_next hq.1 transition.2, hq.2.next hq.1 (hlater transition htransition)⟩
    exact service?_of_held hmem hkept

/-- A bind in NDR32 and an alter context that offers NDR64 under the given ID. -/
def boundThenAltered (contextId : UInt16) : List (Call Unit Unit) :=
  [.receive (framed .bind .complete 1 (proposal [0] Wire.ndr32)), .step denying 0 (List.replicate 384 0),
    .receive (framed .alterContext .complete 2 (proposal [contextId] Wire.ndr64))]

theorem service_as_accepted_second_context :
    (((boundThenAltered 1).foldl next (start 0 true () ())).next
      (.step denying 0 (List.replicate 384 0))).service? 1 = some .ndr64 := by
  have haccepts : ((boundThenAltered 1).foldl next (start 0 true () ())).accepts?
      (.step denying 0 (List.replicate 384 0)) = some ⟨1, .ndr64⟩ := by decide +kernel
  have hrun : Runs next (start 0 true () ()) (path next (start 0 true () ()) (boundThenAltered 1))
      ((boundThenAltered 1).foldl next (start 0 true () ())) := Runs.of_path (boundThenAltered 1)
  exact (service_as_accepted_iff hrun haccepts).mpr (by decide +kernel) [] _ (hrun.snoc _) (by simp)

/-- Under the ID already bound, NDR64 is acknowledged and NDR32 is served. -/
theorem reused_id_served_in_old_syntax :
    Runs next (start 0 true () ()) (path next (start 0 true () ()) (boundThenAltered 0))
        ((boundThenAltered 0).foldl next (start 0 true () ())) ∧
      ((boundThenAltered 0).foldl next (start 0 true () ())).accepts?
        (.step denying 0 (List.replicate 384 0)) = some ⟨0, .ndr64⟩ ∧
      (((boundThenAltered 0).foldl next (start 0 true () ())).stepped denying 0
        (List.replicate 384 0)).step = .send 56 ∧
      (((boundThenAltered 0).foldl next (start 0 true () ())).next
        (.step denying 0 (List.replicate 384 0))).service? 0 = some .ndr32 :=
  ⟨Runs.of_path (boundThenAltered 0), by decide +kernel, by decide +kernel, by decide +kernel⟩

end Machine

end Kmsrs.Wire
