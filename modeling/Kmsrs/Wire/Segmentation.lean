import Kmsrs.Lib.Feed
import Kmsrs.Wire.Machine

/-! How a stream is cut into reads does not matter. A dispatched PDU looks neither
at the bytes behind it, nor at the clock, nor at what the caller's buffer held
before; so a driver that steps until nothing more is taken refines the framed
machine, whose cuts are invisible. -/

namespace Kmsrs.Wire

open Kmsrs.Layout Kmsrs.Bytes Kmsrs.Kms Kmsrs.Wire.Bind

/-- A connection without the bytes it is still to read and its clock. -/
def Connection.core (connection : Connection) : Connection :=
  { connection with inbound := .empty, deadline := none }

/-- The same connection with other bytes behind it, at another time. -/
def Connection.placed (connection : Connection) (inbound : ArrayVec UInt8 maxPduLen) (deadline : Option Instant) :
    Connection :=
  { connection with inbound, deadline }

/-- The bytes a reply asks to be sent. -/
def Reply.sent (reply : Reply) : List UInt8 := reply.out.take (reply.step.len?.getD 0)

/-- Two replies, into buffers of one length, that a peer cannot tell apart. -/
structure Reply.Agrees (room : ℕ) (a b : Reply) : Prop where
  step : a.step = b.step
  sent : a.sent = b.sent
  core : a.connection.core = b.connection.core
  left_room : a.out.length = room
  right_room : b.out.length = room

structure Outcome.Agrees {ε σ : Type} (room : ℕ) (a b : Outcome ε σ) : Prop where
  reply : a.toReply.Agrees room b.toReply
  entropy : a.entropy = b.entropy
  host : a.host = b.host
  asked : a.asked = b.asked

section Agreement
variable {room : ℕ} {out out' : List UInt8} {a b connection : Connection}

theorem Reply.agrees_of_bytes {step : Step} {bytes : List UInt8} (hcore : a.core = b.core)
    (hstep : step.len? = some bytes.length) (hfits : bytes.length ≤ room)
    (hout : out.length = room) (hout' : out'.length = room) :
    Reply.Agrees room ⟨step, a, bytes ++ out.drop bytes.length⟩ ⟨step, b, bytes ++ out'.drop bytes.length⟩ where
  step := rfl
  sent := by simp [Reply.sent, hstep]
  core := hcore
  left_room := by
    rw [List.length_append, List.length_drop]
    omega
  right_room := by
    rw [List.length_append, List.length_drop]
    omega

theorem Reply.agrees_of_silent {step : Step} (hcore : a.core = b.core) (hstep : step.len? = none)
    (hout : out.length = room) (hout' : out'.length = room) :
    Reply.Agrees room ⟨step, a, out⟩ ⟨step, b, out'⟩ where
  step := rfl
  sent := by simp [Reply.sent, hstep]
  core := hcore
  left_room := hout
  right_room := hout'

theorem Reply.Agrees.unasked {ε σ : Type} {a b : Reply} (h : a.Agrees room b) (entropy : ε) (host : σ) :
    (a.unasked entropy host).Agrees room (b.unasked entropy host) :=
  ⟨h, rfl, rfl, rfl⟩

namespace Connection

variable {ε σ : Type} (env : Env ε σ) (entropy : ε) (host : σ) (inbound : ArrayVec UInt8 maxPduLen)
  (deadline : Option Instant) (callId : UInt32) (contextId : UInt16)

theorem agrees_fault (hout : out.length = room) (hout' : out'.length = room) (status : NcaStatus) :
    (connection.fault out callId contextId status).Agrees room
      ((connection.placed inbound deadline).fault out' callId contextId status) := by
  rw [fault_eq, fault_eq, hout, hout']
  split_ifs with hfits
  · have hlen := Fault.length_bytes callId contextId status
    rw [← hlen] at hfits ⊢
    exact Reply.agrees_of_bytes rfl rfl hfits hout hout'
  · exact Reply.agrees_of_silent rfl rfl hout hout'

theorem agrees_nak (hout : out.length = room) (hout' : out'.length = room) (reason : NakReason) :
    (connection.nak out callId reason).Agrees room
      ((connection.placed inbound deadline).nak out' callId reason) := by
  rw [nak_eq, nak_eq, hout, hout']
  split_ifs with hfits
  · have hlen := length_nakBytes callId reason
    rw [← hlen] at hfits ⊢
    exact Reply.agrees_of_bytes rfl rfl hfits hout hout'
  · exact Reply.agrees_of_silent rfl rfl hout hout'

variable (connection) in
theorem agrees_reject (hout : out.length = room) (hout' : out'.length = room) (reason : RejectReason) :
    (connection.reject reason out).Agrees room ((connection.placed inbound deadline).reject reason out') :=
  Reply.agrees_of_silent rfl rfl hout hout'

/-- Whether a response fits depends on the room alone. -/
theorem writeResponsePdu_room (room : ℕ) (transfer : TransferSyntax) (result : HResult) (payload : List UInt8) :
    (∀ out, out.length = room → writeResponsePdu out callId contextId transfer result payload = none) ∨
      ∃ bytes : List UInt8, bytes.length ≤ room ∧ ∀ out, out.length = room →
        writeResponsePdu out callId contextId transfer result payload =
          some (bytes.length, bytes ++ out.drop bytes.length) := by
  by_cases hfits : declaredResponseLen transfer result payload < 2 ^ 16 ∧
      responsePduLen transfer result payload ≤ room ∧
      Stub.stubLen transfer result.toWire payload - Stub.responsePrefixLen < 2 ^ 32
  · have hlen := length_responsePdu callId contextId transfer result payload
    refine .inr ⟨responsePdu callId contextId transfer result payload, hlen.trans_le hfits.2.1, fun out hout => ?_⟩
    rw [writeResponsePdu_eq, if_pos (hout ▸ hfits), hlen]
  · refine .inl fun out hout => ?_
    rw [writeResponsePdu_eq, if_neg (hout ▸ hfits)]

theorem agrees_refuse (hout : out.length = room) (hout' : out'.length = room) (transfer : TransferSyntax)
    (result : HResult) :
    (connection.refuse callId contextId transfer result out).Agrees room
      ((connection.placed inbound deadline).refuse callId contextId transfer result out') := by
  unfold refuse
  rcases writeResponsePdu_room callId contextId room transfer result [] with hnone | ⟨bytes, hfits, hsome⟩
  · rw [hnone out hout, hnone out' hout']
    exact Reply.agrees_of_silent rfl rfl hout hout'
  · rw [hsome out hout, hsome out' hout']
    exact Reply.agrees_of_bytes rfl rfl hfits hout hout'

theorem agrees_answer (hout : out.length = room) (hout' : out'.length = room) (transfer : TransferSyntax)
    (payload : List UInt8) :
    (connection.answer env callId contextId transfer payload entropy host out).Agrees room
      ((connection.placed inbound deadline).answer env callId contextId transfer payload entropy host out') := by
  have hciphers : (connection.placed inbound deadline).ciphers = connection.ciphers := rfl
  unfold answer
  rw [hciphers]
  split
  · exact (agrees_refuse inbound deadline callId contextId hout hout' transfer .invalidData).unasked entropy host
  · exact (agrees_refuse inbound deadline callId contextId hout hout' transfer .invalidData).unasked entropy host
  · exact (agrees_fault inbound deadline callId contextId hout hout' .protocolError).unasked entropy host
  next decoded hdecode =>
    split
    next result host' hrefuse =>
      exact ⟨agrees_refuse inbound deadline callId contextId hout hout' transfer result, rfl, rfl, rfl⟩
    next grant host' hgrant =>
      dsimp only
      split
      · exact ⟨Reply.agrees_of_silent rfl rfl hout hout', rfl, rfl, rfl⟩
      next payloadLen response entropy' hencode =>
        rcases writeResponsePdu_room callId contextId room transfer .ok (response.take payloadLen) with
          hnone | ⟨bytes, hfits, hsome⟩
        · rw [hnone out hout, hnone out' hout']
          exact ⟨Reply.agrees_of_silent rfl rfl hout hout', rfl, rfl, rfl⟩
        · rw [hsome out hout, hsome out' hout']
          exact ⟨Reply.agrees_of_bytes rfl rfl hfits hout hout', rfl, rfl, rfl⟩

theorem agrees_handleStub (hout : out.length = room) (hout' : out'.length = room) (transfer : TransferSyntax)
    (assembled : List UInt8) :
    (connection.handleStub env callId contextId transfer assembled entropy host out).Agrees room
      ((connection.placed inbound deadline).handleStub env callId contextId transfer assembled entropy host
        out') := by
  unfold handleStub
  split
  · exact (agrees_fault inbound deadline callId contextId hout hout' .unknownInterface).unasked entropy host
  · exact (agrees_fault inbound deadline callId contextId hout hout' .protocolError).unasked entropy host
  · exact agrees_answer env entropy host inbound deadline callId contextId hout hout' transfer _

theorem startReassembly_placed (header : RpcHeader) :
    (connection.placed inbound deadline).startReassembly header contextId =
      (connection.startReassembly header contextId).placed inbound deadline := by
  unfold startReassembly
  split_ifs <;> rfl

theorem agrees_overflowed (hout : out.length = room) (hout' : out'.length = room) :
    (connection.overflowed out callId contextId).Agrees room
      ((connection.placed inbound deadline).overflowed out' callId contextId) :=
  agrees_fault inbound deadline callId contextId hout hout' .protocolError

theorem agrees_handleRequest (hout : out.length = room) (hout' : out'.length = room) (header : RpcHeader)
    (body : List UInt8) :
    (connection.handleRequest env header body entropy host out).Agrees room
      ((connection.placed inbound deadline).handleRequest env header body entropy host out') := by
  have hphase : (connection.placed inbound deadline).phase = connection.phase := rfl
  have hcontext : (connection.placed inbound deadline).fragmentContext header body =
      connection.fragmentContext header body := rfl
  unfold handleRequest
  rw [hphase, hcontext]
  simp only [startReassembly_placed]
  cases connection.phase with
  | unbound _ | transitioning =>
    exact (agrees_fault inbound deadline header.callId 0 hout hout' .unknownInterface).unasked entropy host
  | bound association =>
    cases connection.fragmentContext header body with
    | none => exact (agrees_fault inbound deadline header.callId 0 hout hout' .protocolError).unasked entropy host
    | some contextId =>
      dsimp only
      cases association.service contextId with
      | error status =>
        exact (agrees_fault inbound deadline header.callId contextId hout hout' status).unasked entropy host
      | ok transfer =>
        dsimp only
        generalize connection.startReassembly header contextId = started
        have hreassembly : (started.placed inbound deadline).reassembly = started.reassembly := rfl
        rw [hreassembly]
        cases started.reassembly.tryExtendFromSlice body with
        | none =>
          exact (agrees_overflowed inbound deadline header.callId contextId hout hout').unasked entropy host
        | some reassembly =>
          dsimp only
          split_ifs
          · have hsilent : Reply.Agrees room ⟨.needMore, { started with reassembly }, out⟩
                ⟨.needMore, { started.placed inbound deadline with reassembly }, out'⟩ :=
              Reply.agrees_of_silent rfl rfl hout hout'
            exact hsilent.unasked entropy host
          · split
            · exact (agrees_overflowed inbound deadline header.callId contextId hout hout').unasked entropy host
            · exact agrees_handleStub env entropy host inbound deadline header.callId contextId hout hout' transfer _

theorem negotiate_placed (request : BindRequest) :
    (connection.placed inbound deadline).negotiate request =
      (connection.negotiate request).map fun (connection, decision, assocGroup) =>
        (connection.placed inbound deadline, decision, assocGroup) := by
  have hphase : (connection.placed inbound deadline).phase = connection.phase := rfl
  have hndr64 : (connection.placed inbound deadline).ndr64Enabled = connection.ndr64Enabled := rfl
  unfold negotiate
  rw [hphase, hndr64]
  cases connection.phase with
  | transitioning => rfl
  | unbound association =>
    dsimp only
    obtain ⟨decision, _ | bound⟩ := association.bind request connection.ndr64Enabled
    · rfl
    · dsimp only
      cases decision.acceptedContext <;> rfl
  | bound association =>
    dsimp only
    cases (association.alterContext request connection.ndr64Enabled).1.acceptedContext <;> rfl

theorem agrees_acknowledge (hout : out.length = room) (hout' : out'.length = room) (rng : EntropySource ε)
    (parameters : AckParameters) (decision : BindDecision) :
    (connection.acknowledge out entropy rng parameters decision).1.Agrees room
        ((connection.placed inbound deadline).acknowledge out' entropy rng parameters decision).1 ∧
      (connection.acknowledge out entropy rng parameters decision).2 =
        ((connection.placed inbound deadline).acknowledge out' entropy rng parameters decision).2 := by
  unfold acknowledge
  rw [hout, hout']
  split_ifs with hfits
  · split
    · exact ⟨Reply.agrees_of_silent rfl rfl hout hout', rfl⟩
    next noise entropy' hnoise =>
      have hlen := length_ackBytes decision (length_drawNoise hnoise)
      rw [← hlen] at hfits ⊢
      exact ⟨Reply.agrees_of_bytes rfl rfl hfits hout hout', rfl⟩
  · exact ⟨Reply.agrees_of_silent rfl rfl hout hout', rfl⟩

theorem agrees_handleBind (hout : out.length = room) (hout' : out'.length = room) (rng : EntropySource ε)
    (header : RpcHeader) (body : List UInt8) (isAlter : Bool) :
    (connection.handleBind rng header body entropy out isAlter).1.Agrees room
        ((connection.placed inbound deadline).handleBind rng header body entropy out' isAlter).1 ∧
      (connection.handleBind rng header body entropy out isAlter).2 =
        ((connection.placed inbound deadline).handleBind rng header body entropy out' isAlter).2 := by
  rw [handleBind_eq, handleBind_eq]
  cases Bind.parse body with
  | error error => exact ⟨agrees_reject connection inbound deadline hout hout' .unexpectedPacketType, rfl⟩
  | ok request =>
    dsimp only
    rw [negotiate_placed]
    cases connection.negotiate request with
    | none => exact ⟨Reply.agrees_of_silent rfl rfl hout hout', rfl⟩
    | some negotiated => exact agrees_acknowledge entropy inbound deadline hout hout' rng _ _

variable (connection) in
/-- What a PDU does depends neither on the bytes behind it, nor on the clock, nor
on what the buffer held. -/
theorem agrees_dispatch (hout : out.length = room) (hout' : out'.length = room) (header : RpcHeader)
    (body : List UInt8) :
    (connection.dispatch env header body entropy host out).Agrees room
      ((connection.placed inbound deadline).dispatch env header body entropy host out') := by
  have hbind (isAlter : Bool) : Outcome.Agrees room
      ((connection.handleBind env.rng header body entropy out isAlter).1.unasked
        (connection.handleBind env.rng header body entropy out isAlter).2 host)
      (((connection.placed inbound deadline).handleBind env.rng header body entropy out' isAlter).1.unasked
        ((connection.placed inbound deadline).handleBind env.rng header body entropy out' isAlter).2 host) := by
    obtain ⟨hreply, hentropy⟩ := agrees_handleBind entropy inbound deadline hout hout' env.rng header body isAlter
    exact ⟨hreply, hentropy, rfl, rfl⟩
  unfold dispatch
  split_ifs
  · exact (agrees_nak inbound deadline header.callId hout hout' .protocolVersionNotSupported).unasked entropy host
  · exact (agrees_fault inbound deadline header.callId 0 hout hout' .protocolError).unasked entropy host
  · split
    · exact hbind false
    · exact hbind true
    · exact agrees_handleRequest env entropy host inbound deadline hout hout' header body
    · exact (agrees_reject connection inbound deadline hout hout' .unexpectedPacketType).unasked entropy host

end Connection

end Agreement

/-! ### The driver -/

/-- What is seen of a connection from outside. -/
inductive Observation where
  | asked (request : Request)
  | replied (step : Step) (sent : List UInt8)

/-- A step that only waits is not seen. -/
def Outcome.observations {ε σ : Type} (outcome : Outcome ε σ) : List Observation :=
  outcome.asked.toList.map .asked ++
    match outcome.step with
    | .needMore => []
    | step => [.replied step outcome.sent]

theorem Outcome.Agrees.observations {ε σ : Type} {room : ℕ} {a b : Outcome ε σ} (h : a.Agrees room b) :
    a.observations = b.observations := by
  unfold Outcome.observations
  rw [h.asked, h.reply.step, h.reply.sent]

/-- A machine after some steps: its buffer, what was seen, and whether it closed. -/
structure Settled (ε σ : Type) where
  machine : Machine ε σ
  out : List UInt8
  observed : List Observation
  closed : Bool

namespace Machine

variable {ε σ : Type}

/-- Step until a step closes or takes nothing off the inbound buffer. -/
def settle (env : Env ε σ) (now : Instant) (machine : Machine ε σ) (out : List UInt8) : Settled ε σ :=
  let outcome := machine.stepped env now out
  if outcome.step.closes then ⟨after outcome, outcome.out, outcome.observations, true⟩
  else if (after outcome).connection.inbound.length < machine.connection.inbound.length then
    let rest := settle env now (after outcome) outcome.out
    { rest with observed := outcome.observations ++ rest.observed }
  else ⟨after outcome, outcome.out, outcome.observations, false⟩
termination_by machine.connection.inbound.length

/-- Receive pieces of a stream, each at its own time, and settle after each; a
closed connection receives no more. `none` when a piece overflows. -/
def deliver (env : Env ε σ) (machine : Machine ε σ) (out : List UInt8) :
    List (Instant × List UInt8) → Option (Settled ε σ)
  | [] => some ⟨machine, out, [], false⟩
  | (now, bytes) :: pieces =>
    match machine.connection.receive bytes with
    | none => none
    | some connection =>
      let settled := settle env now { machine with connection } out
      if settled.closed then some settled
      else
        (deliver env settled.machine settled.out pieces).map fun rest =>
          { rest with observed := settled.observed ++ rest.observed }

/-! ### The framed machine it refines -/

def core (machine : Machine ε σ) : Machine ε σ := { machine with connection := machine.connection.core }

/-- The answer to one frame, with nothing behind it. -/
def react (env : Env ε σ) (room : ℕ) (machine : Machine ε σ) (frame : Frame) :
    Feed.Reaction (Machine ε σ) Observation :=
  let outcome :=
    match frame with
    | .pdu header body =>
      machine.connection.dispatch env header body machine.entropy machine.host (List.replicate room 0)
    | .malformed reason =>
      (machine.connection.reject reason (List.replicate room 0)).unasked machine.entropy machine.host
  ⟨(after outcome).core, outcome.observations, outcome.step.closes⟩

section
variable (env : Env ε σ) (now : Instant) (machine : Machine ε σ) {room : ℕ} {out : List UInt8}

/-- A step that finds a frame reacts to it. -/
theorem stepped_of_frame (hout : out.length = room) {frame : Frame} {rest : List UInt8}
    (h : Frame.next machine.connection.inbound.items = some (frame, rest)) :
    react env room machine.core frame =
        ⟨(after (machine.stepped env now out)).core, (machine.stepped env now out).observations,
          (machine.stepped env now out).step.closes⟩ ∧
      (machine.stepped env now out).out.length = room ∧
      ((machine.stepped env now out).step.closes = false →
        (machine.stepped env now out).connection.inbound.items = rest) := by
  have hreacts {o o' : Outcome ε σ} (hagrees : o.Agrees room o') :
      (⟨(after o).core, o.observations, o.step.closes⟩ : Feed.Reaction (Machine ε σ) Observation) =
        ⟨(after o').core, o'.observations, o'.step.closes⟩ := by
    unfold after core
    rw [hagrees.observations, hagrees.reply.step, hagrees.reply.core, hagrees.entropy, hagrees.host]
  have hblank : (List.replicate room (0 : UInt8)).length = room := List.length_replicate
  unfold stepped
  cases frame with
  | malformed reason =>
    rw [Connection.step_of_malformed env now machine.entropy machine.host out h]
    have hagrees := (Connection.agrees_reject machine.connection.core machine.connection.inbound
      (now.checkedAdd idleTimeout) hblank hout reason).unasked machine.entropy machine.host
    exact ⟨hreacts hagrees, hagrees.reply.right_room, by simp [Connection.reject, Reply.unasked, Step.closes]⟩
  | pdu header body =>
    rw [Connection.step_of_pdu env now machine.entropy machine.host out h]
    have hagrees := Connection.agrees_dispatch machine.connection.core env machine.entropy
      machine.host (machine.connection.inbound.drop header.fragLength.toNat) (now.checkedAdd idleTimeout) hblank
      hout header body
    refine ⟨hreacts hagrees, hagrees.reply.right_room, fun hopen => ?_⟩
    obtain ⟨-, -, -, -, -, rfl⟩ := Frame.next_eq_pdu h
    rcases Connection.inbound_dispatch env (machine.connection.consumed now header) machine.entropy machine.host out
      header body with hinbound | ⟨-, hcloses⟩
    · rw [hinbound]
      rfl
    · rw [hopen] at hcloses
      cases hcloses

/-- A settled machine stands where the framed one does. -/
structure Refines (room : ℕ) (settled : Settled ε σ) (outcome : Feed.Outcome UInt8 (Machine ε σ) Observation) :
    Prop where
  machine : settled.machine.core = outcome.state
  observed : settled.observed = outcome.output
  status : outcome.status =
    if settled.closed then .closed else .waiting settled.machine.connection.inbound.items
  room : settled.out.length = room

theorem settle_refines (hout : out.length = room) : Refines room (settle env now machine out)
    (Feed.drain Frame.framer (react env room) machine.core machine.connection.inbound.items) := by
  induction hn : machine.connection.inbound.length using Nat.strong_induction_on generalizing machine out with
  | _ n ih =>
    rw [settle]
    cases hframe : Frame.next machine.connection.inbound.items with
    | none =>
      have hwait := Connection.step_of_none env now machine.entropy machine.host out hframe
      rw [Feed.drain_none hframe]
      unfold stepped
      rw [hwait]
      have hsame : (after ((⟨.needMore, machine.connection.touched now, out⟩ : Reply).unasked machine.entropy
        machine.host)).connection.inbound = machine.connection.inbound := rfl
      simp only [hsame, lt_irrefl, if_false]
      exact ⟨rfl, rfl, rfl, hout⟩
    | some found =>
      obtain ⟨frame, rest⟩ := found
      obtain ⟨hreact, hroom, hrest⟩ := stepped_of_frame env now machine hout hframe
      cases hcloses : (machine.stepped env now out).step.closes with
      | true =>
        rw [Feed.drain_closed hframe (by rw [hreact]; exact hcloses), hreact]
        exact ⟨rfl, rfl, rfl, hroom⟩
      | false =>
        rw [Feed.drain_open hframe (by rw [hreact]; exact hcloses), hreact]
        have hleft : (after (machine.stepped env now out)).connection.inbound.items = rest := hrest hcloses
        have hshorter : (after (machine.stepped env now out)).connection.inbound.length <
            machine.connection.inbound.length := by
          rw [ArrayVec.length, hleft]
          exact Frame.next_shorter hframe
        have hih := ih _ (hn ▸ hshorter) (after (machine.stepped env now out)) hroom rfl
        rw [hleft] at hih
        simp only [Bool.false_eq_true, if_false, if_pos hshorter]
        exact ⟨hih.machine, congrArg _ hih.observed, hih.status, hih.room⟩

/-- Receiving and settling is feeding the framed machine. -/
theorem deliver_refines {machine : Machine ε σ} (outcome : Feed.Outcome UInt8 (Machine ε σ) Observation)
    {settled : Settled ε σ} {pieces : List (Instant × List UInt8)} (hout : out.length = room)
    (hstate : machine.core = outcome.state)
    (hstatus : outcome.status = .waiting machine.connection.inbound.items)
    (h : machine.deliver env out pieces = some settled) :
    Refines room { settled with observed := outcome.output ++ settled.observed }
      (Feed.feed Frame.framer (react env room) outcome (pieces.map Prod.snd)) := by
  induction pieces generalizing machine out outcome settled with
  | nil =>
    cases h
    exact ⟨hstate, List.append_nil _, hstatus, hout⟩
  | cons piece pieces ih =>
    obtain ⟨now, bytes⟩ := piece
    simp only [deliver] at h
    split at h
    · cases h
    next connection hreceive =>
      obtain ⟨inbound, hextend, rfl⟩ := Option.map_eq_some_iff.mp hreceive
      have hitems := ArrayVec.items_of_tryExtendFromSlice hextend
      have hsettle := settle_refines env now { machine with connection := { machine.connection with inbound } } hout
      generalize settle env now { machine with connection := { machine.connection with inbound } } out = first
        at h hsettle
      have hcore : ({ machine with connection := { machine.connection with inbound } } : Machine ε σ).core =
        outcome.state := hstate
      rw [hcore, hitems] at hsettle
      rw [List.map_cons, Feed.feed, Feed.more_of_waiting hstatus]
      generalize Feed.drain Frame.framer (react env room) outcome.state
        (machine.connection.inbound.items ++ bytes) = drained at hsettle ⊢
      have hend := hsettle.status
      split_ifs at h hend with hclosed
      · cases h
        rw [Feed.feed_closed (by exact hend)]
        exact ⟨hsettle.machine, congrArg _ hsettle.observed, hsettle.status, hsettle.room⟩
      · obtain ⟨rest, hrest, rfl⟩ := Option.map_eq_some_iff.mp h
        have hih := ih ⟨drained.state, outcome.output ++ drained.output, drained.status⟩ hsettle.room
          hsettle.machine hend hrest
        refine ⟨hih.machine, ?_, hih.status, hih.room⟩
        rw [← hih.observed, ← hsettle.observed, List.append_assoc]

/-- Two ways of cutting one stream into reads are not told apart: by the peer, by
the host, or by the state the connection ends in. -/
theorem segmentation_independent (assocGroup : UInt32) (ndr64Enabled : Bool) (entropy : ε) (host : σ)
    {out₁ out₂ : List UInt8} {pieces₁ pieces₂ : List (Instant × List UInt8)} {settled₁ settled₂ : Settled ε σ}
    (hroom : out₁.length = out₂.length)
    (hstream : (pieces₁.map Prod.snd).flatten = (pieces₂.map Prod.snd).flatten)
    (h₁ : (start assocGroup ndr64Enabled entropy host).deliver env out₁ pieces₁ = some settled₁)
    (h₂ : (start assocGroup ndr64Enabled entropy host).deliver env out₂ pieces₂ = some settled₂) :
    settled₁.observed = settled₂.observed ∧ settled₁.closed = settled₂.closed ∧
      settled₁.machine.core = settled₂.machine.core := by
  have hempty : Frame.framer.next [] = none := rfl
  have hrefines {out : List UInt8} {pieces : List (Instant × List UInt8)} {settled : Settled ε σ}
      (hout : out.length = out₁.length)
      (h : (start assocGroup ndr64Enabled entropy host).deliver env out pieces = some settled) :
      Refines out₁.length settled (Feed.drain Frame.framer (react env out₁.length)
        (start assocGroup ndr64Enabled entropy host).core (pieces.map Prod.snd).flatten) := by
    have hfeed := deliver_refines env (Feed.drain Frame.framer (react env out₁.length)
      (start assocGroup ndr64Enabled entropy host).core []) hout (by rw [Feed.drain_none hempty]) (by rw [Feed.drain_none hempty]; rfl) h
    rw [Feed.feed_flatten, Feed.drain_none hempty] at hfeed
    exact hfeed
  have hleft := hrefines rfl h₁
  have hright := hrefines hroom.symm h₂
  rw [hstream] at hleft
  have hstatus := hleft.status.symm.trans hright.status
  refine ⟨hleft.observed.trans hright.observed.symm, ?_, hleft.machine.trans hright.machine.symm⟩
  cases h : settled₁.closed <;> cases h' : settled₂.closed <;> simp_all

end

/-- A bind and a request, and the same bytes cut inside the bind's header and
inside the request's body. -/
def wholeStream : List (Instant × List UInt8) :=
  [(0, framed .bind .complete 1 (proposal [0] Wire.ndr32) ++ framed .request .complete 2 (blankCall 0))]

def cutStream : List (Instant × List UInt8) :=
  let bytes := framed .bind .complete 1 (proposal [0] Wire.ndr32) ++ framed .request .complete 2 (blankCall 0)
  [(1, bytes.take 9), (2, (bytes.drop 9).take 200), (3, bytes.drop 209)]

theorem segmentation_independent_bind_request : ∃ settled₁ settled₂ : Settled Unit Unit,
    (start 0 false () ()).deliver Connection.denying (List.replicate 384 0) wholeStream = some settled₁ ∧
      (start 0 false () ()).deliver Connection.denying (List.replicate 384 1) cutStream = some settled₂ ∧
      settled₁.observed.length = 3 ∧ settled₁.observed = settled₂.observed := by
  have h₁ : ((start 0 false () ()).deliver Connection.denying (List.replicate 384 0) wholeStream).map
      (fun settled => settled.observed.length) = some 3 := by decide +kernel
  have h₂ : ((start 0 false () ()).deliver Connection.denying (List.replicate 384 1) cutStream).isSome = true := by
    decide +kernel
  obtain ⟨settled₁, hsettled₁, hlength⟩ := Option.map_eq_some_iff.mp h₁
  obtain ⟨settled₂, hsettled₂⟩ := Option.isSome_iff_exists.mp h₂
  exact ⟨settled₁, settled₂, hsettled₁, hsettled₂, hlength,
    (segmentation_independent Connection.denying 0 false () () (by rw [List.length_replicate, List.length_replicate])
      (by decide +kernel) hsettled₁ hsettled₂).1⟩

end Machine

end Kmsrs.Wire
