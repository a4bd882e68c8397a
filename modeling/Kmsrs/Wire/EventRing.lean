import Kmsrs.Lib.Ring
import Kmsrs.Wire.Machine

/-! The ring of events of a connection, over whole runs. No branch of a step
looks at the ring, so what a step records is what it leaves in an empty one. All
that was recorded has been delivered in order, is still in the ring, or has been
counted as lost; and only the oldest of what is undelivered is ever lost. -/

namespace Kmsrs.Wire

open Kmsrs.Layout Kmsrs.Bytes Kmsrs.Kms Kmsrs.Wire.Bind

/-- The events not yet delivered, and how many were lost since the last count. -/
abbrev EventRing := ArrayVec ConnectionEvent 8 × UInt32

def ConnectionEvent.isLost : ConnectionEvent → Bool
  | .lost _ => true
  | _ => false

/-- How many events an event says were lost. -/
def ConnectionEvent.losses : ConnectionEvent → ℕ
  | .lost count => count.toNat
  | _ => 0

namespace Connection

def ring (connection : Connection) : EventRing := (connection.events, connection.lostEvents)

def withRing (connection : Connection) (ring : EventRing) : Connection :=
  { connection with events := ring.1, lostEvents := ring.2 }

/-- What `record` does to the ring. -/
def recordIn (ring : EventRing) (event : ConnectionEvent) : EventRing :=
  let (events, lost) := ring.1.pushEvicting event
  (events, if lost ∧ ring.2.toNat + 1 < 2 ^ 32 then ring.2 + 1 else ring.2)

/-- A handler records the same few events whatever is in the ring, and a loss is
never one of them. -/
def Records (connection : Connection) (handler : Connection → Connection) : Prop :=
  ∃ recorded : List ConnectionEvent, recorded.length ≤ 2 ∧ (∀ event ∈ recorded, event.isLost = false) ∧
    ∀ ring, (handler (connection.withRing ring)).ring = recorded.foldl recordIn ring

variable {connection : Connection}

theorem records_nothing {handler : Connection → Connection}
    (h : ∀ ring, (handler (connection.withRing ring)).ring = ring) : Records connection handler :=
  ⟨[], by simp, by simp, h⟩

theorem records_one {handler : Connection → Connection} (event : ConnectionEvent) (hlost : event.isLost = false)
    (h : ∀ ring, (handler (connection.withRing ring)).ring = recordIn ring event) : Records connection handler :=
  ⟨[event], by simp, by simpa using hlost, h⟩

theorem records_two {handler : Connection → Connection} (first second : ConnectionEvent)
    (hfirst : first.isLost = false) (hsecond : second.isLost = false)
    (h : ∀ ring, (handler (connection.withRing ring)).ring = recordIn (recordIn ring first) second) :
    Records connection handler :=
  ⟨[first, second], by simp, by simp [hfirst, hsecond], h⟩

/-! ### Each handler -/

theorem ring_fault (connection : Connection) (out : List UInt8) (callId : UInt32) (contextId : UInt16)
    (status : NcaStatus) :
    (connection.fault out callId contextId status).connection.ring = recordIn connection.ring (.faulted status) := by
  rw [fault_eq]
  split_ifs <;> rfl

theorem ring_refuse (connection : Connection) (callId : UInt32) (contextId : UInt16) (transfer : TransferSyntax)
    (result : HResult) (out : List UInt8) :
    (connection.refuse callId contextId transfer result out).connection.ring =
      recordIn connection.ring (.refused result) := by
  unfold refuse
  simp only
  split <;> rfl

theorem ring_nak (connection : Connection) (out : List UInt8) (callId : UInt32) (reason : NakReason) :
    (connection.nak out callId reason).connection.ring =
      recordIn connection.ring (.rejected .unsupportedRpcVersion) := by
  rw [nak_eq]
  split_ifs <;> rfl

variable {ε σ : Type} (env : Env ε σ) (entropy : ε) (host : σ) (out : List UInt8)

theorem records_answer (callId : UInt32) (contextId : UInt16) (transfer : TransferSyntax) (payload : List UInt8) :
    Records connection fun connection =>
      (connection.answer env callId contextId transfer payload entropy host out).connection := by
  have hciphers : ∀ ring, (connection.withRing ring).ciphers = connection.ciphers := fun _ => rfl
  cases hdecode : Kms.decode payload connection.ciphers with
  | error error =>
    have hfault : (∀ ring, ((connection.withRing ring).answer env callId contextId transfer payload entropy host
        out) = ((connection.withRing ring).fault out callId contextId .protocolError).unasked entropy host) →
        Records connection fun connection =>
          (connection.answer env callId contextId transfer payload entropy host out).connection := by
      intro h
      refine records_one (.faulted .protocolError) rfl fun ring => ?_
      rw [h ring]
      exact ring_fault _ out callId contextId .protocolError
    cases error with
    | request error =>
      cases error with
      | unsupportedVersion _ | wrongLength _ _ _ =>
        refine records_one (.refused .invalidData) rfl fun ring => ?_
        simp only [answer, hciphers, hdecode]
        exact ring_refuse _ callId contextId transfer .invalidData out
      | tooShortToDispatch _ => exact hfault fun ring => by simp only [answer, hciphers, hdecode]
    | cipher _ | bodyLength _ => exact hfault fun ring => by simp only [answer, hciphers, hdecode]
  | ok decoded =>
    rcases hactivate : env.activate host decoded.request with ⟨decision, host'⟩
    cases decision with
    | refuse result =>
      refine records_one (.refused result) rfl fun ring => ?_
      simp only [answer, hciphers, hdecode, hactivate]
      exact ring_refuse _ callId contextId transfer result out
    | grant grant =>
      rcases hencode : Kms.encode env.digests decoded
          { epid := grant.epid
            clientMachineId := decoded.request.clientMachineId
            clientTime := decoded.request.clientTime
            count := grant.count
            intervals := grant.intervals
            hardwareId := grant.hardwareId }
          connection.ciphers env.rng entropy (List.replicate maxResponseLen 0) with ⟨encoded, entropy'⟩
      cases encoded with
      | error _ =>
        refine records_nothing fun ring => ?_
        simp only [answer, hciphers, hdecode, hactivate, hencode]
        rfl
      | ok encoded =>
        cases hwrite : writeResponsePdu out callId contextId transfer .ok (encoded.2.take encoded.1) with
        | none =>
          refine records_nothing fun ring => ?_
          simp only [answer, hciphers, hdecode, hactivate, hencode, hwrite]
          rfl
        | some written =>
          refine records_one (.activated decoded.version decoded.macVerified) rfl fun ring => ?_
          simp only [answer, hciphers, hdecode, hactivate, hencode, hwrite]
          rfl

theorem records_handleStub (callId : UInt32) (contextId : UInt16) (transfer : TransferSyntax)
    (assembled : List UInt8) :
    Records connection fun connection =>
      (connection.handleStub env callId contextId transfer assembled entropy host out).connection := by
  unfold handleStub
  cases hparse : Stub.parseRequest assembled transfer with
  | ok parsed => exact records_answer env entropy host out callId contextId transfer parsed.data
  | error error =>
    cases error <;> exact records_one (.faulted _) rfl fun ring => ring_fault _ out callId contextId _

theorem records_handleRequest (header : RpcHeader) (body : List UInt8) :
    Records connection fun connection =>
      (connection.handleRequest env header body entropy host out).connection := by
  have hphase : ∀ ring, (connection.withRing ring).phase = connection.phase := fun _ => rfl
  have hcontext : ∀ ring, (connection.withRing ring).fragmentContext header body =
      connection.fragmentContext header body := fun _ => rfl
  unfold handleRequest
  cases hfound : connection.phase with
  | unbound _ | transitioning =>
    refine records_one (.faulted .unknownInterface) rfl fun ring => ?_
    simp only [hphase, hfound]
    exact ring_fault _ out header.callId 0 .unknownInterface
  | bound association =>
    cases hnamed : connection.fragmentContext header body with
    | none =>
      refine records_one (.faulted .protocolError) rfl fun ring => ?_
      simp only [hphase, hfound, hcontext, hnamed]
      exact ring_fault _ out header.callId 0 .protocolError
    | some contextId =>
      cases hservice : association.service contextId with
      | error status =>
        refine records_one (.faulted status) rfl fun ring => ?_
        simp only [hphase, hfound, hcontext, hnamed, hservice]
        exact ring_fault _ out header.callId contextId status
      | ok transfer =>
        have hstart : ∀ ring, (connection.withRing ring).startReassembly header contextId =
            (connection.startReassembly header contextId).withRing ring := by
          intro ring
          unfold startReassembly
          split_ifs <;> rfl
        have hheld : ∀ ring, ((connection.startReassembly header contextId).withRing ring).reassembly =
            (connection.startReassembly header contextId).reassembly := fun _ => rfl
        cases hextend : (connection.startReassembly header contextId).reassembly.tryExtendFromSlice body with
        | none =>
          refine records_two (.rejected .reassemblyOverflow) (.faulted .protocolError) rfl rfl fun ring => ?_
          simp only [hphase, hfound, hcontext, hnamed, hservice, hstart, hheld, hextend]
          exact ring_fault _ out header.callId contextId .protocolError
        | some reassembly =>
          cases hlast : header.flags.contains .lastFrag with
          | false =>
            refine records_nothing fun ring => ?_
            simp only [hphase, hfound, hcontext, hnamed, hservice, hstart, hheld, hextend]
            rfl
          | true =>
            have hstub : Records { connection.startReassembly header contextId with reassembly }.stopReassembly _ :=
              records_handleStub env entropy host out header.callId contextId transfer reassembly.items
            obtain ⟨recorded, hlen, hlost, hring⟩ := hstub
            refine ⟨recorded, hlen, hlost, fun ring => ?_⟩
            simp only [hphase, hfound, hcontext, hnamed, hservice, hstart, hheld, hextend,
              ArrayVec.tryExtendFromSlice_empty reassembly.le_cap]
            exact hring ring

theorem connection_handleBind {rng : EntropySource ε} {header : RpcHeader} {body : List UInt8} {isAlter : Bool}
    {request : BindRequest} {negotiated : Connection × BindDecision × UInt32} (hparse : Bind.parse body = .ok request)
    (hnegotiate : connection.negotiate request = some negotiated) :
    (connection.handleBind rng header body entropy out isAlter).1.connection = negotiated.1 := by
  rw [handleBind_eq, hparse]
  simp only [hnegotiate]
  exact connection_acknowledge negotiated.1 entropy out rng _ negotiated.2.1

/-- A bind records what it accepted, whatever becomes of the acknowledgement. -/
theorem records_handleBind (rng : EntropySource ε) (header : RpcHeader) (body : List UInt8) (isAlter : Bool) :
    Records connection fun connection =>
      (connection.handleBind rng header body entropy out isAlter).1.connection := by
  cases hparse : Bind.parse body with
  | error error =>
    refine records_one (.rejected .unexpectedPacketType) rfl fun ring => ?_
    rw [handleBind_eq, hparse]
    rfl
  | ok request =>
    have hphase : ∀ ring, (connection.withRing ring).phase = connection.phase := fun _ => rfl
    have hndr64 : ∀ ring, (connection.withRing ring).ndr64Enabled = connection.ndr64Enabled := fun _ => rfl
    cases hfound : connection.phase with
    | transitioning =>
      refine records_nothing fun ring => ?_
      rw [handleBind_eq, hparse]
      simp only [negotiate, hphase, hfound]
      rfl
    | unbound association =>
      cases haccepted : (Bind.decide request connection.ndr64Enabled).acceptedContext with
      | none =>
        refine records_nothing fun ring => ?_
        rw [connection_handleBind entropy out hparse (by
          simp only [negotiate, hphase, hfound, hndr64, Association.bind, haccepted]
          rfl)]
        rfl
      | some accepted =>
        refine records_one (.bound accepted.transfer accepted.contextId) rfl fun ring => ?_
        rw [connection_handleBind entropy out hparse (by
          simp only [negotiate, hphase, hfound, hndr64, Association.bind, haccepted]
          rfl)]
        rfl
    | bound association =>
      cases haccepted : (Bind.decide request connection.ndr64Enabled).acceptedContext with
      | none =>
        refine records_nothing fun ring => ?_
        rw [connection_handleBind entropy out hparse (by
          simp only [negotiate, hphase, hfound, hndr64, Association.alterContext, haccepted]
          rfl)]
        rfl
      | some accepted =>
        refine records_one (.contextAdded accepted.transfer accepted.contextId) rfl fun ring => ?_
        rw [connection_handleBind entropy out hparse (by
          simp only [negotiate, hphase, hfound, hndr64, Association.alterContext, haccepted]
          rfl)]
        rfl

theorem records_dispatch (header : RpcHeader) (body : List UInt8) :
    Records connection fun connection => (connection.dispatch env header body entropy host out).connection := by
  unfold dispatch
  split_ifs
  · exact records_one (.rejected .unsupportedRpcVersion) rfl fun ring => ring_nak _ out header.callId _
  · exact records_two (.rejected .authenticationAttempted) (.faulted .protocolError) rfl rfl fun ring =>
      ring_fault _ out header.callId 0 .protocolError
  · cases header.packetType? with
    | none => exact records_one (.rejected .unexpectedPacketType) rfl fun ring => rfl
    | some type =>
      cases type with
      | bind => exact records_handleBind entropy out env.rng header body false
      | alterContext => exact records_handleBind entropy out env.rng header body true
      | request => exact records_handleRequest env entropy host out header body
      | _ => exact records_one (.rejected .unexpectedPacketType) rfl fun ring => rfl

theorem records_step (now : Instant) :
    Records connection fun connection => (connection.step env now entropy host out).connection := by
  have hinbound : ∀ ring, (connection.withRing ring).inbound = connection.inbound := fun _ => rfl
  cases hframe : Frame.next connection.inbound.items with
  | none =>
    refine records_nothing fun ring => ?_
    rw [step_of_none env now entropy host out (by rw [hinbound]; exact hframe)]
    rfl
  | some found =>
    obtain ⟨frame, rest⟩ := found
    cases frame with
    | malformed reason =>
      refine records_one (.rejected reason) rfl fun ring => ?_
      rw [step_of_malformed env now entropy host out (by rw [hinbound]; exact hframe)]
      rfl
    | pdu header body =>
      have hdispatch : Records (connection.consumed now header) _ :=
        records_dispatch env entropy host out header body
      obtain ⟨recorded, hlen, hlost, hring⟩ := hdispatch
      refine ⟨recorded, hlen, hlost, fun ring => ?_⟩
      beta_reduce
      rw [step_of_pdu env now entropy host out (by rw [hinbound]; exact hframe)]
      exact hring ring

/-! ### The books of a run -/

/-- What a step records: what it leaves in an empty ring. -/
def recordedBy (connection : Connection) (now : Instant) : List ConnectionEvent :=
  ((connection.withRing (.empty, 0)).step env now entropy host out).connection.events.items

theorem foldl_recordIn_empty {recorded : List ConnectionEvent} (h : recorded.length ≤ 2) :
    (recorded.foldl recordIn (.empty, 0)).1.items = recorded := by
  match recorded, h with
  | [], _ => rfl
  | [_], _ => rfl
  | [_, _], _ => rfl

/-- In any ring, a step records what it records in an empty one. -/
theorem ring_step (connection : Connection) (now : Instant) :
    (connection.step env now entropy host out).connection.ring =
        (recordedBy env entropy host out connection now).foldl recordIn connection.ring ∧
      ∀ event ∈ recordedBy env entropy host out connection now, event.isLost = false := by
  have hstep : Records connection _ := records_step env entropy host out now
  obtain ⟨recorded, hlen, hlost, hring⟩ := hstep
  have hrecorded : recordedBy env entropy host out connection now = recorded := by
    have hempty := congrArg (fun ring : EventRing => ring.1.items) (hring (.empty, 0))
    exact hempty.trans (foldl_recordIn_empty hlen)
  rw [hrecorded]
  exact ⟨hring connection.ring, hlost⟩

/-- Recording keeps the books as long as the count of losses does not saturate. -/
theorem balanced_recordIn {put taken : List ConnectionEvent} {reported : ℕ} {ring : EventRing}
    (h : Ring.Balanced put taken ring.1.items (reported + ring.2.toNat)) (event : ConnectionEvent)
    (hfew : put.length + 1 < 2 ^ 32) :
    Ring.Balanced (put ++ [event]) taken (recordIn ring event).1.items
      (reported + (recordIn ring event).2.toNat) := by
  have hpushed := h.push (by decide) event
  have hcount := h.length_put
  unfold recordIn
  cases hlost : (ring.1.pushEvicting event).2 with
  | false => simpa [hlost] using hpushed
  | true =>
    have hsucc : (ring.2 + 1).toNat = ring.2.toNat + 1 := by
      rw [UInt32.toNat_add]
      exact Nat.mod_eq_of_lt (by simp only [UInt32.reduceToNat]; omega)
    simp only [hlost, true_and]
    rw [if_pos (by omega), hsucc]
    simpa [hlost, Nat.add_assoc] using hpushed

theorem balanced_foldl_recordIn {taken recorded : List ConnectionEvent} {reported : ℕ} {put : List ConnectionEvent}
    {ring : EventRing} (h : Ring.Balanced put taken ring.1.items (reported + ring.2.toNat))
    (hfew : (put ++ recorded).length < 2 ^ 32) :
    Ring.Balanced (put ++ recorded) taken (recorded.foldl recordIn ring).1.items
      (reported + (recorded.foldl recordIn ring).2.toNat) := by
  induction recorded generalizing put ring with
  | nil => simpa using h
  | cons event recorded ih =>
    simp only [List.length_append, List.length_cons] at hfew
    have hstep := balanced_recordIn h event (by omega)
    have hrest := ih hstep (by simp only [List.length_append, List.length_cons, List.length_nil]; omega)
    simpa using hrest

end Connection

namespace Machine

open Kmsrs.Wire.Connection

variable {ε σ : Type}

/-- The events a call records. -/
def recorded (machine : Machine ε σ) : Call ε σ → List ConnectionEvent
  | .step env now out => recordedBy env machine.entropy machine.host out machine.connection now
  | .receive _ | .nextEvent => []

/-- What a call delivers. -/
def delivered? (machine : Machine ε σ) : Call ε σ → Option ConnectionEvent
  | .nextEvent => machine.connection.nextEvent.1
  | .receive _ | .step _ _ _ => none

def recordedIn (past : List (Machine ε σ × Call ε σ)) : List ConnectionEvent :=
  past.flatMap fun (machine, call) => machine.recorded call

/-- The events delivered, losses apart. -/
def deliveredIn (past : List (Machine ε σ × Call ε σ)) : List ConnectionEvent :=
  (past.filterMap fun (machine, call) => machine.delivered? call).filter fun event => !event.isLost

/-- How many events the losses delivered stand for. -/
def lossesIn (past : List (Machine ε σ × Call ε σ)) : ℕ :=
  ((past.filterMap fun (machine, call) => machine.delivered? call).map ConnectionEvent.losses).sum

variable {machine : Machine ε σ} {past : List (Machine ε σ × Call ε σ)}

/-- The books balance, and a loss is never among what was recorded. -/
structure Booked (past : List (Machine ε σ × Call ε σ)) (machine : Machine ε σ) : Prop where
  balanced : (recordedIn past).length < 2 ^ 32 →
    Ring.Balanced (recordedIn past) (deliveredIn past) machine.connection.events.items
      (lossesIn past + machine.connection.lostEvents.toNat)
  recorded_ne : ∀ event ∈ recordedIn past, event.isLost = false

theorem recordedIn_concat (past : List (Machine ε σ × Call ε σ)) (machine : Machine ε σ) (call : Call ε σ) :
    recordedIn (past ++ [(machine, call)]) = recordedIn past ++ machine.recorded call := by
  simp [recordedIn]

theorem deliveredIn_concat (past : List (Machine ε σ × Call ε σ)) (machine : Machine ε σ) (call : Call ε σ) :
    deliveredIn (past ++ [(machine, call)]) =
      deliveredIn past ++ (machine.delivered? call).toList.filter fun event => !event.isLost := by
  cases h : machine.delivered? call <;> simp [deliveredIn, h]

theorem lossesIn_concat (past : List (Machine ε σ × Call ε σ)) (machine : Machine ε σ) (call : Call ε σ) :
    lossesIn (past ++ [(machine, call)]) =
      lossesIn past + ((machine.delivered? call).map ConnectionEvent.losses).getD 0 := by
  cases h : machine.delivered? call <;> simp [lossesIn, h]

/-- A call that delivers nothing and leaves the ring alone. -/
theorem Booked.silent (h : Booked past machine) {call : Call ε σ} (hrecorded : machine.recorded call = [])
    (hdelivered : machine.delivered? call = none) (hring : (machine.next call).connection.ring = machine.connection.ring) :
    Booked (past ++ [(machine, call)]) (machine.next call) := by
  obtain ⟨hevents, hlost⟩ := Prod.mk.inj hring
  constructor
  · rw [recordedIn_concat, deliveredIn_concat, lossesIn_concat, hrecorded, hdelivered, hevents, hlost]
    simpa using h.balanced
  · rw [recordedIn_concat, hrecorded]
    simpa using h.recorded_ne

theorem booked_step (h : Booked past machine) (env : Env ε σ) (now : Instant) (out : List UInt8) :
    Booked (past ++ [(machine, .step env now out)]) (machine.next (.step env now out)) := by
  obtain ⟨hring, hne⟩ := ring_step env machine.entropy machine.host out machine.connection now
  obtain ⟨hevents, hlost⟩ := Prod.mk.inj hring
  constructor
  · intro hfew
    rw [recordedIn_concat] at hfew ⊢
    have hbalanced := h.balanced (lt_of_le_of_lt (by simp) hfew)
    rw [deliveredIn_concat, lossesIn_concat]
    show Ring.Balanced _ _ (machine.connection.step env now machine.entropy machine.host out).connection.events.items
      (_ + (machine.connection.step env now machine.entropy machine.host out).connection.lostEvents.toNat)
    rw [hevents, hlost]
    have hrecorded := @balanced_foldl_recordIn _ _ _ _ machine.connection.ring hbalanced hfew
    simpa [delivered?, recorded] using hrecorded
  · rw [recordedIn_concat]
    intro event hevent
    rcases List.mem_append.mp hevent with hold | hnew
    · exact h.recorded_ne event hold
    · exact hne event hnew

/-- The ring is drained first; only then are the losses since the last count
reported. -/
theorem booked_nextEvent (h : Booked past machine) :
    Booked (past ++ [(machine, .nextEvent)]) (machine.next .nextEvent) := by
  have hrecorded : machine.recorded .nextEvent = [] := rfl
  constructor
  · rw [recordedIn_concat, deliveredIn_concat, lossesIn_concat, hrecorded, List.append_nil]
    intro hfew
    have hbalanced := h.balanced hfew
    cases hitems : machine.connection.events.items with
    | nil =>
      have hnext : machine.connection.nextEvent =
          (if 0 < machine.connection.lostEvents then some (.lost machine.connection.lostEvents) else none,
            { machine.connection with lostEvents := 0 }) := by
        rw [nextEvent, ArrayVec.popFirst_nil hitems]
      have hdelivered : machine.delivered? .nextEvent =
          if 0 < machine.connection.lostEvents then some (.lost machine.connection.lostEvents) else none := by
        rw [delivered?, hnext]
      rw [hitems] at hbalanced
      simp only [hdelivered, next, hnext, hitems]
      by_cases hpos : 0 < machine.connection.lostEvents
      · simpa [hpos, ConnectionEvent.isLost, ConnectionEvent.losses] using hbalanced
      · have hzero : machine.connection.lostEvents = 0 := by
          rw [← UInt32.toNat_inj]
          exact Nat.eq_zero_of_not_pos hpos
        simpa [hzero] using hbalanced
    | cons event rest =>
      obtain ⟨ring, hpop, hrest⟩ := ArrayVec.popFirst_cons hitems
      rw [hitems] at hbalanced
      have hlive : event.isLost = false :=
        h.recorded_ne event (hbalanced.sublist.subset (by simp))
      have hlosses : event.losses = 0 := by
        cases event <;> first | rfl | cases hlive
      have hnext : machine.connection.nextEvent = (some event, { machine.connection with events := ring }) := by
        rw [nextEvent, hpop]
      have hdelivered : machine.delivered? .nextEvent = some event := by
        rw [delivered?, hnext]
      simp only [hdelivered, next, hnext, hrest]
      simpa [hlive, hlosses] using hbalanced.take
  · rw [recordedIn_concat, hrecorded]
    simpa using h.recorded_ne

theorem booked_run {assocGroup : UInt32} {ndr64Enabled : Bool} {address : SecondaryAddress} {entropy : ε} {host : σ}
    (h : Runs next ⟨(Connection.new assocGroup ndr64Enabled).withSecondaryAddress address, entropy, host⟩ past machine) :
    Booked past machine := by
  apply Runs.history Booked _ _ h
  · exact ⟨fun _ => Ring.balanced_nil, by simp [recordedIn]⟩
  · intro past machine call _ hbooked
    cases call with
    | receive bytes =>
      refine hbooked.silent rfl rfl ?_
      show ((machine.connection.receive bytes).getD machine.connection).ring = machine.connection.ring
      unfold receive
      cases machine.connection.inbound.tryExtendFromSlice bytes <;> rfl
    | step env now out => exact booked_step hbooked env now out
    | nextEvent => exact booked_nextEvent hbooked

/-- Over any run that records fewer than 2³² events, those delivered, those in the
ring and the losses make up what was recorded. The ring is the end of it, and
what was delivered came, in order, from before: only what is older than the whole
ring can be missing. -/
theorem ring_conserves {assocGroup : UInt32} {ndr64Enabled : Bool} {address : SecondaryAddress} {entropy : ε}
    {host : σ}
    (h : Runs next ⟨(Connection.new assocGroup ndr64Enabled).withSecondaryAddress address, entropy, host⟩ past machine)
    (hfew : (recordedIn past).length < 2 ^ 32) :
    (deliveredIn past).length + machine.connection.events.length +
        (lossesIn past + machine.connection.lostEvents.toNat) = (recordedIn past).length ∧
      machine.connection.events.length ≤ 8 ∧
      ∃ older, recordedIn past = older ++ machine.connection.events.items ∧ (deliveredIn past).Sublist older := by
  have hbalanced := (booked_run h).balanced hfew
  refine ⟨hbalanced.length_put.symm, machine.connection.events.le_cap, ?_⟩
  obtain ⟨older, hput, htaken, -⟩ := hbalanced
  exact ⟨older, hput, htaken⟩

/-- Nine headers that declare no length at all, then the ring and the count. -/
def nineRejected : List (Call Unit Unit) :=
  (List.replicate 9 [.receive (List.replicate 16 0), .step denying 0 []]).flatten ++ List.replicate 9 .nextEvent

theorem ninth_rejection_evicts_first :
    ∃ past machine, Runs next
        ⟨(Connection.new 0 false).withSecondaryAddress (.forPort 1688), (), ()⟩ past machine ∧
      (deliveredIn past).length + machine.connection.events.length +
          (lossesIn past + machine.connection.lostEvents.toNat) = 9 ∧ lossesIn past = 1 := by
  have hcount : (recordedIn (path next (start 0 false () ()) nineRejected)).length = 9 := by decide +kernel
  refine ⟨_, _, Runs.of_path nineRejected, ?_, by decide +kernel⟩
  exact (ring_conserves (Runs.of_path nineRejected) (hcount.trans_lt (by decide))).1.trans hcount

end Machine

end Kmsrs.Wire
