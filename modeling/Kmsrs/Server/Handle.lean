import Kmsrs.Wire.Machine

/-! Handling one read. The bytes are received, the connection is stepped into one
scratch buffer until it waits or closes, and its events are drained. The host's
decision is an input; what the logger prints is not modelled. -/

namespace Kmsrs.Server

open Kmsrs.Bytes Kmsrs.Kms Kmsrs.Wire

/-- What the driver is to do with the socket. -/
structure Handled where
  response : List UInt8
  close : Bool
deriving DecidableEq

/-- One read from the socket, with the clock reading it is handled at and the host
in the context of its request. -/
structure Read (ε σ : Type) where
  input : List UInt8
  now : Instant
  env : Env ε σ

/-- The machine after a read, what the driver is told, and the events logged. -/
structure Turn (ε σ : Type) where
  machine : Machine ε σ
  handled : Handled
  logged : List ConnectionEvent

/-- A fresh connection, advertising the port that accepted it. -/
def connection (assocGroup : UInt32) (advertisesNdr64 : Bool) (acceptingPort : UInt16) : Connection :=
  (Connection.new assocGroup advertisesNdr64).withSecondaryAddress (.forPort acceptingPort)

variable {ε σ : Type}

/-- A step that answers has taken its PDU. -/
theorem inbound_lt_of_send {machine : Machine ε σ} {env : Env ε σ} {now : Instant} {out : List UInt8} {len : ℕ}
    (h : (machine.stepped env now out).step = .send len) :
    (Machine.after (machine.stepped env now out)).connection.inbound.length <
      machine.connection.inbound.length := by
  rcases Connection.inbound_step env machine.connection machine.entropy machine.host out now with
    ⟨-, hwait, -⟩ | ⟨header, body, rest, hframe, hinbound⟩ | ⟨-, hcloses⟩
  · rw [show machine.connection.step env now machine.entropy machine.host out = machine.stepped env now out from rfl,
      h] at hwait
    cases hwait
  · obtain ⟨-, hmin, -, hfits, -, -⟩ := Frame.next_eq_pdu hframe
    show (machine.stepped env now out).connection.inbound.length < _
    unfold Machine.stepped
    rw [hinbound]
    simp only [ArrayVec.length, ArrayVec.items_drop, List.length_drop]
    simp only [headerLen] at hmin
    omega
  · rw [show machine.connection.step env now machine.entropy machine.host out = machine.stepped env now out from rfl,
      h] at hcloses
    cases hcloses

/-- Step until the connection waits or closes, collecting what is to be sent. -/
def answerAll (env : Env ε σ) (now : Instant) (machine : Machine ε σ) (scratch : List UInt8) :
    Machine ε σ × Handled :=
  let outcome := machine.stepped env now scratch
  match _h : outcome.step with
  | .needMore => (.after outcome, ⟨[], false⟩)
  | .send len =>
    let (machine, handled) := answerAll env now (.after outcome) outcome.out
    (machine, { handled with response := (range outcome.out 0 len).getD [] ++ handled.response })
  | .sendThenClose len _ => (.after outcome, ⟨(range outcome.out 0 len).getD [], true⟩)
  | .close _ => (.after outcome, ⟨[], true⟩)
termination_by machine.connection.inbound.length
decreasing_by exact inbound_lt_of_send _h

/-- How many events are still to be read, a count of lost ones included. -/
def pendingEvents (connection : Connection) : ℕ :=
  connection.events.length + if 0 < connection.lostEvents then 1 else 0

theorem pendingEvents_lt {connection connection' : Connection} {event : ConnectionEvent}
    (h : connection.nextEvent = (some event, connection')) :
    pendingEvents connection' < pendingEvents connection := by
  unfold Connection.nextEvent at h
  cases hitems : connection.events.items with
  | nil =>
    rw [ArrayVec.popFirst_nil hitems] at h
    obtain ⟨hsome, rfl⟩ := Prod.mk.inj h
    have hlost : 0 < connection.lostEvents := by
      by_contra hnone
      rw [if_neg hnone] at hsome
      cases hsome
    simp [pendingEvents, hlost]
  | cons first rest =>
    obtain ⟨w, hpop, hw⟩ := ArrayVec.popFirst_cons hitems
    rw [hpop] at h
    obtain ⟨-, rfl⟩ := Prod.mk.inj h
    simp only [pendingEvents, ArrayVec.length, hitems, hw, List.length_cons]
    omega

/-- Read events until there are none; a count of lost ones comes last. -/
def drainEvents (connection : Connection) : List ConnectionEvent × Connection :=
  match _h : connection.nextEvent with
  | (none, connection) => ([], connection)
  | (some event, connection) =>
    let (events, connection) := drainEvents connection
    (event :: events, connection)
termination_by pendingEvents connection
decreasing_by exact pendingEvents_lt _h

/-- Feed a connection some bytes and collect what it wants to send. An overflow is
answered by closing. -/
def handle (machine : Machine ε σ) (read : Read ε σ) : Turn ε σ :=
  match machine.connection.receive read.input with
  | none => ⟨machine, ⟨[], true⟩, []⟩
  | some connection =>
    let (machine, handled) :=
      answerAll read.env read.now { machine with connection } (List.replicate maxResponseLen 0)
    let (logged, connection) := drainEvents machine.connection
    ⟨{ machine with connection }, handled, logged⟩

/-! ### The loop -/

section
variable {env : Env ε σ} {now : Instant} {machine : Machine ε σ} {scratch : List UInt8}

theorem answerAll_of_needMore (h : (machine.stepped env now scratch).step = .needMore) :
    answerAll env now machine scratch = (.after (machine.stepped env now scratch), ⟨[], false⟩) := by
  rw [answerAll]
  split <;> simp_all

theorem answerAll_of_send {len : ℕ} (h : (machine.stepped env now scratch).step = .send len) :
    answerAll env now machine scratch =
      ((answerAll env now (.after (machine.stepped env now scratch)) (machine.stepped env now scratch).out).1,
        ⟨(range (machine.stepped env now scratch).out 0 len).getD [] ++
            (answerAll env now (.after (machine.stepped env now scratch))
              (machine.stepped env now scratch).out).2.response,
          (answerAll env now (.after (machine.stepped env now scratch))
            (machine.stepped env now scratch).out).2.close⟩) := by
  rw [answerAll]
  split <;> simp_all

theorem answerAll_of_closes (h : (machine.stepped env now scratch).step.closes = true) :
    (answerAll env now machine scratch).1 = .after (machine.stepped env now scratch) ∧
      (answerAll env now machine scratch).2.close = true := by
  rw [answerAll]
  split <;> simp_all [Step.closes]

variable (env now) in
/-- The loop comes to step from this machine, into this scratch buffer. -/
inductive Visits : Machine ε σ → List UInt8 → Machine ε σ → List UInt8 → Prop
  | here (machine : Machine ε σ) (scratch : List UInt8) : Visits machine scratch machine scratch
  | later {machine machine' : Machine ε σ} {scratch scratch' : List UInt8} {len : ℕ}
      (h : (machine.stepped env now scratch).step = .send len)
      (hrest : Visits (.after (machine.stepped env now scratch)) (machine.stepped env now scratch).out
        machine' scratch') : Visits machine scratch machine' scratch'

variable (env now) in
/-- Induction along the loop, on where it waits, closes and answers. -/
theorem answerAll_induction {motive : Machine ε σ → List UInt8 → Prop}
    (waits : ∀ machine scratch, (machine.stepped env now scratch).step = .needMore → motive machine scratch)
    (closes : ∀ machine scratch, (machine.stepped env now scratch).step.closes = true → motive machine scratch)
    (sends : ∀ machine scratch len, (machine.stepped env now scratch).step = .send len →
      motive (.after (machine.stepped env now scratch)) (machine.stepped env now scratch).out →
      motive machine scratch)
    (machine : Machine ε σ) (scratch : List UInt8) : motive machine scratch := by
  induction hn : machine.connection.inbound.length using Nat.strong_induction_on generalizing machine scratch with
  | _ n ih =>
    cases hstep : (machine.stepped env now scratch).step with
    | needMore => exact waits machine scratch hstep
    | send len => exact sends machine scratch len hstep (ih _ (hn ▸ inbound_lt_of_send hstep) _ _ rfl)
    | sendThenClose len reason => exact closes machine scratch (by rw [hstep]; rfl)
    | close reason => exact closes machine scratch (by rw [hstep]; rfl)

end

/-! ### Draining the events -/

theorem logged_drainEvents (connection : Connection) :
    Connection.Logged connection (drainEvents connection).2 := by
  induction hn : pendingEvents connection using Nat.strong_induction_on generalizing connection with
  | _ n ih =>
    have hlogged := Machine.logged_nextEvent connection
    rw [drainEvents]
    split
    next connection' hnext =>
      rw [hnext] at hlogged
      exact hlogged
    next event connection' hnext =>
      rw [hnext] at hlogged
      exact hlogged.trans (ih _ (hn ▸ pendingEvents_lt hnext) connection' rfl)

/-! ### Whether anything is left waiting -/

/-- The first PDU only continues a call, and another whole PDU is behind it. -/
def Stalls (connection : Connection) : Prop :=
  ∃ header body rest, Frame.next connection.inbound.items = some (.pdu header body, rest) ∧
    connection.Continues header body ∧
    { connection with inbound := connection.inbound.drop header.fragLength.toNat }.hasCompletePdu = true

section
variable {env : Env ε σ} {now : Instant} {machine : Machine ε σ} {scratch : List UInt8}

theorem hasCompletePdu_congr {a b : Connection} (h : a.inbound = b.inbound) :
    a.hasCompletePdu = b.hasCompletePdu := by
  unfold Connection.hasCompletePdu Connection.pduLen
  rw [h]

/-- A step that waits leaves a whole PDU behind exactly when it stalls. -/
theorem waits_stalls_iff (hsound : machine.connection.Sound)
    (hwaits : (machine.stepped env now scratch).step = .needMore) :
    (machine.stepped env now scratch).connection.hasCompletePdu = true ↔ Stalls machine.connection := by
  unfold Machine.stepped at hwaits ⊢
  cases hframe : Frame.next machine.connection.inbound.items with
  | none =>
    rw [Connection.step_of_none env now machine.entropy machine.host scratch hframe]
    have hnone := Connection.hasCompletePdu_of_none hframe
    constructor
    · intro hcomplete
      exact absurd (hnone.symm.trans hcomplete) (by simp)
    · rintro ⟨header, body, rest, hsome, -⟩
      rw [hframe] at hsome
      cases hsome
  | some found =>
    obtain ⟨frame, rest⟩ := found
    cases frame with
    | malformed reason =>
      rw [Connection.step_of_malformed env now machine.entropy machine.host scratch hframe] at hwaits
      cases hwaits
    | pdu header body =>
      rw [Connection.step_of_pdu env now machine.entropy machine.host scratch hframe] at hwaits ⊢
      have hcontinues := (Connection.dispatch_waits_iff env machine.entropy machine.host scratch header body
        (hsound.consumed now header).settled).mp hwaits
      have hinbound : ((machine.connection.consumed now header).dispatch env header body machine.entropy
          machine.host scratch).connection.inbound = machine.connection.inbound.drop header.fragLength.toNat := by
        rcases Connection.inbound_dispatch env (machine.connection.consumed now header) machine.entropy machine.host
          scratch header body with h | ⟨-, hcloses⟩
        · exact h
        · rw [hwaits] at hcloses
          cases hcloses
      have hsame : ((machine.connection.consumed now header).dispatch env header body machine.entropy machine.host
          scratch).connection.hasCompletePdu = { machine.connection with
            inbound := machine.connection.inbound.drop header.fragLength.toNat }.hasCompletePdu :=
        hasCompletePdu_congr hinbound
      rw [hsame]
      constructor
      · intro hcomplete
        exact ⟨header, body, rest, hframe, hcontinues, hcomplete⟩
      · rintro ⟨header', body', rest', hframe', -, hcomplete⟩
        rw [hframe] at hframe'
        cases hframe'
        exact hcomplete

theorem sound_after (hsound : machine.connection.Sound) :
    (Machine.after (machine.stepped env now scratch)).connection.Sound :=
  Connection.sound_step env machine.entropy machine.host scratch hsound now

/-- A step that stalls waits. -/
theorem needMore_of_stalls (hsound : machine.connection.Sound) (h : Stalls machine.connection) :
    (machine.stepped env now scratch).step = .needMore := by
  obtain ⟨header, body, rest, hframe, hcontinues, -⟩ := h
  unfold Machine.stepped
  rw [Connection.step_of_pdu env now machine.entropy machine.host scratch hframe]
  exact (Connection.dispatch_waits_iff env machine.entropy machine.host scratch header body
    (hsound.consumed now header).settled).mpr hcontinues

/-- The loop leaves a whole PDU waiting exactly when it comes to a step that
stalls. -/
theorem answerAll_waits_iff (env : Env ε σ) (now : Instant) (machine : Machine ε σ) (scratch : List UInt8)
    (hsound : machine.connection.Sound) :
    ((answerAll env now machine scratch).2.close = false →
        (answerAll env now machine scratch).1.connection.hasCompletePdu = false) ↔
      ∀ visited out, Visits env now machine scratch visited out → ¬ Stalls visited.connection := by
  induction machine, scratch using answerAll_induction env now with
  | waits machine scratch hwaits =>
    rw [answerAll_of_needMore hwaits]
    have hiff := waits_stalls_iff hsound hwaits
    constructor
    · intro hquiet visited out hvisits hstalls
      cases hvisits with
      | here => exact Bool.eq_false_iff.mp (hquiet rfl) (hiff.mpr hstalls)
      | later hsend _ =>
        rw [hwaits] at hsend
        cases hsend
    · intro hnever _
      exact Bool.eq_false_iff.mpr fun hcomplete => hnever machine scratch (.here machine scratch) (hiff.mp hcomplete)
  | closes machine scratch hcloses =>
    constructor
    · intro _ visited out hvisits hstalls
      cases hvisits with
      | here =>
        rw [needMore_of_stalls hsound hstalls] at hcloses
        cases hcloses
      | later hsend _ =>
        rw [hsend] at hcloses
        cases hcloses
    · intro _ hopen
      rw [(answerAll_of_closes hcloses).2] at hopen
      cases hopen
  | sends machine scratch len hsend ih =>
    rw [answerAll_of_send hsend]
    refine (ih (sound_after hsound)).trans ?_
    constructor
    · intro hnever visited out hvisits hstalls
      cases hvisits with
      | here =>
        rw [needMore_of_stalls hsound hstalls] at hsend
        cases hsend
      | later _ hrest => exact hnever visited out hrest hstalls
    · intro hnever visited out hvisits
      exact hnever visited out (.later hsend hvisits)

end

/-! ### Runs of reads -/

/-- A fresh connection on the server. -/
def accept (assocGroup : UInt32) (advertisesNdr64 : Bool) (acceptingPort : UInt16) (entropy : ε) (host : σ) :
    Machine ε σ :=
  ⟨connection assocGroup advertisesNdr64 acceptingPort, entropy, host⟩

def next (machine : Machine ε σ) (read : Read ε σ) : Machine ε σ := (handle machine read).machine

/-- A handled read comes to step from this machine. -/
def Steps (machine : Machine ε σ) (read : Read ε σ) (visited : Machine ε σ) (out : List UInt8) : Prop :=
  ∃ connection, machine.connection.receive read.input = some connection ∧
    Visits read.env read.now { machine with connection } (List.replicate maxResponseLen 0) visited out

theorem sound_connection (assocGroup : UInt32) (advertisesNdr64 : Bool) (acceptingPort : UInt16) :
    (connection assocGroup advertisesNdr64 acceptingPort).Sound :=
  (Connection.sound_new assocGroup advertisesNdr64).of_eq rfl rfl
    (Connection.sound_new assocGroup advertisesNdr64).reassembling

theorem sound_of_receive {connection connection' : Connection} {bytes : List UInt8} (h : connection.Sound)
    (hreceive : connection.receive bytes = some connection') : connection'.Sound := by
  have hsound := Machine.sound_receive h bytes
  rw [hreceive] at hsound
  exact hsound

theorem sound_answerAll (env : Env ε σ) (now : Instant) (machine : Machine ε σ) (scratch : List UInt8)
    (h : machine.connection.Sound) : (answerAll env now machine scratch).1.connection.Sound := by
  induction machine, scratch using answerAll_induction env now with
  | waits machine scratch hwaits =>
    rw [answerAll_of_needMore hwaits]
    exact sound_after h
  | closes machine scratch hcloses =>
    rw [(answerAll_of_closes hcloses).1]
    exact sound_after h
  | sends machine scratch len hsend ih =>
    rw [answerAll_of_send hsend]
    exact ih (sound_after h)

theorem sound_handle {machine : Machine ε σ} (h : machine.connection.Sound) (read : Read ε σ) :
    (next machine read).connection.Sound := by
  unfold next handle
  split
  · exact h
  next connection hreceive =>
    exact (sound_answerAll read.env read.now { machine with connection } _ (sound_of_receive h hreceive)).logged
      (logged_drainEvents _)

theorem handle_waits_iff {machine : Machine ε σ} (h : machine.connection.Sound) (read : Read ε σ) :
    ((handle machine read).handled.close = false →
        (handle machine read).machine.connection.hasCompletePdu = false) ↔
      ∀ visited out, Steps machine read visited out → ¬ Stalls visited.connection := by
  unfold handle Steps
  cases hreceive : machine.connection.receive read.input with
  | none => simp
  | some connection =>
    dsimp only
    have hloop := answerAll_waits_iff read.env read.now { machine with connection }
      (List.replicate maxResponseLen 0) (sound_of_receive h hreceive)
    rw [hasCompletePdu_congr (logged_drainEvents _).inbound, hloop]
    simp

/-- In every run of reads on a connection of the server, nothing received whole is
left waiting by a read that keeps the connection, exactly when no step of the
run takes a fragment that continues a call with another whole PDU behind it. -/
theorem nothing_waits_iff (assocGroup : UInt32) (advertisesNdr64 : Bool) (acceptingPort : UInt16) (entropy : ε)
    (host : σ) (reads : List (Read ε σ)) :
    (∀ turn ∈ path next (accept assocGroup advertisesNdr64 acceptingPort entropy host) reads,
        (handle turn.1 turn.2).handled.close = false →
          (handle turn.1 turn.2).machine.connection.hasCompletePdu = false) ↔
      ∀ turn ∈ path next (accept assocGroup advertisesNdr64 acceptingPort entropy host) reads,
        ∀ visited out, Steps turn.1 turn.2 visited out → ¬ Stalls visited.connection := by
  have hsound : ∀ turn ∈ path next (accept assocGroup advertisesNdr64 acceptingPort entropy host) reads,
      turn.1.connection.Sound :=
    Runs.invariant_path (fun machine : Machine ε σ => machine.connection.Sound)
      (sound_connection assocGroup advertisesNdr64 acceptingPort) (fun _ read h => sound_handle h read) reads
  exact forall₂_congr fun turn hturn => handle_waits_iff (hsound turn hturn) turn.2

/-- A bind, and then in one read a fragment that continues a call and a whole
request behind it. -/
def fragmentThenRequest : List (Read Unit Unit) :=
  [⟨Machine.framed .bind .complete 1 (Bind.proposal [0] Wire.ndr32), 0, Connection.denying⟩,
    ⟨Machine.framed .request .firstFrag 2 (Machine.blankCall 0) ++
      Machine.framed .request .complete 3 (Machine.blankCall 0), 0, Connection.denying⟩]

/-- The second read is answered with nothing and leaves the request unread. -/
theorem request_waits_behind_fragment :
    (path next (accept 0 false 1688 () ()) fragmentThenRequest).map
        (fun turn => (handle turn.1 turn.2).handled.close) = [false, false] ∧
      (path next (accept 0 false 1688 () ()) fragmentThenRequest).map
        (fun turn => (handle turn.1 turn.2).machine.connection.hasCompletePdu) = [false, true] := by
  constructor <;> decide +kernel

end Kmsrs.Server
