import Kmsrs.Server.Room
import Kmsrs.Server.Serve
import Kmsrs.Wire.Segmentation

/-! One PDU, read in pieces. Until the last of them the connection waits and has nothing
to say; with the last, it answers the PDU, and holds nothing afterwards. -/

namespace Kmsrs.Server

open Kmsrs.Bytes Kmsrs.Kms Kmsrs.Wire

/-- Before its last byte, there is no frame. -/
theorem next_of_front {front more : List UInt8} {frame : Frame} (hmore : more ≠ [])
    (h : Frame.next (front ++ more) = some (frame, [])) : Frame.next front = none := by
  cases hfront : Frame.next front with
  | none => rfl
  | some found =>
    have hwhole := Frame.next_append hfront more
    rw [h] at hwhole
    have hnil : [] = found.2 ++ more := (Prod.mk.inj (Option.some.inj hwhole)).2
    exact absurd (List.append_eq_nil_iff.mp hnil.symm).2 hmore

/-- A body behind a header that declares its length is one frame. -/
theorem next_of_framed {header : RpcHeader} {body : List UInt8} (hframed : header.fragLength.toNat = headerLen + body.length)
    (hfits : headerLen + body.length ≤ maxPduLen) :
    Frame.next (RpcHeader.layout.encode header ++ body) = some (.pdu header body, []) := by
  have hencode : (RpcHeader.layout.encode header).length = headerLen := by simp
  have hlen : (RpcHeader.layout.encode header ++ body).length = headerLen + body.length := by
    rw [List.length_append, hencode]
  rw [Frame.next, Layout.readFromPrefix_append]
  simp only [hframed]
  rw [if_neg (by omega), if_neg (by omega), if_neg (by omega), List.take_of_length_le hlen.le, List.drop_left' hencode,
    List.drop_of_length_le hlen.le]

variable {ε σ : Type}

/-- Handle the reads of a connection one after the other, until one of them closes it. -/
def serve (machine : Machine ε σ) : List (Read ε σ) → Machine ε σ × Handled
  | [] => (machine, ⟨[], false⟩)
  | read :: reads =>
    let turn := handle machine read
    if turn.handled.close then (turn.machine, turn.handled)
    else
      let (machine, handled) := serve turn.machine reads
      (machine, { handled with response := turn.handled.response ++ handled.response })

/-- The same connection up to what it holds, its deadline and its log. -/
def Waited (a b : Connection) : Prop := ∃ inbound deadline, Connection.Logged (a.placed inbound deadline) b

namespace Waited

variable {a b c : Connection}

theorem refl (a : Connection) : Waited a a := ⟨a.inbound, a.deadline, .refl a⟩

theorem trans (h : Waited a b) (h' : Waited b c) : Waited a c := by
  obtain ⟨_, _, _, _, rfl⟩ := h
  obtain ⟨inbound, deadline, events, lost, rfl⟩ := h'
  exact ⟨inbound, deadline, events, lost, rfl⟩

theorem phase (h : Waited a b) : b.phase = a.phase := by
  obtain ⟨_, _, _, _, rfl⟩ := h
  rfl

theorem ciphers (h : Waited a b) : b.ciphers = a.ciphers := by
  obtain ⟨_, _, _, _, rfl⟩ := h
  rfl

theorem ndr64Enabled (h : Waited a b) : b.ndr64Enabled = a.ndr64Enabled := by
  obtain ⟨_, _, _, _, rfl⟩ := h
  rfl

end Waited

section
variable {machine : Machine ε σ} {read : Read ε σ}

/-- What is held once a read is received. -/
theorem receive_of_fits (h : machine.connection.inbound.length + read.input.length ≤ maxPduLen) :
    ∃ inbound, machine.connection.receive read.input = some { machine.connection with inbound } ∧
      inbound.items = machine.connection.inbound.items ++ read.input := by
  have htaken := ArrayVec.tryExtendFromSlice_eq_some h
  refine ⟨_, ?_, ArrayVec.items_of_tryExtendFromSlice htaken⟩
  rw [Connection.receive, htaken]
  rfl

/-- A read that leaves a PDU unfinished is waited on. -/
theorem handle_of_front (hfits : machine.connection.inbound.length + read.input.length ≤ maxPduLen)
    (hnone : Frame.next (machine.connection.inbound.items ++ read.input) = none) :
    (handle machine read).handled = ⟨[], false⟩ ∧
      Waited machine.connection (handle machine read).machine.connection ∧
      (handle machine read).machine.connection.inbound.items = machine.connection.inbound.items ++ read.input ∧
      (handle machine read).machine.entropy = machine.entropy ∧ (handle machine read).machine.host = machine.host := by
  obtain ⟨inbound, hreceive, hheld⟩ := receive_of_fits hfits
  have hstep : ({ machine with connection := { machine.connection with inbound } } : Machine ε σ).stepped read.env read.now
      (List.replicate maxResponseLen 0) =
        (⟨.needMore, { machine.connection with inbound }.touched read.now, List.replicate maxResponseLen 0⟩ : Reply).unasked
          machine.entropy machine.host :=
    Connection.step_of_none read.env read.now machine.entropy machine.host _ (hheld ▸ hnone)
  have hanswer := @answerAll_of_needMore ε σ read.env read.now { machine with connection := { machine.connection with inbound } }
    (List.replicate maxResponseLen 0) (by rw [hstep]; rfl)
  have hdrained := logged_drainEvents ({ machine.connection with inbound }.touched read.now)
  have hturn : handle machine read =
      ⟨⟨(drainEvents ({ machine.connection with inbound }.touched read.now)).2, machine.entropy, machine.host⟩, ⟨[], false⟩,
        (drainEvents ({ machine.connection with inbound }.touched read.now)).1⟩ := by
    rw [handle, hreceive]
    dsimp only
    rw [hanswer, hstep]
    rfl
  rw [hturn]
  exact ⟨rfl, ⟨inbound, _, hdrained⟩, by rw [hdrained.inbound]; exact hheld, rfl, rfl⟩

/-- A read that completes a PDU is answered by the step that takes it. -/
theorem handle_of_last (hfits : machine.connection.inbound.length + read.input.length ≤ maxPduLen) {header : RpcHeader}
    {body : List UInt8}
    (hframe : Frame.next (machine.connection.inbound.items ++ read.input) = some (.pdu header body, [])) :
    ∃ received : Connection, Waited machine.connection received ∧
      received.inbound.items = machine.connection.inbound.items ++ read.input ∧
      ∀ sent, Sends (List.replicate maxResponseLen 0) sent
          (received.step read.env read.now machine.entropy machine.host (List.replicate maxResponseLen 0)).toReply →
        (handle machine read).handled = ⟨sent, false⟩ ∧
          Waited (received.step read.env read.now machine.entropy machine.host (List.replicate maxResponseLen 0)).connection
            (handle machine read).machine.connection ∧
          (handle machine read).machine.connection.inbound.items = [] ∧
          (handle machine read).machine.entropy =
            (received.step read.env read.now machine.entropy machine.host (List.replicate maxResponseLen 0)).entropy ∧
          (handle machine read).machine.host =
            (received.step read.env read.now machine.entropy machine.host (List.replicate maxResponseLen 0)).host := by
  obtain ⟨inbound, hreceive, hheld⟩ := receive_of_fits hfits
  refine ⟨{ machine.connection with inbound }, ⟨inbound, machine.connection.deadline, .refl _⟩, hheld, ?_⟩
  rintro sent ⟨hsend, hout⟩
  obtain ⟨outcome, houtcome⟩ : ∃ outcome, outcome =
      { machine.connection with inbound }.step read.env read.now machine.entropy machine.host
        (List.replicate maxResponseLen 0) := ⟨_, rfl⟩
  rw [← houtcome] at hsend hout ⊢
  have hstepped : ({ machine with connection := { machine.connection with inbound } } : Machine ε σ).stepped read.env
      read.now (List.replicate maxResponseLen 0) = outcome := houtcome.symm
  have hempty : outcome.connection.inbound.items = [] := by
    rcases Connection.inbound_step read.env { machine.connection with inbound } machine.entropy machine.host
      (List.replicate maxResponseLen 0) read.now with ⟨-, hwaits, -⟩ | ⟨header', body', rest, hnext, hdrop⟩ | ⟨-, hcloses⟩
    · rw [← houtcome, hsend] at hwaits
      cases hwaits
    · rw [← houtcome] at hdrop
      rw [show ({ machine.connection with inbound } : Connection).inbound.items = _ from hheld, hframe] at hnext
      obtain ⟨hpdu, hrest⟩ := Prod.mk.inj (Option.some.inj hnext)
      obtain ⟨rfl, rfl⟩ := Frame.pdu.inj hpdu
      have hnext' := Frame.next_eq_pdu (hheld ▸ hframe : Frame.next inbound.items = some (.pdu header body, []))
      rw [hdrop, ArrayVec.items_drop]
      exact hnext'.2.2.2.2.2.symm
    · rw [← houtcome, hsend] at hcloses
      cases hcloses
  have hquiet : ((Machine.after outcome).stepped read.env read.now outcome.out) =
      (⟨.needMore, outcome.connection.touched read.now, outcome.out⟩ : Reply).unasked outcome.entropy outcome.host := by
    refine Connection.step_of_none read.env read.now outcome.entropy outcome.host _ ?_
    show Frame.next outcome.connection.inbound.items = none
    rw [hempty]
    rfl
  have hanswer := @answerAll_of_send ε σ read.env read.now { machine with connection := { machine.connection with inbound } }
    (List.replicate maxResponseLen 0) sent.length (by rw [hstepped]; exact hsend)
  have hwaits := @answerAll_of_needMore ε σ read.env read.now (.after outcome) outcome.out (by rw [hquiet]; rfl)
  rw [hstepped, hwaits, hquiet] at hanswer
  have hdrained := logged_drainEvents (outcome.connection.touched read.now)
  have hrange : (range outcome.out 0 sent.length).getD [] = sent := by
    rw [hout, range_prefix _ _ rfl, Option.getD_some]
  have hturn : handle machine read =
      ⟨⟨(drainEvents (outcome.connection.touched read.now)).2, outcome.entropy, outcome.host⟩, ⟨sent, false⟩,
        (drainEvents (outcome.connection.touched read.now)).1⟩ := by
    rw [handle, hreceive]
    dsimp only
    rw [hanswer, hrange]
    dsimp only
    rw [List.append_nil]
    rfl
  rw [hturn]
  exact ⟨rfl, ⟨outcome.connection.inbound, _, hdrained⟩, by rw [hdrained.inbound]; exact hempty, rfl, rfl⟩

end

/-- A PDU read in pieces is answered as one, by the step that its last piece makes. -/
theorem serve_pdu {bytes body : List UInt8} {header : RpcHeader} (hframe : Frame.next bytes = some (.pdu header body, []))
    (hsmall : bytes.length ≤ maxPduLen) {reads : List (Read ε σ)} (hpieces : ∀ read ∈ reads, read.input ≠ [])
    (machine : Machine ε σ) (hbytes : machine.connection.inbound.items ++ (reads.map Read.input).flatten = bytes)
    (hmore : reads ≠ []) :
    ∃ last ∈ reads.getLast?, ∃ received : Connection, Waited machine.connection received ∧ received.inbound.items = bytes ∧
      ∀ sent, Sends (List.replicate maxResponseLen 0) sent
          (received.step last.env last.now machine.entropy machine.host (List.replicate maxResponseLen 0)).toReply →
        (serve machine reads).2 = ⟨sent, false⟩ ∧
          Waited (received.step last.env last.now machine.entropy machine.host (List.replicate maxResponseLen 0)).connection
            (serve machine reads).1.connection ∧
          (serve machine reads).1.connection.inbound.items = [] ∧
          (serve machine reads).1.entropy =
            (received.step last.env last.now machine.entropy machine.host (List.replicate maxResponseLen 0)).entropy ∧
          (serve machine reads).1.host =
            (received.step last.env last.now machine.entropy machine.host (List.replicate maxResponseLen 0)).host := by
  induction reads generalizing machine with
  | nil => exact absurd rfl hmore
  | cons read reads ih =>
    rw [List.map_cons, List.flatten_cons] at hbytes
    have hfits : machine.connection.inbound.length + read.input.length ≤ maxPduLen := by
      rw [← hbytes] at hsmall
      simp only [List.length_append] at hsmall
      simp only [ArrayVec.length]
      omega
    cases reads with
    | nil =>
      rw [List.map_nil, List.flatten_nil, List.append_nil] at hbytes
      rw [← hbytes] at hframe ⊢
      obtain ⟨received, hwaited, hheld, hserves⟩ := handle_of_last hfits hframe
      refine ⟨read, rfl, received, hwaited, hheld, fun sent hsends => ?_⟩
      obtain ⟨hhandled, hrest⟩ := hserves sent hsends
      simp only [serve, hhandled, Bool.false_eq_true, if_false, List.append_nil]
      exact ⟨trivial, hrest⟩
    | cons read' reads =>
      have hlater : ((read' :: reads).map Read.input).flatten ≠ [] := by
        simp [hpieces read' (by simp)]
      rw [← List.append_assoc] at hbytes
      obtain ⟨hhandled, hwaited, hheld, hentropy, hhost⟩ :=
        handle_of_front hfits (next_of_front hlater (hbytes ▸ hframe))
      obtain ⟨last, hlast, received, hwaited', hreceived, hserves⟩ :=
        ih (fun later hlater => hpieces later (List.mem_cons_of_mem _ hlater)) (handle machine read).machine
          (by rw [hheld]; exact hbytes) (by simp)
      rw [hentropy, hhost] at hserves
      refine ⟨last, by simpa using hlast, received, hwaited.trans hwaited', hreceived, fun sent hsends => ?_⟩
      obtain ⟨hserved, hrest⟩ := hserves sent hsends
      rw [serve, hhandled]
      simp only [Bool.false_eq_true, if_false, hserved, List.nil_append]
      exact ⟨trivial, hrest⟩

end Kmsrs.Server
