import Kmsrs.Wire.Machine

/-! Calls sent in fragments. The connection has one reassembly buffer, emptied by
a first fragment and extended by every later one; a call put together in it is
answered as if it had been sent whole. Nothing compares call IDs, so a stub is
made of one call's fragments exactly as long as its continuations belong to it. -/

namespace Kmsrs.Wire

open Kmsrs.Layout Kmsrs.Bytes Kmsrs.Kms Kmsrs.Wire.Bind Kmsrs.Wire.Connection

/-- A request PDU. -/
structure Fragment where
  header : RpcHeader
  body : List UInt8
deriving DecidableEq

namespace Fragment

def isFirst (fragment : Fragment) : Bool := fragment.header.flags.contains .firstFrag

def isLast (fragment : Fragment) : Bool := fragment.header.flags.contains .lastFrag

def callId (fragment : Fragment) : UInt32 := fragment.header.callId

def bytes (fragment : Fragment) : List UInt8 := RpcHeader.layout.encode fragment.header ++ fragment.body

/-- What fragments carry together. -/
def stub (fragments : List Fragment) : List UInt8 := (fragments.map body).flatten

@[simp] theorem stub_nil : stub [] = [] := rfl

@[simp] theorem stub_cons (fragment : Fragment) (rest : List Fragment) :
    stub (fragment :: rest) = fragment.body ++ stub rest := rfl

@[simp] theorem stub_append (fragments rest : List Fragment) :
    stub (fragments ++ rest) = stub fragments ++ stub rest := by simp [stub]

/-- The context ID, at its place in every syntax. -/
def contextId (stub : List UInt8) : UInt16 := (u16.readAt stub 4).getD 0

/-- A request whose header declares its own length, within what is buffered. -/
structure Framed (fragment : Fragment) : Prop where
  requests : Requests fragment.header
  length : fragment.header.fragLength.toNat = headerLen + fragment.body.length
  fits : headerLen + fragment.body.length ≤ maxPduLen

theorem length_bytes (fragment : Fragment) : fragment.bytes.length = headerLen + fragment.body.length := by
  rw [bytes, List.length_append, RpcHeader.layout.length_encode, RpcHeader.size_layout]

theorem Framed.next {fragment : Fragment} (h : fragment.Framed) :
    Frame.next fragment.bytes = some (.pdu fragment.header fragment.body, []) := by
  have hlen := fragment.length_bytes
  have hdeclared := h.length
  have hfits := h.fits
  have hbody : fragment.bytes.drop headerLen = fragment.body :=
    List.drop_left' (by rw [RpcHeader.layout.length_encode, RpcHeader.size_layout])
  have hread : RpcHeader.layout.readFromPrefix fragment.bytes = some (fragment.header, fragment.body) :=
    readFromPrefix_append RpcHeader.layout fragment.header fragment.body
  unfold Frame.next
  rw [hread]
  simp only
  rw [if_neg (by omega), if_neg (by omega), if_neg (by omega), List.take_of_length_le (by omega), hbody,
    List.drop_of_length_le (by omega)]

end Fragment

/-! ### One fragment -/

namespace Connection

variable {ε σ : Type} {connection : Connection} {header : RpcHeader} {body : List UInt8} {contextId : UInt16}
  {transfer : TransferSyntax}

theorem Serves.unique {contextId' : UInt16} {transfer' : TransferSyntax}
    (h : connection.Serves header body contextId transfer)
    (h' : connection.Serves header body contextId' transfer') : contextId = contextId' ∧ transfer = transfer' := by
  obtain ⟨association, hphase, hcontext, hservice⟩ := h
  obtain ⟨association', hphase', hcontext', hservice'⟩ := h'
  rw [hphase] at hphase'
  cases hphase'
  rw [hcontext] at hcontext'
  cases hcontext'
  rw [hservice] at hservice'
  cases hservice'
  exact ⟨rfl, rfl⟩

section
variable (env : Env ε σ) (entropy : ε) (host : σ) (out : List UInt8)

/-- A served fragment overflows the reassembly. -/
theorem handleRequest_overflows (hserves : connection.Serves header body contextId transfer)
    (hlong : maxStubLen < (connection.assembled header body).length) :
    connection.handleRequest env header body entropy host out =
      (connection.overflowed out header.callId contextId).unasked entropy host := by
  rcases handleRequest_cases connection out env entropy host header body with
    ⟨-, -, hnot, -⟩ | ⟨contextId', transfer', hserves', ⟨-, h⟩ | ⟨reassembly, hitems, -, -⟩ | ⟨hfits, -, -⟩⟩
  · exact absurd hserves (hnot contextId transfer)
  · obtain ⟨rfl, -⟩ := hserves.unique hserves'
    exact h
  · have hcap := reassembly.le_cap
    rw [hitems] at hcap
    omega
  · omega

/-- A served fragment extends the reassembly. -/
theorem handleRequest_waits (hserves : connection.Serves header body contextId transfer)
    (hfits : (connection.assembled header body).length ≤ maxStubLen)
    (hopen : header.flags.contains .lastFrag = false) :
    connection.handleRequest env header body entropy host out =
      (⟨.needMore, { connection.startReassembly header contextId with
          reassembly := ⟨connection.assembled header body, hfits⟩ }, out⟩ : Reply).unasked entropy host := by
  rcases handleRequest_cases connection out env entropy host header body with
    ⟨-, -, hnot, -⟩ | ⟨contextId', transfer', hserves', ⟨hlong, -⟩ | ⟨reassembly, hitems, -, h⟩ | ⟨-, hlast, -⟩⟩
  · exact absurd hserves (hnot contextId transfer)
  · omega
  · obtain ⟨rfl, -⟩ := hserves.unique hserves'
    rw [h, show reassembly = ⟨connection.assembled header body, hfits⟩ from ArrayVec.ext hitems]
  · rw [hopen] at hlast
    cases hlast

/-- A served fragment completes the call. -/
theorem handleRequest_completes (hserves : connection.Serves header body contextId transfer)
    (hfits : (connection.assembled header body).length ≤ maxStubLen)
    (hlast : header.flags.contains .lastFrag = true) :
    connection.handleRequest env header body entropy host out =
      connection.stopReassembly.handleStub env header.callId contextId transfer
        (connection.assembled header body) entropy host out := by
  rcases handleRequest_cases connection out env entropy host header body with
    ⟨-, -, hnot, -⟩ | ⟨contextId', transfer', hserves', ⟨hlong, -⟩ | ⟨reassembly, -, hopen, -⟩ | ⟨-, -, h⟩⟩
  · exact absurd hserves (hnot contextId transfer)
  · omega
  · rw [hlast] at hopen
    cases hopen
  · obtain ⟨rfl, rfl⟩ := hserves.unique hserves'
    exact h

theorem dispatch_of_requests (h : Requests header) :
    connection.dispatch env header body entropy host out =
      connection.handleRequest env header body entropy host out := by
  unfold dispatch
  rw [if_neg (by simp [h.1]), if_neg (by simp [h.2.1]), h.2.2]

end

end Connection

/-! ### A call in fragments -/

/-- A fragment, and what is given to the step that takes it. -/
structure Arrival (ε σ : Type) where
  fragment : Fragment
  env : Env ε σ
  now : Instant
  out : List UInt8

namespace Machine

variable {ε σ : Type} {machine : Machine ε σ} {contextId : UInt16} {transfer : TransferSyntax}

/-- The fragment is received, and a step taken. -/
def arrive (machine : Machine ε σ) (arrival : Arrival ε σ) : Outcome ε σ :=
  (machine.next (.receive arrival.fragment.bytes)).stepped arrival.env arrival.now arrival.out

def arriveAll (machine : Machine ε σ) (arrivals : List (Arrival ε σ)) : Machine ε σ :=
  arrivals.foldl (fun machine arrival => after (machine.arrive arrival)) machine

@[simp] theorem arriveAll_nil (machine : Machine ε σ) : machine.arriveAll [] = machine := rfl

@[simp] theorem arriveAll_cons (machine : Machine ε σ) (arrival : Arrival ε σ) (rest : List (Arrival ε σ)) :
    machine.arriveAll (arrival :: rest) = (after (machine.arrive arrival)).arriveAll rest := rfl

/-- Into an empty buffer a fragment is received whole, and handled. -/
theorem arrive_eq {arrival : Arrival ε σ} (hempty : machine.connection.inbound = .empty)
    (hframed : arrival.fragment.Framed) :
    machine.arrive arrival =
      (machine.connection.touched arrival.now).handleRequest arrival.env arrival.fragment.header
        arrival.fragment.body machine.entropy machine.host arrival.out := by
  have hlen := arrival.fragment.length_bytes
  have hfits : arrival.fragment.bytes.length ≤ maxPduLen := hlen.trans_le hframed.fits
  have hreceive : (machine.next (.receive arrival.fragment.bytes)).connection =
      { machine.connection with inbound := ⟨arrival.fragment.bytes, hfits⟩ } := by
    show (machine.connection.receive arrival.fragment.bytes).getD machine.connection = _
    unfold receive
    rw [hempty, ArrayVec.tryExtendFromSlice_empty hfits]
    rfl
  have hrest : (⟨arrival.fragment.bytes, hfits⟩ : ArrayVec UInt8 maxPduLen).drop
      arrival.fragment.header.fragLength.toNat = .empty := by
    apply ArrayVec.ext
    rw [ArrayVec.items_drop, ArrayVec.items_empty]
    exact List.drop_of_length_le (by rw [hlen, hframed.length])
  unfold arrive stepped
  rw [hreceive, step_of_pdu arrival.env arrival.now _ _ arrival.out hframed.next,
    dispatch_of_requests _ _ _ _ hframed.requests]
  show Connection.handleRequest arrival.env { machine.connection.touched arrival.now with
      inbound := (⟨arrival.fragment.bytes, hfits⟩ : ArrayVec UInt8 maxPduLen).drop
        arrival.fragment.header.fragLength.toNat } _ _ _ _ _ = _
  rw [hrest, ← hempty]
  rfl

end Machine

/-- Fragments that open one call: the first alone is marked so, and reaches past
the context ID. -/
def Fragment.Opens : List Fragment → Prop
  | [] => True
  | first :: rest => first.isFirst = true ∧ 6 ≤ first.body.length ∧ ∀ later ∈ rest, later.isFirst = false

theorem Fragment.Opens.of_append {before rest : List Fragment} (h : Opens (before ++ rest)) : Opens before := by
  cases before with
  | nil => trivial
  | cons first before => exact ⟨h.1, h.2.1, fun later hlater => h.2.2 later (List.mem_append_left rest hlater)⟩

/-- The first fragment alone decides the context. -/
theorem Fragment.Opens.contextId {before : List Fragment} (h : Opens before) (hne : before ≠ [])
    (rest : List Fragment) :
    Fragment.contextId (stub (before ++ rest)) = Fragment.contextId (stub before) := by
  cases before with
  | nil => exact absurd rfl hne
  | cons first before =>
    have hreaches : 4 + u16.size ≤ (stub (first :: before)).length := by
      have := h.2.1
      rw [stub_cons, List.length_append]
      simp only [size_u16]
      omega
    unfold Fragment.contextId
    rw [stub_append, readAt_append_left u16 hreaches]

namespace Connection

/-- The connection while the stub is being put together. -/
def gathering (connection : Connection) (contextId : UInt16) (stub : ArrayVec UInt8 maxStubLen)
    (deadline : Option Instant) : Connection :=
  { connection with reassembly := stub, reassemblingContext := some contextId, deadline }

variable {connection : Connection} {header : RpcHeader} {body : List UInt8} {contextId : UInt16}
  {transfer : TransferSyntax}

/-- The fragment that names the context and those that continue it lead to the
same state. -/
theorem Serves.gathering (h : connection.Serves header body contextId transfer) (now : Instant)
    (stub : ArrayVec UInt8 maxStubLen) :
    { (connection.touched now).startReassembly header contextId with reassembly := stub } =
      connection.gathering contextId stub (now.checkedAdd idleTimeout) := by
  obtain ⟨-, -, hcontext, -⟩ := h
  unfold fragmentContext at hcontext
  unfold startReassembly Connection.gathering
  split_ifs at hcontext ⊢
  · rfl
  · rw [← hcontext]
    rfl

end Connection

namespace Machine

variable {ε σ : Type} {machine : Machine ε σ} {contextId : UInt16} {transfer : TransferSyntax}

/-- The machine while the stub is being put together. -/
def gathering (machine : Machine ε σ) (contextId : UInt16) (stub : ArrayVec UInt8 maxStubLen)
    (deadline : Option Instant) : Machine ε σ :=
  { machine with connection := machine.connection.gathering contextId stub deadline }

theorem arrive_waits {arrival : Arrival ε σ} (hempty : machine.connection.inbound = .empty)
    (hframed : arrival.fragment.Framed)
    (hserves : machine.connection.Serves arrival.fragment.header arrival.fragment.body contextId transfer)
    (hfits : (machine.connection.assembled arrival.fragment.header arrival.fragment.body).length ≤ maxStubLen)
    (hopen : arrival.fragment.isLast = false) :
    machine.arrive arrival =
      (⟨.needMore, machine.connection.gathering contextId ⟨_, hfits⟩ (arrival.now.checkedAdd idleTimeout),
        arrival.out⟩ : Reply).unasked machine.entropy machine.host := by
  have htouched : (machine.connection.touched arrival.now).Serves arrival.fragment.header arrival.fragment.body
      contextId transfer := hserves
  rw [arrive_eq hempty hframed, handleRequest_waits arrival.env machine.entropy machine.host arrival.out htouched
    hfits hopen, ← hserves.gathering arrival.now]
  rfl

theorem service?_eq_some (h : machine.service? contextId = some transfer) :
    ∃ association, machine.connection.phase = .bound association ∧
      association.service contextId = .ok transfer := by
  unfold service? at h
  cases hphase : machine.connection.phase with
  | unbound _ | transitioning =>
    rw [hphase] at h
    cases h
  | bound association =>
    rw [hphase] at h
    cases hservice : association.service contextId with
    | error status =>
      simp only [hservice] at h
      cases h
    | ok found =>
      simp only [hservice] at h
      cases h
      exact ⟨association, rfl, hservice⟩

theorem serves_first {association : Association Bound} (hbound : machine.connection.phase = .bound association)
    {fragment : Fragment} (hfirst : fragment.isFirst = true)
    (hheld : association.service (Fragment.contextId fragment.body) = .ok transfer) :
    machine.connection.Serves fragment.header fragment.body (Fragment.contextId fragment.body) transfer := by
  refine ⟨association, hbound, ?_, hheld⟩
  exact if_pos hfirst

theorem assembled_first (connection : Connection) {fragment : Fragment} (hfirst : fragment.isFirst = true) :
    connection.assembled fragment.header fragment.body = fragment.body := by
  unfold Fragment.isFirst at hfirst
  rw [assembled, if_pos hfirst, List.nil_append]

theorem serves_later {association : Association Bound} (hbound : machine.connection.phase = .bound association)
    (stub : ArrayVec UInt8 maxStubLen) (deadline : Option Instant) {fragment : Fragment}
    (hlater : fragment.isFirst = false) (hheld : association.service contextId = .ok transfer) :
    (machine.gathering contextId stub deadline).connection.Serves fragment.header fragment.body contextId
      transfer := by
  refine ⟨association, hbound, ?_, hheld⟩
  unfold fragmentContext
  rw [if_neg (by simpa [Fragment.isFirst] using hlater)]
  rfl

theorem assembled_later (stub : ArrayVec UInt8 maxStubLen) (deadline : Option Instant) {fragment : Fragment}
    (hlater : fragment.isFirst = false) :
    (machine.gathering contextId stub deadline).connection.assembled fragment.header fragment.body =
      stub.items ++ fragment.body := by
  unfold assembled
  rw [if_neg (by simpa [Fragment.isFirst] using hlater)]
  rfl

/-- Continuations from a machine that is putting a call together. -/
theorem arriveAll_gathering {association : Association Bound} (hempty : machine.connection.inbound = .empty)
    (hbound : machine.connection.phase = .bound association) (hheld : association.service contextId = .ok transfer)
    (arrivals : List (Arrival ε σ)) (hframed : ∀ arrival ∈ arrivals, arrival.fragment.Framed)
    (hcontinue : ∀ arrival ∈ arrivals, arrival.fragment.isFirst = false ∧ arrival.fragment.isLast = false)
    (stub : ArrayVec UInt8 maxStubLen) (deadline : Option Instant)
    (hfits : (stub.items ++ Fragment.stub (arrivals.map Arrival.fragment)).length ≤ maxStubLen) :
    ∃ deadline', (machine.gathering contextId stub deadline).arriveAll arrivals =
      machine.gathering contextId ⟨_, hfits⟩ deadline' := by
  induction arrivals generalizing stub deadline with
  | nil => exact ⟨deadline, by simp [arriveAll]⟩
  | cons arrival arrivals ih =>
    obtain ⟨hfirst, hopen⟩ := hcontinue arrival (by simp)
    have hassembled : (machine.gathering contextId stub deadline).connection.assembled arrival.fragment.header
        arrival.fragment.body = stub.items ++ arrival.fragment.body := assembled_later stub deadline hfirst
    have hroom : (stub.items ++ arrival.fragment.body).length ≤ maxStubLen := by
      simp only [List.map_cons, Fragment.stub_cons, List.length_append] at hfits ⊢
      omega
    have hserves := serves_later hbound stub deadline hfirst hheld
    have hinbound : (machine.gathering contextId stub deadline).connection.inbound = .empty := hempty
    have hwaits := arrive_waits hinbound (hframed arrival (by simp)) hserves (by rwa [hassembled]) hopen
    have hnext : after ((machine.gathering contextId stub deadline).arrive arrival) =
        machine.gathering contextId ⟨_, hroom⟩ (arrival.now.checkedAdd idleTimeout) := by
      rw [hwaits]
      simp only [hassembled]
      rfl
    have hrest : (stub.items ++ arrival.fragment.body ++
        Fragment.stub (arrivals.map Arrival.fragment)).length ≤ maxStubLen := by
      rw [List.append_assoc]
      exact hfits
    obtain ⟨deadline', h⟩ := ih (fun later hlater => hframed later (by simp [hlater]))
      (fun later hlater => hcontinue later (by simp [hlater])) ⟨_, hroom⟩ (arrival.now.checkedAdd idleTimeout) hrest
    refine ⟨deadline', ?_⟩
    rw [arriveAll_cons, hnext, h]
    simp only [List.append_assoc]
    rfl

/-- The state in which the next fragment of a call arrives: the fragment is
served, and completes what those before it carried. -/
structure Ready (machine ready : Machine ε σ) (contextId : UInt16) (transfer : TransferSyntax)
    (fragment : Fragment) (stub : List UInt8) : Prop where
  reached : ready = machine ∨ ∃ held deadline, ready = machine.gathering contextId held deadline
  serves : ready.connection.Serves fragment.header fragment.body contextId transfer
  assembled : ready.connection.assembled fragment.header fragment.body = stub

theorem Ready.inbound {ready : Machine ε σ} {fragment : Fragment} {stub : List UInt8}
    (h : machine.Ready ready contextId transfer fragment stub) :
    ready.connection.inbound = machine.connection.inbound := by
  obtain rfl | ⟨held, deadline, rfl⟩ := h.reached <;> rfl

theorem Ready.entropy {ready : Machine ε σ} {fragment : Fragment} {stub : List UInt8}
    (h : machine.Ready ready contextId transfer fragment stub) : ready.entropy = machine.entropy := by
  obtain rfl | ⟨held, deadline, rfl⟩ := h.reached <;> rfl

theorem Ready.host {ready : Machine ε σ} {fragment : Fragment} {stub : List UInt8}
    (h : machine.Ready ready contextId transfer fragment stub) : ready.host = machine.host := by
  obtain rfl | ⟨held, deadline, rfl⟩ := h.reached <;> rfl

theorem Ready.events {ready : Machine ε σ} {fragment : Fragment} {stub : List UInt8}
    (h : machine.Ready ready contextId transfer fragment stub) :
    ready.connection.events = machine.connection.events ∧
      ready.connection.lostEvents = machine.connection.lostEvents := by
  obtain rfl | ⟨held, deadline, rfl⟩ := h.reached <;> exact ⟨rfl, rfl⟩

/-- Once the call is out of the buffer nothing of the fragments is left. -/
theorem Ready.stopped {ready : Machine ε σ} {fragment : Fragment} {stub : List UInt8}
    (h : machine.Ready ready contextId transfer fragment stub) (now : Instant) :
    (ready.connection.touched now).stopReassembly = (machine.connection.touched now).stopReassembly := by
  obtain rfl | ⟨held, deadline, rfl⟩ := h.reached <;> rfl

theorem ready_arriveAll {association : Association Bound} (hempty : machine.connection.inbound = .empty)
    (hbound : machine.connection.phase = .bound association) (before : List (Arrival ε σ)) (fragment : Fragment)
    (hframed : ∀ arrival ∈ before, arrival.fragment.Framed)
    (hopens : Fragment.Opens (before.map Arrival.fragment ++ [fragment]))
    (hopen : ∀ arrival ∈ before, arrival.fragment.isLast = false)
    (hfits : (Fragment.stub (before.map Arrival.fragment)).length ≤ maxStubLen)
    (hheld : association.service
      (Fragment.contextId (Fragment.stub (before.map Arrival.fragment ++ [fragment]))) = .ok transfer) :
    machine.Ready (machine.arriveAll before)
      (Fragment.contextId (Fragment.stub (before.map Arrival.fragment ++ [fragment]))) transfer fragment
      (Fragment.stub (before.map Arrival.fragment ++ [fragment])) := by
  cases before with
  | nil =>
    have hstub : Fragment.stub (List.map Arrival.fragment ([] : List (Arrival ε σ)) ++ [fragment]) =
        fragment.body := by simp
    rw [hstub] at hheld ⊢
    exact ⟨.inl rfl, serves_first hbound hopens.1 hheld, assembled_first _ hopens.1⟩
  | cons first rest =>
    obtain ⟨hfirst, hreaches, hlater⟩ := hopens
    have hcontext : Fragment.contextId (Fragment.stub ((first :: rest).map Arrival.fragment ++ [fragment])) =
        Fragment.contextId first.fragment.body := by
      unfold Fragment.contextId
      rw [List.map_cons, List.cons_append, Fragment.stub_cons, readAt_append_left u16 hreaches]
    rw [hcontext] at hheld ⊢
    have hbody : first.fragment.body.length ≤ maxStubLen := by
      simp only [List.map_cons, Fragment.stub_cons, List.length_append] at hfits
      omega
    have hassembled := assembled_first machine.connection hfirst
    have hwaits := arrive_waits hempty (hframed first (by simp)) (serves_first hbound hfirst hheld)
      (by rwa [hassembled]) (hopen first (by simp))
    have hnext : after (machine.arrive first) = machine.gathering (Fragment.contextId first.fragment.body)
        ⟨_, hbody⟩ (first.now.checkedAdd idleTimeout) := by
      rw [hwaits]
      simp only [hassembled]
      rfl
    obtain ⟨deadline, hrest⟩ := arriveAll_gathering hempty hbound hheld rest
      (fun arrival harrival => hframed arrival (by simp [harrival]))
      (fun arrival harrival => ⟨hlater _ (List.mem_append_left _ (List.mem_map_of_mem harrival)),
        hopen arrival (by simp [harrival])⟩) ⟨_, hbody⟩ (first.now.checkedAdd idleTimeout) hfits
    have hall : machine.arriveAll (first :: rest) = machine.gathering (Fragment.contextId first.fragment.body)
        ⟨_, hfits⟩ deadline := by
      rw [arriveAll_cons, hnext, hrest]
      rfl
    have hcontinues : fragment.isFirst = false := hlater fragment (by simp)
    rw [hall]
    refine ⟨.inr ⟨_, deadline, rfl⟩, serves_later hbound _ deadline hcontinues hheld, ?_⟩
    rw [assembled_later _ deadline hcontinues]
    simp

/-- The last fragment of a call: what is answered is the stub, on the connection
as it was before the first. -/
theorem Ready.arrive_completes {ready : Machine ε σ} {arrival : Arrival ε σ} {stub : List UInt8}
    (h : machine.Ready ready contextId transfer arrival.fragment stub)
    (hempty : machine.connection.inbound = .empty) (hframed : arrival.fragment.Framed)
    (hfits : stub.length ≤ maxStubLen) (hlast : arrival.fragment.isLast = true) :
    ready.arrive arrival =
      (machine.connection.touched arrival.now).stopReassembly.handleStub arrival.env arrival.fragment.callId
        contextId transfer stub machine.entropy machine.host arrival.out := by
  have hserves : (ready.connection.touched arrival.now).Serves arrival.fragment.header arrival.fragment.body
      contextId transfer := h.serves
  have hassembled : (ready.connection.touched arrival.now).assembled arrival.fragment.header
      arrival.fragment.body = stub := h.assembled
  rw [arrive_eq (h.inbound.trans hempty) hframed,
    handleRequest_completes arrival.env _ _ arrival.out hserves (by rwa [hassembled]) hlast, hassembled,
    h.stopped, h.entropy, h.host]
  rfl

theorem Ready.arrive_overflows {ready : Machine ε σ} {arrival : Arrival ε σ} {stub : List UInt8}
    (h : machine.Ready ready contextId transfer arrival.fragment stub)
    (hempty : machine.connection.inbound = .empty) (hframed : arrival.fragment.Framed)
    (hlong : maxStubLen < stub.length) :
    ready.arrive arrival =
      (((machine.connection.touched arrival.now).stopReassembly.record (.rejected .reassemblyOverflow)).fault
        arrival.out arrival.fragment.callId contextId .protocolError).unasked machine.entropy machine.host := by
  have hserves : (ready.connection.touched arrival.now).Serves arrival.fragment.header arrival.fragment.body
      contextId transfer := h.serves
  have hassembled : (ready.connection.touched arrival.now).assembled arrival.fragment.header
      arrival.fragment.body = stub := h.assembled
  rw [arrive_eq (h.inbound.trans hempty) hframed,
    handleRequest_overflows arrival.env _ _ arrival.out hserves (by rwa [hassembled]), overflowed, h.stopped,
    h.entropy, h.host]
  rfl

/-- A call sent in fragments to a connection that holds its context. Every
fragment but the last is taken without an answer; the last is answered exactly as
the whole stub in one PDU would have been; and a fragment that overflows the
reassembly faults and leaves nothing of the call behind. -/
theorem fragments_agree_with_whole (hempty : machine.connection.inbound = .empty)
    (before : List (Arrival ε σ)) (last : Arrival ε σ)
    (hframed : ∀ arrival ∈ before ++ [last], arrival.fragment.Framed)
    (hopens : Fragment.Opens (before.map Arrival.fragment ++ [last.fragment]))
    (hopen : ∀ arrival ∈ before, arrival.fragment.isLast = false)
    (hfits : (Fragment.stub (before.map Arrival.fragment)).length ≤ maxStubLen)
    (hheld : machine.service?
      (Fragment.contextId (Fragment.stub (before.map Arrival.fragment ++ [last.fragment]))) = some transfer) :
    (∀ earlier arrival later, before = earlier ++ arrival :: later →
        let outcome := (machine.arriveAll earlier).arrive arrival
        outcome.step = .needMore ∧ outcome.out = arrival.out ∧ outcome.asked = none ∧
          outcome.connection.events = machine.connection.events ∧
          outcome.connection.lostEvents = machine.connection.lostEvents ∧
          outcome.entropy = machine.entropy ∧ outcome.host = machine.host) ∧
      (last.fragment.isLast = true → ∀ whole : Fragment, whole.Framed → whole.isFirst = true →
        whole.isLast = true → whole.callId = last.fragment.callId →
        whole.body = Fragment.stub (before.map Arrival.fragment ++ [last.fragment]) →
        (machine.arriveAll before).arrive last = machine.arrive { last with fragment := whole }) ∧
      (maxStubLen < (Fragment.stub (before.map Arrival.fragment ++ [last.fragment])).length →
        let outcome := (machine.arriveAll before).arrive last
        outcome.connection.reassembly = .empty ∧ outcome.connection.reassemblingContext = none ∧
          outcome.asked = none ∧
          if Fault.faultLen ≤ last.out.length then
            outcome.step = .send Fault.faultLen ∧ outcome.out.take Fault.faultLen =
              Fault.bytes last.fragment.callId
                (Fragment.contextId (Fragment.stub (before.map Arrival.fragment ++ [last.fragment]))) .protocolError
          else outcome.step = .close .faulted) := by
  obtain ⟨association, hbound, hheld⟩ := service?_eq_some hheld
  have hready := ready_arriveAll hempty hbound before last.fragment
    (fun arrival harrival => hframed arrival (by simp [harrival])) hopens hopen hfits hheld
  have hlast : last.fragment.Framed := hframed last (by simp)
  refine ⟨?_, ?_, ?_⟩
  · rintro earlier arrival later rfl
    -- the fragments up to this one open the call as all of them do
    have hsplit : (earlier ++ arrival :: later).map Arrival.fragment ++ [last.fragment] =
        (earlier.map Arrival.fragment ++ [arrival.fragment]) ++ (later.map Arrival.fragment ++ [last.fragment]) := by
      simp
    have hprefix : Fragment.Opens (earlier.map Arrival.fragment ++ [arrival.fragment]) := by
      rw [hsplit] at hopens
      exact hopens.of_append
    rw [hsplit, hprefix.contextId (by simp)] at hheld
    have hroom : (Fragment.stub (earlier.map Arrival.fragment ++ [arrival.fragment])).length ≤ maxStubLen := by
      simp only [List.map_append, List.map_cons, Fragment.stub_append, Fragment.stub_cons, List.length_append,
        Fragment.stub_nil, List.length_nil] at hfits ⊢
      omega
    have hearlier : (Fragment.stub (earlier.map Arrival.fragment)).length ≤ maxStubLen := by
      rw [Fragment.stub_append, List.length_append] at hroom
      omega
    have hready := ready_arriveAll hempty hbound earlier arrival.fragment
      (fun a ha => hframed a (by simp [ha])) hprefix (fun a ha => hopen a (by simp [ha])) hearlier hheld
    have hwaits := arrive_waits (hready.inbound.trans hempty) (hframed arrival (by simp)) hready.serves
      (by rwa [hready.assembled]) (hopen arrival (by simp))
    simp only [hwaits]
    exact ⟨rfl, rfl, rfl, hready.events.1, hready.events.2, hready.entropy, hready.host⟩
  · intro hends whole hwhole hfirst hwholeEnds hcall hbody
    have hroom : whole.body.length ≤ maxStubLen := by
      have := hwhole.fits
      simp only [maxStubLen]
      omega
    have halone : machine.Ready machine
        (Fragment.contextId (Fragment.stub (before.map Arrival.fragment ++ [last.fragment]))) transfer whole
        (Fragment.stub (before.map Arrival.fragment ++ [last.fragment])) := by
      rw [← hbody] at hheld ⊢
      exact ⟨.inl rfl, serves_first hbound hfirst hheld, assembled_first _ hfirst⟩
    have hwholeArrives : machine.arrive { last with fragment := whole } = _ :=
      halone.arrive_completes hempty hwhole (by rwa [← hbody]) hwholeEnds
    rw [hready.arrive_completes hempty hlast (by rwa [← hbody]) hends, hwholeArrives]
    simp only [hcall]
  · intro hlong
    simp only [hready.arrive_overflows hempty hlast hlong]
    have hlogged := logged_fault ((machine.connection.touched last.now).stopReassembly.record
      (.rejected .reassemblyOverflow)) last.out last.fragment.callId
      (Fragment.contextId (Fragment.stub (before.map Arrival.fragment ++ [last.fragment]))) .protocolError
    refine ⟨hlogged.reassembly, hlogged.reassemblingContext, rfl, ?_⟩
    split_ifs with hout
    · rw [fault_eq, if_pos hout]
      exact ⟨rfl, List.take_left' (by simp)⟩
    · rw [fault_eq, if_neg hout]
      rfl

/-- A request fragment of its own length. -/
def fragmentOf (flags : PacketFlags) (callId : UInt32) (body : List UInt8) : Fragment where
  header := ⟨5, 0, PacketType.request.toWire, flags, dataRepresentation, UInt16.ofNat (headerLen + body.length), 0,
    callId⟩
  body

/-- Bound in NDR32 on context 0. -/
def boundOnce : Machine Unit Unit :=
  [Call.receive (framed .bind .complete 1 (proposal [0] Wire.ndr32)),
    .step denying 0 (List.replicate 384 0)].foldl next (start 0 false () ())

/-- The fragment, with a host that refuses. -/
def sent (fragment : Fragment) : Arrival Unit Unit := ⟨fragment, denying, 0, List.replicate 384 0⟩

theorem framed_fragmentOf (flags : PacketFlags) (callId : UInt32) {body : List UInt8}
    (h : headerLen + body.length ≤ maxPduLen) : (fragmentOf flags callId body).Framed where
  requests := ⟨by simp [fragmentOf, RpcHeader.versionIsSupported, rpcVersionMajor, rpcVersionMinor], rfl,
    PacketType.request.fromWire_toWire⟩
  length := by
    show (UInt16.ofNat (headerLen + body.length)).toNat = _
    rw [UInt16.toNat_ofNat', Nat.mod_eq_of_lt (by simp only [maxPduLen] at h; omega)]
    rfl
  fits := h

/-- A blank call in two fragments. -/
def splitCall (contextId : UInt16) : Fragment × Fragment :=
  (fragmentOf .firstFrag 2 ((blankCall contextId).take 100), fragmentOf .lastFrag 2 ((blankCall contextId).drop 100))

theorem length_blankCall (contextId : UInt16) : (blankCall contextId).length = 268 := by
  simp only [blankCall, List.length_append, Layout.length_encode, size_u32, size_u16, List.length_replicate]

theorem framed_splitCall (contextId : UInt16) :
    (splitCall contextId).1.Framed ∧ (splitCall contextId).2.Framed := by
  have hlen := length_blankCall contextId
  constructor <;> apply framed_fragmentOf <;> simp [hlen, headerLen, maxPduLen]

theorem opens_splitCall (contextId : UInt16) :
    Fragment.Opens [(splitCall contextId).1, (splitCall contextId).2] := by
  have hlen := length_blankCall contextId
  refine ⟨?_, ?_, ?_⟩
  · show PacketFlags.contains .firstFrag .firstFrag = true
    decide
  · simp [splitCall, fragmentOf, hlen]
  · intro later hlater
    obtain rfl := List.mem_singleton.mp hlater
    show PacketFlags.contains .lastFrag .firstFrag = false
    decide

theorem fragments_agree_with_whole_split_call :
    (boundOnce.arrive (sent (splitCall 0).1)).step = .needMore ∧
      (boundOnce.arriveAll [sent (splitCall 0).1]).arrive (sent (splitCall 0).2) =
        boundOnce.arrive (sent (fragmentOf .complete 2 (blankCall 0))) := by
  have hempty : boundOnce.connection.inbound = .empty := by decide +kernel
  have hheld : boundOnce.service? (Fragment.contextId (Fragment.stub
      ([sent (splitCall 0).1].map Arrival.fragment ++ [(sent (splitCall 0).2).fragment]))) = some .ndr32 := by
    decide +kernel
  obtain ⟨hwaits, hagrees, -⟩ := fragments_agree_with_whole hempty [sent (splitCall 0).1] (sent (splitCall 0).2)
    (by rintro _ (_ | ⟨_, _ | ⟨_, ⟨⟩⟩⟩); exacts [(framed_splitCall 0).1, (framed_splitCall 0).2])
    (opens_splitCall 0) (by rintro _ (_ | ⟨_, ⟨⟩⟩); decide +kernel) (by decide +kernel) hheld
  have hfirst := hwaits [] (sent (splitCall 0).1) [] (List.nil_append _).symm
  rw [arriveAll_nil] at hfirst
  refine ⟨hfirst.1, ?_⟩
  exact hagrees (by decide +kernel) (fragmentOf .complete 2 (blankCall 0))
    (framed_fragmentOf _ _ (by rw [length_blankCall]; decide)) (by decide +kernel) (by decide +kernel) rfl
    (by decide +kernel)

/-- A call on a context that is not held is not waited for: its first fragment
already faults. -/
theorem first_fragment_of_unheld_context :
    boundOnce.connection.inbound = .empty ∧ boundOnce.service? 0 = some .ndr32 ∧
      ((splitCall 1).1.Framed ∧ (splitCall 1).2.Framed) ∧
      Fragment.Opens [(splitCall 1).1, (splitCall 1).2] ∧ (splitCall 1).2.isLast = true ∧
      Fragment.stub [(splitCall 1).1, (splitCall 1).2] = blankCall 1 ∧ (blankCall 1).length ≤ maxStubLen ∧
      (boundOnce.arrive (sent (splitCall 1).1)).step = .send Fault.faultLen :=
  ⟨by decide +kernel, by decide +kernel, framed_splitCall 1, opens_splitCall 1, by decide +kernel,
    by decide +kernel, by decide +kernel, by decide +kernel⟩

end Machine

end Kmsrs.Wire
