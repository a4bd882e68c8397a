import Kmsrs.Client.Session
import Kmsrs.Server.Driver
import Kmsrs.Server.Pieces

/-! The client against the host. What the client writes arrives in reads of any size, each
in a context of its own; what the host answers is read as it was sent. -/

namespace Kmsrs.Client

open Kmsrs.Bytes Kmsrs.Layout Kmsrs.Crypto Kmsrs.Kms Kmsrs.Wire Kmsrs.Wire.Bind Kmsrs.Wire.Client Kmsrs.Db
open Kmsrs.Server (Host Delivery Waited Sends serve hostEnv)

/-- How each write of a client arrives: in reads that are never empty. -/
structure Transport where
  deliveries : ℕ → List UInt8 → List Delivery
  flatten_input : ∀ write bytes, ((deliveries write bytes).map Delivery.input).flatten = bytes
  ne_nil : ∀ write bytes, ∀ delivery ∈ deliveries write bytes, delivery.input ≠ []

/-- The host's side of a socket, and what it sent that is not read yet. -/
structure Loopback (ε : Type) (catalogue : Catalogue) where
  machine : Machine ε (Host catalogue)
  writes : ℕ
  unread : List UInt8
  closed : Bool

/-- How a host is reached. -/
structure Endpoint (ε : Type) where
  features : Policy.Gate.Features
  digests : Digests
  rng : EntropySource ε
  ndr64Enabled : Bool
  port : UInt16
  transport : Transport

variable {ε : Type} {catalogue : Catalogue}

/-- A connection is accepted with an association group of its own. -/
def loopback (endpoint : Endpoint ε) : Network (Loopback ε catalogue) where
  connect stream :=
    let (group, entropy) := Server.Driver.associationGroup endpoint.rng stream.machine.entropy
    let machine := Server.accept group endpoint.ndr64Enabled endpoint.port entropy stream.machine.host
    (true, { stream with machine, unread := [], closed := false })
  writeAll stream bytes :=
    if stream.closed then (false, stream)
    else
      let deliveries := endpoint.transport.deliveries stream.writes bytes
      let (machine, handled) := serve stream.machine
        (deliveries.map (Delivery.read endpoint.features endpoint.digests endpoint.rng))
      (true,
        { machine
          writes := stream.writes + 1
          unread := stream.unread ++ handled.response
          closed := handled.close })
  readExact stream n :=
    if n ≤ stream.unread.length then (some (stream.unread.take n), { stream with unread := stream.unread.drop n })
    else (none, stream)

/-! ### One PDU for another -/

/-- Nothing is under way: the host waits for a PDU, and the client has read what there is. -/
structure Quiet (stream : Loopback ε catalogue) : Prop where
  unread : stream.unread = []
  opened : stream.closed = false
  empty : stream.machine.connection.inbound.items = []

/-- A PDU under its own header is read whole. -/
theorem readPdu_framed (endpoint : Endpoint ε) (stream : Loopback ε catalogue) {header : RpcHeader} {body : List UInt8}
    (hframed : header.fragLength.toNat = headerLen + body.length) (hunread : stream.unread = RpcHeader.layout.encode header ++ body) :
    readPdu (loopback endpoint) stream = (some stream.unread, { stream with unread := [] }) := by
  have hencode : (RpcHeader.layout.encode header).length = headerLen := by simp
  have hfrag : u16.readAt (RpcHeader.layout.encode header) 8 = some header.fragLength := by
    obtain ⟨major, minor, type, flags, representation, frag, auth, call⟩ := header
    have h := u16.readAt_append (u8.encode major ++ u8.encode minor ++ u8.encode type ++ u8.encode flags ++ representation.toList)
      frag (u16.encode auth ++ u32.encode call) (by simp : 8 = _)
    simp only [List.append_assoc] at h
    exact h
  have hheader : (loopback endpoint).readExact stream headerLen =
      (some (RpcHeader.layout.encode header), { stream with unread := body }) := by
    simp only [loopback, hunread]
    rw [if_pos (by rw [List.length_append, hencode]; omega), List.take_left' hencode, List.drop_left' hencode]
  have hbody : (loopback endpoint).readExact { stream with unread := body } body.length =
      (some body, { stream with unread := [] }) := by
    simp only [loopback, le_refl, if_true, List.take_length, List.drop_length]
  have hrest : header.fragLength.toNat - headerLen = body.length := by omega
  simp only [readPdu, hheader, hfrag, Option.getD_some, hrest, hbody, hunread]

/-- What is answered to a PDU, in however many reads it arrives, is read whole. -/
theorem exchangePdus_loopback (endpoint : Endpoint ε) {stream : Loopback ε catalogue} (hquiet : Quiet stream)
    {bytes body : List UInt8} {header : RpcHeader} (hframe : Frame.next bytes = some (.pdu header body, []))
    (hsmall : bytes.length ≤ maxPduLen) :
    ∃ (context : Server.RequestContext) (received : Connection), Waited stream.machine.connection received ∧ received.inbound.items = bytes ∧
      ∀ {outcome : Outcome ε (Host catalogue)},
        outcome = received.step (hostEnv endpoint.features endpoint.digests endpoint.rng context) context.now
          stream.machine.entropy stream.machine.host (List.replicate maxResponseLen 0) →
        ∀ {header' : RpcHeader} {body' : List UInt8}, header'.fragLength.toNat = headerLen + body'.length →
        Sends (List.replicate maxResponseLen 0) (RpcHeader.layout.encode header' ++ body') outcome.toReply →
        ∃ stream', exchangePdus (loopback endpoint) stream bytes = (some (RpcHeader.layout.encode header' ++ body'), stream') ∧
          Quiet stream' ∧ Waited outcome.connection stream'.machine.connection ∧
          stream'.machine.entropy = outcome.entropy ∧ stream'.machine.host = outcome.host := by
  obtain ⟨deliveries, hdeliveries⟩ : ∃ deliveries, deliveries = endpoint.transport.deliveries stream.writes bytes := ⟨_, rfl⟩
  obtain ⟨reads, hreads⟩ : ∃ reads : List (Server.Read ε (Host catalogue)),
      reads = deliveries.map (Delivery.read endpoint.features endpoint.digests endpoint.rng) := ⟨_, rfl⟩
  have hinputs : reads.map Server.Read.input = deliveries.map Delivery.input := by
    rw [hreads, List.map_map]
    rfl
  have hflatten : (reads.map Server.Read.input).flatten = bytes := by
    rw [hinputs, hdeliveries]
    exact endpoint.transport.flatten_input _ _
  have hmore : reads ≠ [] := by
    rintro hnil
    rw [hnil] at hflatten
    rw [← hflatten] at hframe
    cases hframe
  have hpieces : ∀ read ∈ reads, read.input ≠ [] := by
    intro read hread
    rw [hreads] at hread
    obtain ⟨delivery, hdelivery, rfl⟩ := List.mem_map.mp hread
    exact endpoint.transport.ne_nil _ _ delivery (hdeliveries ▸ hdelivery)
  obtain ⟨last, hlast, received, hwaited, hreceived, hserves⟩ :=
    Server.serve_pdu hframe hsmall hpieces stream.machine (by rw [hquiet.empty, hflatten, List.nil_append]) hmore
  obtain ⟨delivery, -, rfl⟩ : ∃ delivery ∈ deliveries,
      Delivery.read endpoint.features endpoint.digests endpoint.rng delivery = last := by
    have hmem := List.mem_of_getLast? hlast
    rw [hreads] at hmem
    exact List.mem_map.mp hmem
  refine ⟨delivery.context, received, hwaited, hreceived, ?_⟩
  rintro outcome houtcome header' body' hframed hsends
  rw [houtcome] at hsends ⊢
  obtain ⟨hhandled, hwaited', hempty, hentropy, hhost⟩ := hserves _ hsends
  have hwrite : (loopback endpoint).writeAll stream bytes =
      (true,
        { machine := (serve stream.machine reads).1
          writes := stream.writes + 1
          unread := RpcHeader.layout.encode header' ++ body'
          closed := false }) := by
    simp only [loopback, hquiet.opened, Bool.false_eq_true, if_false, ← hdeliveries, ← hreads, hhandled, hquiet.unread,
      List.nil_append]
  refine ⟨⟨(serve stream.machine reads).1, stream.writes + 1, [], false⟩, ?_, ⟨rfl, rfl, hempty⟩, hwaited', hentropy, hhost⟩
  rw [exchangePdus, hwrite]
  exact readPdu_framed endpoint _ hframed rfl

/-! ### Binding -/

section
variable {σ : Type} (env : Env ε σ) (now : Instant) (entropy : ε) (host : σ)

/-- The context that a fresh association is bound in by a client's own bind. -/
def boundIn (assocGroup : UInt32) (accepted : Accepted) : Phase :=
  .bound ⟨assocGroup, ⟨(ArrayVec.empty.pushEvicting ⟨accepted.contextId, accepted.transfer⟩).1⟩⟩

theorem find?_boundIn (assocGroup : UInt32) (accepted : Accepted) :
    ((boundIn assocGroup accepted).contexts.find? fun held => held.contextId = accepted.contextId) =
      some ⟨accepted.contextId, accepted.transfer⟩ := by
  rw [boundIn, ArrayVec.pushEvicting_of_lt _ (by decide)]
  simp [Phase.contexts, ArrayVec.empty]

/-- A client's own bind is acknowledged on a fresh connection. -/
theorem step_bindPdu (hworks : env.rng.Works) {connection : Connection} {assocGroup : UInt32}
    (hphase : connection.phase = .unbound (.new assocGroup)) {callId : UInt32} {offerNdr64 : Bool}
    (hheld : connection.inbound.items = bindPdu callId offerNdr64) :
    ∃ (parameters : AckParameters) (noise : List UInt8),
      parameters.packetType = .bindAck ∧ parameters.callId = callId ∧ parameters.assocGroup = assocGroup ∧
      parameters.addressLen ≤ maxSecondaryAddressLen ∧ noise.length = parameters.padding ∧
      ∀ outcome : Outcome ε σ, outcome = connection.step env now entropy host (List.replicate maxResponseLen 0) →
        Sends (List.replicate maxResponseLen 0)
            (ackBytes parameters noise (Bind.decide (bindRequest offerNdr64) connection.ndr64Enabled)) outcome.toReply ∧
          outcome.connection.phase = boundIn assocGroup (settledOn offerNdr64 connection.ndr64Enabled) ∧
          outcome.connection.ciphers = connection.ciphers ∧ outcome.host = host := by
  have hlen := length_bindBody_le offerNdr64
  obtain ⟨header, hheader⟩ : ∃ header, header =
      RpcHeader.forReply .bind .complete callId (UInt16.ofNat (headerLen + (bindBody offerNdr64).length)) := ⟨_, rfl⟩
  have hfrag : header.fragLength.toNat = headerLen + (bindBody offerNdr64).length := by
    rw [hheader]
    exact UInt16.toNat_ofNat_of_lt' (by simp only [headerLen, UInt16.size]; omega)
  have hframe : Frame.next connection.inbound.items = some (.pdu header (bindBody offerNdr64), []) := by
    rw [hheld, bindPdu, ← hheader]
    exact Server.next_of_framed hfrag (by simp only [headerLen, maxPduLen]; omega)
  have hdispatch : connection.step env now entropy host (List.replicate maxResponseLen 0) =
      ((connection.consumed now header).handleBind env.rng header (bindBody offerNdr64) entropy
        (List.replicate maxResponseLen 0) false).1.unasked
          ((connection.consumed now header).handleBind env.rng header (bindBody offerNdr64) entropy
            (List.replicate maxResponseLen 0) false).2 host := by
    rw [Connection.step_of_pdu env now entropy host _ hframe, hheader]
    rfl
  obtain ⟨bound, hbound⟩ : ∃ bound : Connection, bound =
      { ((connection.consumed now header).record (.bound (settledOn offerNdr64 connection.ndr64Enabled).transfer
          (settledOn offerNdr64 connection.ndr64Enabled).contextId)) with
        phase := boundIn assocGroup (settledOn offerNdr64 connection.ndr64Enabled) } := ⟨_, rfl⟩
  have hnegotiate : (connection.consumed now header).negotiate (bindRequest offerNdr64) =
      some (bound, Bind.decide (bindRequest offerNdr64) connection.ndr64Enabled, assocGroup) := by
    have haccepted := acceptedContext_bindRequest offerNdr64 connection.ndr64Enabled
    rw [Connection.negotiate, show (connection.consumed now header).phase = .unbound (.new assocGroup) from hphase]
    simp only [Association.bind, show (connection.consumed now header).ndr64Enabled = connection.ndr64Enabled from rfl,
      haccepted, hbound]
    rfl
  obtain ⟨parameters, hparameters⟩ : ∃ parameters, parameters =
      bound.ackParameters header (bindRequest offerNdr64) assocGroup false := ⟨_, rfl⟩
  have haddress : parameters.addressLen ≤ maxSecondaryAddressLen := by
    rw [hparameters]
    exact Connection.addressLen_ackParameters ..
  have hroom : parameters.ackLen (Bind.decide (bindRequest offerNdr64) connection.ndr64Enabled).results.length ≤
      (List.replicate maxResponseLen (0 : UInt8)).length := by
    rw [List.length_replicate, Server.ackLen_fits_iff haddress (parse_bindBody offerNdr64)]
    cases offerNdr64 <;> decide
  obtain ⟨noise, entropy', hnoise⟩ := Server.drawNoise_of_works hworks entropy parameters.padding
  have hnoiseLen := length_drawNoise hnoise
  have hack := length_ackBytes (Bind.decide (bindRequest offerNdr64) connection.ndr64Enabled) hnoiseLen
  have hbind : (connection.consumed now header).handleBind env.rng header (bindBody offerNdr64) entropy
      (List.replicate maxResponseLen 0) false =
        (⟨.send (ackBytes parameters noise (Bind.decide (bindRequest offerNdr64) connection.ndr64Enabled)).length, bound,
          ackBytes parameters noise (Bind.decide (bindRequest offerNdr64) connection.ndr64Enabled) ++
            (List.replicate maxResponseLen 0).drop
              (ackBytes parameters noise (Bind.decide (bindRequest offerNdr64) connection.ndr64Enabled)).length⟩,
          entropy') := by
    rw [Connection.handleBind_eq, parse_bindBody]
    dsimp only
    rw [hnegotiate]
    dsimp only
    rw [← hparameters, Connection.acknowledge, if_pos hroom, hnoise, hack]
  refine ⟨parameters, noise, ?_, ?_, ?_, haddress, hnoiseLen, ?_⟩
  · rw [hparameters]
    rfl
  · rw [hparameters, hheader]
    rfl
  · rw [hparameters]
    rfl
  · rintro outcome rfl
    rw [hdispatch, hbind]
    exact ⟨⟨rfl, rfl⟩, by rw [hbound]; rfl, by rw [hbound]; rfl, rfl⟩

end

theorem assocGroupOf_ackBytes (parameters : AckParameters) (noise : List UInt8) (decision : BindDecision) :
    assocGroupOf (ackBytes parameters noise decision) = parameters.assocGroup := by
  obtain ⟨rest, hrest⟩ : ∃ rest, ackBytes parameters noise decision =
      (RpcHeader.layout.encode (.forReply parameters.packetType parameters.replyFlags parameters.callId
          (UInt16.ofNat (parameters.ackLen decision.results.length))) ++
        (u16.encode parameters.maxXmitFrag ++ u16.encode parameters.maxRecvFrag)) ++
          u32.encode parameters.assocGroup ++ rest := by
    rw [ackBytes_eq, drop_ackBytes, ackHead]
    simp only [List.append_assoc]
    exact ⟨_, rfl⟩
  rw [assocGroupOf, hrest, range_append _ _ _ (by simp [headerLen]) (by simp [headerLen]), Option.map_some, Option.getD_some,
    u32.decode_encode]

/-- The host's connection serves what the session settled on, and nothing is under way. -/
structure InStep (session : Session) (stream : Loopback ε catalogue) : Prop extends Quiet stream where
  held : (stream.machine.connection.phase.contexts.find? fun held => held.contextId = session.accepted.contextId) =
    some ⟨session.accepted.contextId, session.accepted.transfer⟩
  ciphers : stream.machine.connection.ciphers = .new

/-- A conversation opens without a warning on every host with something to draw: on NDR64
where it is offered and served, on NDR32 elsewhere, and in the group the host drew. -/
theorem open_loopback (endpoint : Endpoint ε) (hworks : endpoint.rng.Works) (stream : Loopback ε catalogue)
    (offerNdr64 : Bool) :
    ∃ session stream', Session.open (loopback endpoint) stream offerNdr64 = ⟨.ok session, [], stream'⟩ ∧
      session.accepted = settledOn offerNdr64 endpoint.ndr64Enabled ∧
      session.assocGroup = (Server.Driver.associationGroup endpoint.rng stream.machine.entropy).1 ∧
      InStep session stream' ∧ stream'.machine.host = stream.machine.host := by
  obtain ⟨group, entropy, hgroup⟩ : ∃ group entropy,
      Server.Driver.associationGroup endpoint.rng stream.machine.entropy = (group, entropy) := ⟨_, _, rfl⟩
  obtain ⟨accepted, haccepted⟩ : ∃ accepted : Loopback ε catalogue, accepted =
      { stream with
        machine := Server.accept group endpoint.ndr64Enabled endpoint.port entropy stream.machine.host
        unread := []
        closed := false } := ⟨_, rfl⟩
  have hconnect : (loopback endpoint).connect stream = (true, accepted) := by
    simp only [loopback, hgroup, haccepted]
  have hquiet : Quiet accepted := by
    rw [haccepted]
    exact ⟨rfl, rfl, rfl⟩
  have hconnection : accepted.machine.connection = Server.connection group endpoint.ndr64Enabled endpoint.port := by
    rw [haccepted]
    rfl
  have hlen := length_bindBody_le offerNdr64
  have hpdu := length_bindPdu firstCallId offerNdr64
  have hframe := @Server.next_of_framed (RpcHeader.forReply .bind .complete firstCallId
    (UInt16.ofNat (headerLen + (bindBody offerNdr64).length))) (bindBody offerNdr64)
    (UInt16.toNat_ofNat_of_lt' (by simp only [headerLen, UInt16.size]; omega)) (by simp only [headerLen, maxPduLen]; omega)
  obtain ⟨context, received, hwaited, hheld, hexchange⟩ := exchangePdus_loopback endpoint hquiet hframe (by
    rw [← bindPdu, hpdu]
    simp only [headerLen, maxPduLen]
    omega)
  rw [← bindPdu] at hheld hexchange
  have hphase : received.phase = .unbound (.new group) := by
    rw [hwaited.phase, hconnection]
    rfl
  have hndr64 : received.ndr64Enabled = endpoint.ndr64Enabled := by
    rw [hwaited.ndr64Enabled, hconnection]
    rfl
  have hciphers : received.ciphers = .new := by
    rw [hwaited.ciphers, hconnection]
    rfl
  obtain ⟨parameters, noise, htype, hcall, hassoc, haddress, hnoise, hstep⟩ :=
    step_bindPdu (hostEnv endpoint.features endpoint.digests endpoint.rng context) context.now accepted.machine.entropy
      accepted.machine.host hworks hphase hheld
  obtain ⟨hsends, hbound, hkept, hhost⟩ := hstep _ rfl
  have hack := length_ackBytes (Bind.decide (bindRequest offerNdr64) received.ndr64Enabled) hnoise
  have hlt := ackLen_lt haddress (Bind.decide (bindRequest offerNdr64) received.ndr64Enabled)
  have hsplit := ackBytes_eq parameters noise (Bind.decide (bindRequest offerNdr64) received.ndr64Enabled)
  obtain ⟨body', hbody'⟩ : ∃ body', body' =
      (ackBytes parameters noise (Bind.decide (bindRequest offerNdr64) received.ndr64Enabled)).drop headerLen := ⟨_, rfl⟩
  rw [← hbody'] at hsplit
  have hdeclared : parameters.ackLen (Bind.decide (bindRequest offerNdr64) received.ndr64Enabled).results.length =
      headerLen + body'.length := by
    rw [← hack, hsplit, List.length_append, length_encode, RpcHeader.size_layout]
  obtain ⟨stream', hexchanged, hquiet', hwaited', -, hhost'⟩ := hexchange rfl (by
    exact (UInt16.toNat_ofNat_of_lt' hlt).trans hdeclared) (hsplit ▸ hsends)
  have hread := readReply_ackBytes ⟨firstCallId + 1, false⟩ htype haddress hnoise
    (Bind.decide (bindRequest offerNdr64) received.ndr64Enabled) .ndr32
  rw [readBindAck_settled offerNdr64 received.ndr64Enabled haddress hnoise, hcall] at hread
  refine ⟨⟨⟨firstCallId + 1, false⟩, settledOn offerNdr64 endpoint.ndr64Enabled, group⟩, stream', ?_, rfl, ?_,
    ⟨hquiet', ?_, ?_⟩, ?_⟩
  · rw [Session.open_eq hconnect hexchanged (by rw [← hsplit]; exact hread), ← hsplit, assocGroupOf_ackBytes, hassoc, hndr64]
    rfl
  · rw [hgroup]
  · rw [hwaited'.phase, hbound, hndr64]
    exact find?_boundIn group _
  · rw [hwaited'.ciphers, hkept, hciphers]
  · rw [hhost', hhost, haccepted]
    rfl

/-! ### Activating -/

section
variable {connection : Connection} {callId : UInt32} {contextId : UInt16} {transfer : TransferSyntax} {payload : List UInt8}
  (hheld : (connection.phase.contexts.find? fun held => held.contextId = contextId) = some ⟨contextId, transfer⟩)
  (hbytes : connection.inbound.items = (requestFragment callId contextId transfer payload).bytes)
  (hshort : payload.length ≤ 260)
include hheld hbytes hshort

theorem handed?_request :
    connection.handed? = some ⟨callId, contextId, transfer, requestStub contextId transfer payload⟩ := by
  have hfits : headerLen + (requestStub contextId transfer payload).length ≤ maxPduLen := by
    have hwidth := Stub.lengthFieldWidth_eq transfer
    rw [length_requestStub]
    simp only [headerLen, Stub.requestDataOffset, Stub.requestPrefixLen, maxPduLen]
    omega
  have hframed : (requestFragment callId contextId transfer payload).Framed := Machine.framed_fragmentOf _ _ hfits
  have hfragment : connection.fragment? = some (requestFragment callId contextId transfer payload) := by
    unfold Connection.fragment?
    rw [hbytes, hframed.next]
    exact if_pos hframed.requests
  have hfirst : PacketFlags.contains .complete .firstFrag = true := by decide
  have hassembled : connection.assembledWith (requestFragment callId contextId transfer payload) =
      requestStub contextId transfer payload := by
    show (if PacketFlags.contains .complete .firstFrag = true then [] else connection.reassembly.items) ++
      requestStub contextId transfer payload = _
    rw [if_pos hfirst, List.nil_append]
  have hlast : (requestFragment callId contextId transfer payload).isLast = true := by
    show PacketFlags.contains .complete .lastFrag = true
    decide
  unfold Connection.handed?
  rw [hfragment, Option.bind_some, served?_request, hheld, Option.bind_some, hassembled,
    if_pos ⟨by simp only [maxStubLen]; omega, hlast⟩]
  rfl

/-- The step that takes a request answers it, on a connection that is otherwise as it was. -/
theorem step_request (env : Env ε (Host catalogue)) (now : Instant) (entropy : ε) (host : Host catalogue) :
    ∃ connection' : Connection, connection'.phase = connection.phase ∧ connection'.ciphers = connection.ciphers ∧
      connection.step env now entropy host (List.replicate maxResponseLen 0) =
        connection'.answer env callId contextId transfer payload entropy host (List.replicate maxResponseLen 0) := by
  obtain ⟨inbound, hstep⟩ := Connection.step_of_handed env entropy host (List.replicate maxResponseLen 0)
    (handed?_request hheld hbytes hshort) now
  refine ⟨{ connection.touched now with inbound }.stopReassembly, rfl, rfl, ?_⟩
  rw [hstep, Connection.handleStub, parseRequest_requestStub contextId transfer (by omega)]

end

/-- A conversation with a host behind a socket: the client's half, what it draws from, and
the socket. -/
structure Conversation (ε δ : Type) (catalogue : Catalogue) where
  session : Session
  entropy : δ
  stream : Loopback ε catalogue

namespace Conversation

variable {δ : Type} (endpoint : Endpoint ε) (client : EntropySource δ)

/-- What the client makes of a request. -/
def said (conversation : Conversation ε δ catalogue) (fields : RequestFields) : Spoken (Loopback ε catalogue) Exchange :=
  (conversation.session.activate (loopback endpoint) endpoint.digests client fields conversation.entropy conversation.stream).1

/-- The conversation after a request. -/
def next (conversation : Conversation ε δ catalogue) (fields : RequestFields) : Conversation ε δ catalogue :=
  let (spoken, session, entropy) := conversation.session.activate (loopback endpoint) endpoint.digests client fields
    conversation.entropy conversation.stream
  ⟨session, entropy, spoken.stream⟩

def host (conversation : Conversation ε δ catalogue) : Host catalogue := conversation.stream.machine.host

/-- A request is answered as the host decides it, in the context of the read that completes
it: a refusal is an error, and a grant an exchange that reports it, with the vectors that
the two sides drew. -/
def Decided (conversation : Conversation ε δ catalogue) (fields : RequestFields) (ask : Server.Ask) : Prop :=
  (conversation.next endpoint client fields).host = conversation.host.next endpoint.features ask ∧
    match conversation.host.decision endpoint.features ask with
    | .refuse _ => ∃ reason bodyLen, (conversation.said endpoint client fields).result =
        .error (.reply (.notAKmsResponse reason bodyLen))
    | .grant grant => ∃ exchange requestIv freshIv salt,
        Draws client conversation.entropy (requestDraws fields.version requestIv)
          (conversation.next endpoint client fields).entropy ∧
        Draws endpoint.rng conversation.stream.machine.entropy (responseDraws fields.version freshIv salt)
          (conversation.next endpoint client fields).stream.machine.entropy ∧
        (conversation.said endpoint client fields).result = .ok exchange ∧
        Reports conversation.session fields grant requestIv freshIv exchange

/-- A request whose name is too long is not sent; any other is decided. -/
def Answered (conversation : Conversation ε δ catalogue) (fields : RequestFields) : Prop :=
  (conversation.said endpoint client fields).warnings = [] ∧
    match fields.toBody with
    | .error error => (conversation.said endpoint client fields).result = .error (.request error) ∧
        conversation.next endpoint client fields = conversation
    | .ok body => ∃ context, conversation.Decided endpoint client fields ⟨.fromBody body, context⟩

variable {endpoint client} {conversation : Conversation ε δ catalogue} {fields : RequestFields}

theorem decided_of_inStep (hworks : endpoint.rng.Works) (hclient : client.Works)
    (hin : InStep conversation.session conversation.stream) (hbody : fields.toBody = .ok fields.body)
    (hdeclared : fields.declared = fields.version.toProtocolVersion) :
    (conversation.said endpoint client fields).warnings = [] ∧
      (∃ context, conversation.Decided endpoint client fields ⟨.fromBody fields.body, context⟩) ∧
      InStep (conversation.next endpoint client fields).session (conversation.next endpoint client fields).stream := by
  obtain ⟨session, entropy, stream⟩ := conversation
  obtain ⟨requestIv, entropy', hdraws, hencode⟩ := encodeRequest_of_works hclient fields.version fields.body entropy
  obtain ⟨stub, hstub⟩ : ∃ stub, stub = stubBytes fields.version fields.body requestIv := ⟨_, rfl⟩
  have hshort : stub.length ≤ 260 := by
    rw [hstub, length_stubBytes]
    cases fields.version <;> decide
  have hversion : fields.body.version = fields.version.toProtocolVersion.toWire := congrArg ProtocolVersion.toWire hdeclared
  have hfits : headerLen + (requestStub session.accepted.contextId session.accepted.transfer stub).length ≤ maxPduLen := by
    have hwidth := Stub.lengthFieldWidth_eq session.accepted.transfer
    rw [length_requestStub]
    simp only [headerLen, Stub.requestDataOffset, Stub.requestPrefixLen, maxPduLen]
    omega
  obtain ⟨pdu, hpdu⟩ : ∃ pdu, pdu = requestFragment session.association.nextCallId session.accepted.contextId
    session.accepted.transfer stub := ⟨_, rfl⟩
  have hframed : pdu.Framed := hpdu ▸ Machine.framed_fragmentOf _ _ hfits
  obtain ⟨context, received, hwaited, hheld, hexchange⟩ :=
    exchangePdus_loopback endpoint hin.toQuiet hframed.next (by rw [Fragment.length_bytes]; exact hframed.fits)
  have hfind : (received.phase.contexts.find? fun held => held.contextId = session.accepted.contextId) =
      some ⟨session.accepted.contextId, session.accepted.transfer⟩ := by
    rw [hwaited.phase]
    exact hin.held
  have hciphers : received.ciphers = .new := hwaited.ciphers.trans hin.ciphers
  obtain ⟨answering, hphase, hkept, hstep⟩ := step_request hfind (hpdu ▸ hheld) hshort
    (hostEnv endpoint.features endpoint.digests endpoint.rng context) context.now stream.machine.entropy stream.machine.host
  have hdecode : Kms.decode stub answering.ciphers = .ok (decodedOf fields.version fields.body requestIv) := by
    rw [hkept, hciphers, hstub]
    exact decode_stubBytes hversion requestIv
  -- the host answers, the client reads the answer
  have hrun {outcome : Outcome ε (Host catalogue)} {result : HResult} {payload : List UInt8}
      {read : Except ReplyError ServerReply} (houtcome : outcome = answering.answer
        (hostEnv endpoint.features endpoint.digests endpoint.rng context) session.association.nextCallId
          session.accepted.contextId session.accepted.transfer stub stream.machine.entropy stream.machine.host
          (List.replicate maxResponseLen 0))
      (hsmall : payload.length ≤ 296) (hresult : result ≠ .other 0)
      (hsends : Sends (List.replicate maxResponseLen 0) (responsePdu session.association.nextCallId
        session.accepted.contextId session.accepted.transfer result payload) outcome.toReply)
      (hread : session.called.association.readReply (responsePdu session.association.nextCallId session.accepted.contextId
        session.accepted.transfer result payload) session.association.nextCallId session.accepted.transfer =
          ((read, []), session.called.association)) :
      ∃ stream' : Loopback ε catalogue, session.activate (loopback endpoint) endpoint.digests client fields entropy stream =
          (⟨session.hear endpoint.digests fields .new stub read, [], stream'⟩, session.called, entropy') ∧
        InStep session.called stream' ∧ stream'.machine.entropy = outcome.entropy ∧ stream'.machine.host = outcome.host := by
    have hlogged : Connection.Logged answering outcome.connection := by
      rw [houtcome]
      exact Connection.logged_answer ..
    have hdeclaredLen : declaredResponseLen session.accepted.transfer result payload =
        headerLen + (Stub.stubBytes session.accepted.transfer session.accepted.contextId result.toWire payload).length := by
      rw [Stub.length_stubBytes]
      exact declaredResponseLen_eq session.accepted.transfer result payload hresult
    have hlt := (Server.responsePdu_fits session.accepted.transfer result hsmall).1
    obtain ⟨stream', hexchanged, hquiet, hwaited', hentropy, hhost⟩ := hexchange (houtcome.trans hstep.symm)
      ((UInt16.toNat_ofNat_of_lt' hlt).trans hdeclaredLen) hsends
    refine ⟨stream', ?_, ⟨hquiet, ?_, ?_⟩, hentropy, hhost⟩
    · rw [hstub]
      exact Session.activate_eq endpoint.digests hbody hdeclared hencode (by rw [← hstub, ← hpdu]; exact hexchanged) hread
    · rw [hwaited'.phase, hlogged.phase, hphase]
      exact hfind
    · obtain ⟨_, _, hsame⟩ := hlogged
      rw [hwaited'.ciphers, hsame, hkept, hciphers]
  have hrequest : (decodedOf fields.version fields.body requestIv).request = .fromBody fields.body := request_decodedOf ..
  have hversion' : (decodedOf fields.version fields.body requestIv).version = fields.version := version_decodedOf ..
  have hscratch : (List.replicate maxResponseLen (0 : UInt8)).length = maxResponseLen := List.length_replicate
  rcases hcases : stream.machine.host.activate endpoint.features (.fromBody fields.body) context with ⟨decision, host'⟩
  have hdecision : stream.machine.host.decision endpoint.features ⟨.fromBody fields.body, context⟩ = decision :=
    congrArg Prod.fst hcases
  have hnext : stream.machine.host.next endpoint.features ⟨.fromBody fields.body, context⟩ = host' := congrArg Prod.snd hcases
  cases decision with
  | refuse result =>
    have hresult : result.toWire ≠ 0 := by
      rcases stream.machine.host.activate_cases endpoint.features (.fromBody fields.body) context with
        ⟨refused, -, h⟩ | ⟨-, h⟩
      · rw [hcases] at h
        cases h
        cases refused <;> simp [Policy.Gate.Refusal.hresult, HResult.toWire]
      · rw [hcases] at h
        cases h
    have hother : result ≠ .other 0 := fun hzero => hresult (by rw [hzero]; rfl)
    have hanswer : answering.answer (hostEnv endpoint.features endpoint.digests endpoint.rng context)
        session.association.nextCallId session.accepted.contextId session.accepted.transfer stub stream.machine.entropy
        stream.machine.host (List.replicate maxResponseLen 0) =
          { answering.refuse session.association.nextCallId session.accepted.contextId session.accepted.transfer result
              (List.replicate maxResponseLen 0) with
            entropy := stream.machine.entropy, host := host', asked := some (.fromBody fields.body) } := by
      unfold Connection.answer
      rw [hdecode]
      dsimp only [hostEnv]
      rw [hrequest, hcases]
    have hsends : Sends (List.replicate maxResponseLen 0) _ (answering.refuse session.association.nextCallId
        session.accepted.contextId session.accepted.transfer result (List.replicate maxResponseLen 0)) :=
      Server.refuse_sends session.association.nextCallId session.accepted.contextId hscratch session.accepted.transfer result
    have hsmall : ([] : List UInt8).length ≤ 296 := Nat.zero_le _
    obtain ⟨reason, bodyLen, hread⟩ := @readReply_failure session.called.association session.association.nextCallId
      session.accepted.contextId session.accepted.transfer result [] hresult
      (Server.responsePdu_fits session.accepted.transfer result hsmall).1
    obtain ⟨stream', hactivate, hin', -, hhost⟩ := hrun hanswer.symm hsmall hother hsends hread
    simp only [Conversation.said, Conversation.next, Conversation.Decided, Conversation.host, hactivate]
    refine ⟨trivial, ⟨context, hhost.trans hnext.symm, ?_⟩, hin'⟩
    rw [hdecision]
    exact ⟨reason, bodyLen, rfl⟩
  | grant grant =>
    obtain ⟨freshIv, salt, entropy'', hdrawn⟩ : ∃ freshIv salt entropy'',
        Draws endpoint.rng stream.machine.entropy (responseDraws fields.version freshIv salt) entropy'' := by
      obtain ⟨first, entropy₁, h₁⟩ := hworks stream.machine.entropy 16
      obtain ⟨second, entropy₂, h₂⟩ := hworks entropy₁ 16
      cases fields.version with
      | v4 => exact ⟨first, first, stream.machine.entropy, rfl⟩
      | v5 => exact ⟨first, first, entropy₁, entropy₁, h₁, rfl⟩
      | v6 => exact ⟨first, second, entropy₂, entropy₁, h₁, entropy₂, h₂, rfl⟩
    obtain ⟨response, exchange, hsmall, hencoded, hjudge, hreports⟩ := judge_answer endpoint.digests session grant hdeclared
      requestIv hdrawn hscratch.ge
    rw [← hstub] at hjudge
    have hgrant : (hostEnv endpoint.features endpoint.digests endpoint.rng context).activate stream.machine.host
        (decodedOf fields.version fields.body requestIv).request = (.grant grant, host') := by
      rw [hrequest]
      exact hcases
    have hanswer := Connection.answer_of_grant (hostEnv endpoint.features endpoint.digests endpoint.rng context)
      stream.machine.entropy (List.replicate maxResponseLen 0) session.association.nextCallId session.accepted.contextId
      session.accepted.transfer hdecode hgrant
    have hwritten := Server.writeResponsePdu_fits session.association.nextCallId session.accepted.contextId hscratch
      session.accepted.transfer .ok hsmall
    simp only [hkept, hciphers, hostEnv, hencoded, List.take_left, hwritten] at hanswer
    have hread := @readReply_ok session.called.association session.association.nextCallId session.accepted.contextId
      session.accepted.transfer response (Server.responsePdu_fits session.accepted.transfer .ok hsmall).1
    obtain ⟨stream', hactivate, hin', hentropy, hhost⟩ := hrun hanswer.symm hsmall (by simp) ⟨rfl, rfl⟩ hread
    simp only [Conversation.said, Conversation.next, Conversation.Decided, Conversation.host, hactivate]
    refine ⟨trivial, ⟨context, hhost.trans hnext.symm, ?_⟩, hin'⟩
    rw [hdecision]
    exact ⟨exchange, requestIv, freshIv, salt, hdraws, by rw [hentropy]; exact hdrawn, hjudge, hreports⟩

end Conversation

/-- A source that always has something to draw. -/
def constantDraws : EntropySource Unit := ⟨fun _ n => (some (Vector.replicate n 0x5a), ())⟩

/-- Every write arrives as one read. -/
def wholeWrites : Transport where
  deliveries _ bytes := if bytes = [] then [] else [⟨bytes, ⟨none, 0, none⟩⟩]
  flatten_input := by
    intro _ bytes
    split_ifs with hnil
    · exact hnil.symm
    · simp
  ne_nil := by
    intro _ bytes delivery hdelivery
    split_ifs at hdelivery with hnil
    · cases hdelivery
    · rw [List.mem_singleton.mp hdelivery]
      exact hnil

def sampleEndpoint : Endpoint Unit := ⟨.default, Connection.denying.digests, constantDraws, true, 1688, wholeWrites⟩

def sampleStream : Loopback Unit Policy.Gate.twoKeys := ⟨Server.accept 0 true 1688 () Server.freshHost, 0, [], false⟩

/-- A version 6 client of the Windows host key. -/
def sampleFields : RequestFields where
  version := .v6
  declaredVersion := none
  application := Policy.Gate.windows
  sku := Server.hostKey
  kmsId := Server.hostKey
  clientMachineId := Vector.replicate 16 0x11
  previousClientMachineId := .zero
  requiredClients := 25
  licenseStatus := 2
  graceMinutes := 43200
  virtualMachine := false
  workstationName := ['w', 'k', 's']
  clientTime := 0

end Kmsrs.Client
